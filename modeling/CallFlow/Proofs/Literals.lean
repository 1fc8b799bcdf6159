import CallFlow.Graph.Check
import CallFlow.Proofs.Assoc
import CallFlow.Proofs.Except
import CallFlow.Store.Basic

/-!
# The constants of a graph

Constants are the defaults of parameters and sources of mappings.  `mapConstants?` changes all
constants of a definition, if it can change each one, and nothing else; `mapConstants` is the same
for a change that never fails.  What remains without them is the outline of the definition, on
which every check of a graph depends (`Graph.check_outline`).
-/

namespace CallFlow

/-! ## Changing the constants of lists -/

section Lists

variable {α β γ : Type}

theorem mapM_congr {f f' : α → Option β} {as : List α} (h : ∀ a ∈ as, f a = f' a) :
    as.mapM f = as.mapM f' := by
  induction as with
  | nil => rfl
  | cons a as ih =>
      rw [List.mapM_cons, List.mapM_cons, h a (by simp),
        ih fun b hb => h b (List.mem_cons_of_mem _ hb)]

/-- A list stays as it is exactly if every element does. -/
theorem mapM_eq_some_self_iff {f : α → Option α} {as : List α} :
    as.mapM f = some as ↔ ∀ a ∈ as, f a = some a := by
  constructor
  · intro h
    induction as with
    | nil => exact fun _ ha => absurd ha (by simp)
    | cons a as ih =>
        rw [List.mapM_cons] at h
        obtain ⟨b, hb, h⟩ := Option.bind_eq_some_iff.1 h
        obtain ⟨bs, hbs, h⟩ := Option.bind_eq_some_iff.1 h
        obtain ⟨rfl, rfl⟩ := List.cons.inj (Option.some.inj h)
        exact List.forall_mem_cons.2 ⟨hb, ih hbs⟩
  · intro h
    rw [mapM_congr h]
    simpa using List.mapM_pure (m := Option) (l := as) (f := id)

theorem mapM_option_eq_some_self_iff {f : α → Option α} {a? : Option α} :
    a?.mapM f = some a? ↔ ∀ a ∈ a?, f a = some a := by
  cases a? <;> simp

/-- If every element can be changed then so can the list. -/
theorem mapM_eq_some_map {f : α → Option β} {f' : α → β} {as : List α}
    (h : ∀ a ∈ as, f a = some (f' a)) :
    as.mapM f = some (as.map f') := by
  rw [mapM_congr h]
  exact List.mapM_pure

theorem mapM_option_eq_some_map {f : α → Option β} {f' : α → β} {a? : Option α}
    (h : ∀ a ∈ a?, f a = some (f' a)) : a?.mapM f = some (a?.map f') := by
  cases a? with
  | none => rfl
  | some a => simp [h a rfl]

/-- What is the same before and after a change of every element is so for all together. -/
theorem map_eq_of_mapM_eq_some {f : α → Option β} {p : α → γ} {q : β → γ}
    (h : ∀ a b, f a = some b → q b = p a) {as : List α} {bs : List β} (hbs : as.mapM f = some bs) :
    bs.map q = as.map p := by
  induction as generalizing bs with
  | nil =>
      obtain rfl : [] = bs := Option.some.inj hbs
      rfl
  | cons a as ih =>
      rw [List.mapM_cons] at hbs
      obtain ⟨b, hb, hbs⟩ := Option.bind_eq_some_iff.1 hbs
      obtain ⟨bs', hbs', hbs⟩ := Option.bind_eq_some_iff.1 hbs
      obtain rfl := Option.some.inj hbs
      rw [List.map_cons, List.map_cons, h a b hb, ih hbs']

theorem map_eq_of_mapM_option {f : α → Option β} {p : α → γ} {q : β → γ}
    (h : ∀ a b, f a = some b → q b = p a)
    {a? : Option α} {b? : Option β} (hb : a?.mapM f = some b?) : b?.map q = a?.map p := by
  cases a? with
  | none =>
      obtain rfl : none = b? := Option.some.inj hb
      rfl
  | some a =>
      obtain ⟨b, hf, rfl⟩ := Option.map_eq_some_iff.1 (show (f a).map some = some b? from hb)
      rw [Option.map_some, Option.map_some, h a b hf]

end Lists

/-! ## Definitions -/

namespace Param

/-- Changes the default. -/
def mapConstants? (F : Constant → Option Constant) (p : Param) : Option Param := do
  return { p with default := ← p.default.mapM F }

/-- The parameter without the default. -/
def outline (p : Param) : Param := { p with default := none }

end Param

namespace Description

/-- Changes all defaults. -/
def mapConstants? (F : Constant → Option Constant) (d : Description) : Option Description := do
  let params ← d.params.mapM (Param.mapConstants? F)
  let receiver ← d.receiver.mapM (Param.mapConstants? F)
  return { d with params, receiver }

/-- All defaults. -/
def constants (d : Description) : List Constant :=
  d.params.filterMap (·.default) ++ (d.receiver.bind (·.default)).toList

/-- The description without defaults. -/
def outline (d : Description) : Description :=
  { d with params := d.params.map Param.outline, receiver := d.receiver.map Param.outline }

end Description

namespace Endpoint

/-- Changes the constant, if the endpoint is one. -/
def mapConstants? (F : Constant → Option Constant) : Endpoint → Option Endpoint
  | .constant c => (F c).map .constant
  | .call id port => some (.call id port)
  | .boundary port => some (.boundary port)
  | .variable name => some (.variable name)

/-- The constant, if the endpoint is one. -/
def constants : Endpoint → List Constant
  | .constant c => [c]
  | .call _ _ | .boundary _ | .variable _ => []

/-- The endpoint without what the constant is. -/
def outline : Endpoint → Endpoint
  | .constant _ => .constant .none
  | .call id port => .call id port
  | .boundary port => .boundary port
  | .variable name => .variable name

end Endpoint

namespace Mapping

/-- Changes the constants at both ends. -/
def mapConstants? (F : Constant → Option Constant) (m : Mapping) : Option Mapping := do
  let source ← m.source.mapConstants? F
  let target ← m.target.mapConstants? F
  return { m with source, target }

/-- The constants at both ends. -/
def constants (m : Mapping) : List Constant := m.source.constants ++ m.target.constants

/-- The mapping without what constants are. -/
def outline (m : Mapping) : Mapping :=
  { m with source := m.source.outline, target := m.target.outline }

end Mapping

namespace Composition

/-- Changes the constants of all mappings. -/
def mapConstants? (F : Constant → Option Constant) (c : Composition) : Option Composition := do
  return { c with mappings := ← c.mappings.mapM (Mapping.mapConstants? F) }

/-- The constants of all mappings. -/
def constants (c : Composition) : List Constant := c.mappings.flatMap Mapping.constants

/-- The composition without what constants are. -/
def outline (c : Composition) : Composition := { c with mappings := c.mappings.map Mapping.outline }

end Composition

namespace GraphParts

/-- Changes the constants of all definitions. -/
def mapConstants? (F : Constant → Option Constant) (p : GraphParts) : Option GraphParts := do
  let functions ← p.functions.mapM (Description.mapConstants? F)
  let compositions ← p.compositions.mapM (Composition.mapConstants? F)
  return { p with functions, compositions }

/-- The constants of all definitions. -/
def constants (p : GraphParts) : List Constant :=
  p.functions.flatMap Description.constants ++ p.compositions.flatMap Composition.constants

/-- The definitions without what constants are. -/
def outline (p : GraphParts) : GraphParts :=
  { p with
    functions := p.functions.map Description.outline
    compositions := p.compositions.map Composition.outline }

end GraphParts

namespace Graph

/-- Changes the constants of all definitions. -/
def mapConstants? (F : Constant → Option Constant) (g : Graph) : Option Graph := do
  let functions ← g.functions.mapM fun entry => (entry.2.mapConstants? F).map fun d => (entry.1, d)
  let compositions
    ← g.compositions.mapM fun entry => (entry.2.mapConstants? F).map fun c => (entry.1, c)
  return { g with functions, compositions }

/-- The constants of all definitions. -/
def constants (g : Graph) : List Constant := g.parts.constants

/-- The graph without what constants are. -/
def outline (g : Graph) : Graph :=
  { g with
    functions := Assoc.mapValues Description.outline g.functions
    compositions := Assoc.mapValues Composition.outline g.compositions }

end Graph

/-! ## Constants that stay as they are -/

section Fixed

variable {F : Constant → Option Constant}

theorem Param.mapConstants?_eq_self_iff {p : Param} :
    p.mapConstants? F = some p ↔ ∀ v ∈ p.default, F v = some v := by
  rw [← mapM_option_eq_some_self_iff, mapConstants?]
  obtain ⟨name, valueType, kind, default⟩ := p
  cases default.mapM F <;> simp

theorem Description.mapConstants?_eq_self_iff {d : Description} :
    d.mapConstants? F = some d ↔ ∀ v ∈ d.constants, F v = some v := by
  have hparts : d.mapConstants? F = some d ↔ d.params.mapM (Param.mapConstants? F) = some d.params ∧
      d.receiver.mapM (Param.mapConstants? F) = some d.receiver := by
    rw [mapConstants?]
    obtain ⟨id, name, params, receiver, output, selfOutput, body, implementation⟩ := d
    cases params.mapM (Param.mapConstants? F) <;> cases receiver.mapM (Param.mapConstants? F) <;>
      simp
  rw [hparts, mapM_eq_some_self_iff, mapM_option_eq_some_self_iff]
  simp only [Param.mapConstants?_eq_self_iff, constants, List.forall_mem_append, List.mem_filterMap,
    Option.mem_toList,
    Option.mem_def, Option.bind_eq_some_iff]
  exact and_congr ⟨fun h v ⟨p, hp, hv⟩ => h p hp v hv, fun h p hp v hv => h v ⟨p, hp, hv⟩⟩
    ⟨fun h v ⟨p, hp, hv⟩ => h p hp v hv, fun h p hp v hv => h v ⟨p, hp, hv⟩⟩

theorem Endpoint.mapConstants?_eq_self_iff {e : Endpoint} :
    e.mapConstants? F = some e ↔ ∀ v ∈ e.constants, F v = some v := by
  match e with
  | .constant v => simp [mapConstants?, constants]
  | .call _ _ | .boundary _ | .variable _ => simp [mapConstants?, constants]

theorem Mapping.mapConstants?_eq_self_iff {m : Mapping} :
    m.mapConstants? F = some m ↔ ∀ v ∈ m.constants, F v = some v := by
  have hparts : m.mapConstants? F = some m ↔
      m.source.mapConstants? F = some m.source ∧ m.target.mapConstants? F = some m.target := by
    rw [mapConstants?]
    obtain ⟨source, sourceStrategy, target, targetStrategy, priority⟩ := m
    cases source.mapConstants? F <;> cases target.mapConstants? F <;> simp
  rw [hparts, Endpoint.mapConstants?_eq_self_iff, Endpoint.mapConstants?_eq_self_iff, constants,
    List.forall_mem_append]

theorem Composition.mapConstants?_eq_self_iff {c : Composition} :
    c.mapConstants? F = some c ↔ ∀ v ∈ c.constants, F v = some v := by
  have hparts :
      c.mapConstants? F = some c ↔ c.mappings.mapM (Mapping.mapConstants? F) = some c.mappings := by
    rw [mapConstants?]
    obtain ⟨id, name, represents, starts, calls, mappings⟩ := c
    cases mappings.mapM (Mapping.mapConstants? F) <;> simp
  rw [hparts, mapM_eq_some_self_iff]
  simp only [Mapping.mapConstants?_eq_self_iff, constants, List.mem_flatMap]
  exact ⟨fun h v ⟨m, hm, hv⟩ => h m hm v hv, fun h m hm v hv => h v ⟨m, hm, hv⟩⟩

/-- All constants stay as they are exactly if every definition does. -/
theorem GraphParts.forall_constants_iff {p : GraphParts} :
    (∀ v ∈ p.constants, F v = some v) ↔ (∀ d ∈ p.functions, d.mapConstants? F = some d) ∧
      ∀ c ∈ p.compositions, c.mapConstants? F = some c := by
  simp only [Description.mapConstants?_eq_self_iff,
    Composition.mapConstants?_eq_self_iff, constants,
    List.forall_mem_append, List.mem_flatMap]
  exact and_congr ⟨fun h d hd v hv => h v ⟨d, hd, hv⟩, fun h v ⟨d, hd, hv⟩ => h d hd v hv⟩
    ⟨fun h c hc v hv => h v ⟨c, hc, hv⟩, fun h v ⟨c, hc, hv⟩ => h c hc v hv⟩

theorem GraphParts.mapConstants?_eq_self_iff {p : GraphParts} :
    p.mapConstants? F = some p ↔ ∀ v ∈ p.constants, F v = some v := by
  have hparts : p.mapConstants? F = some p ↔
    p.functions.mapM (Description.mapConstants? F) = some p.functions ∧
      p.compositions.mapM (Composition.mapConstants? F) = some p.compositions := by
    rw [mapConstants?]
    obtain ⟨name, functions, compositions⟩ := p
    cases functions.mapM (Description.mapConstants? F) <;>
      cases compositions.mapM (Composition.mapConstants? F) <;>
      simp
  rw [hparts, mapM_eq_some_self_iff, mapM_eq_some_self_iff, forall_constants_iff]

theorem mapM_values {κ α : Type} (f : α → Option α) (m : Assoc κ α) :
    (Assoc.values m).mapM f =
      (m.mapM fun entry => (f entry.2).map fun a => (entry.1, a)).map Assoc.values := by
  induction m with
  | nil => rfl
  | cons entry m ih =>
      rw [Assoc.values, List.map_cons, List.mapM_cons, List.mapM_cons]
      rw [Assoc.values] at ih
      rw [ih]
      cases f entry.2 <;> cases m.mapM (fun entry => (f entry.2).map fun a => (entry.1, a)) <;> rfl

theorem Graph.mapConstants?_eq_self_iff {g : Graph} :
    g.mapConstants? F = some g ↔ ∀ v ∈ g.constants, F v = some v := by
  have hparts : g.mapConstants? F = some g ↔
      (g.functions.mapM fun entry => (entry.2.mapConstants? F).map fun d => (entry.1, d)) =
        some g.functions ∧
      (g.compositions.mapM fun entry => (entry.2.mapConstants? F).map fun c => (entry.1, c)) =
        some g.compositions := by
    rw [mapConstants?]
    obtain ⟨name, functions, compositions, nextFunction, nextComposition, nextCall⟩ := g
    cases functions.mapM (fun entry => (entry.2.mapConstants? F).map fun d => (entry.1, d)) <;>
      cases compositions.mapM (fun entry => (entry.2.mapConstants? F).map fun c => (entry.1, c)) <;>
      simp
  have hentry : ∀ {κ α : Type} {f : α → Option α} {m : Assoc κ α},
      (∀ entry ∈ m, ((f entry.2).map fun a => (entry.1, a)) = some entry) ↔
        ∀ a ∈ Assoc.values m, f a = some a := by
    intro κ α f m
    simp only [Assoc.values, List.forall_mem_map, Option.map_eq_some_iff]
    refine forall₂_congr fun entry _ => ?_
    constructor
    · rintro ⟨a, ha, heq⟩
      rwa [(Prod.mk.inj heq).2] at ha
    · exact fun h => ⟨_, h, rfl⟩
  rw [hparts, mapM_eq_some_self_iff, mapM_eq_some_self_iff, constants,
    GraphParts.forall_constants_iff]
  exact and_congr hentry hentry

/-- The constants of a graph are those of its parts. -/
theorem Graph.mapConstants?_parts (g : Graph) :
    g.parts.mapConstants? F = (g.mapConstants? F).map Graph.parts := by
  rw [GraphParts.mapConstants?, Graph.mapConstants?, parts, mapM_values, mapM_values]
  cases g.functions.mapM (fun entry => (entry.2.mapConstants? F).map fun d => (entry.1, d)) <;>
    cases g.compositions.mapM (fun entry => (entry.2.mapConstants? F).map fun c => (entry.1, c)) <;>
    rfl

end Fixed

/-! ## Constants that can all be changed -/

namespace Param

/-- The parameter with the default changed. -/
def mapConstants (f : Constant → Constant) (p : Param) : Param :=
  { p with default := p.default.map f }

end Param

namespace Description

/-- The description with all defaults changed. -/
def mapConstants (f : Constant → Constant) (d : Description) : Description :=
  { d with params := d.params.map (Param.mapConstants f), receiver :=
    d.receiver.map (Param.mapConstants f) }

end Description

namespace Endpoint

/-- The endpoint with the constant changed. -/
def mapConstants (f : Constant → Constant) : Endpoint → Endpoint
  | .constant c => .constant (f c)
  | .call id port => .call id port
  | .boundary port => .boundary port
  | .variable name => .variable name

end Endpoint

namespace Mapping

/-- The mapping with the constants at both ends changed. -/
def mapConstants (f : Constant → Constant) (m : Mapping) : Mapping :=
  { m with source := m.source.mapConstants f, target := m.target.mapConstants f }

end Mapping

namespace Composition

/-- The composition with the constants of all mappings changed. -/
def mapConstants (f : Constant → Constant) (c : Composition) : Composition :=
  { c with mappings := c.mappings.map (Mapping.mapConstants f) }

end Composition

namespace Graph

/-- The graph with all constants changed. -/
def mapConstants (f : Constant → Constant) (g : Graph) : Graph :=
  { g with
    functions := Assoc.mapValues (Description.mapConstants f) g.functions
    compositions := Assoc.mapValues (Composition.mapConstants f) g.compositions }

end Graph

section Total

variable {F : Constant → Option Constant} {f : Constant → Constant}

theorem Param.mapConstants?_eq_some {p : Param} (h : ∀ v ∈ p.default, F v = some (f v)) :
    p.mapConstants? F = some (p.mapConstants f) := by
  rw [mapConstants?, mapM_option_eq_some_map h]
  rfl

theorem Description.mapConstants?_eq_some {d : Description}
    (h : ∀ v ∈ d.constants, F v = some (f v)) :
    d.mapConstants? F = some (d.mapConstants f) := by
  obtain ⟨hparams, hreceiver⟩ := List.forall_mem_append.1 h
  have hparams := mapM_eq_some_map fun p hp => Param.mapConstants?_eq_some fun v hv =>
    hparams v (List.mem_filterMap.2 ⟨p, hp, hv⟩)
  have hreceiver := mapM_option_eq_some_map fun p hp => Param.mapConstants?_eq_some fun v hv =>
    hreceiver v (Option.mem_toList.2 (Option.bind_eq_some_iff.2 ⟨p, hp, hv⟩))
  rw [mapConstants?, hparams, hreceiver]
  rfl

theorem Endpoint.mapConstants?_eq_some {e : Endpoint} (h : ∀ v ∈ e.constants, F v = some (f v)) :
    e.mapConstants? F = some (e.mapConstants f) := by
  match e with
  | .constant v =>
      rw [mapConstants?, h v (List.mem_singleton_self v), Option.map_some, mapConstants]
  | .call _ _ | .boundary _ | .variable _ => rfl

theorem Mapping.mapConstants?_eq_some {m : Mapping} (h : ∀ v ∈ m.constants, F v = some (f v)) :
    m.mapConstants? F = some (m.mapConstants f) := by
  obtain ⟨hsource, htarget⟩ := List.forall_mem_append.1 h
  rw [mapConstants?, Endpoint.mapConstants?_eq_some hsource, Endpoint.mapConstants?_eq_some htarget]
  rfl

theorem Composition.mapConstants?_eq_some {c : Composition}
    (h : ∀ v ∈ c.constants, F v = some (f v)) :
    c.mapConstants? F = some (c.mapConstants f) := by
  rw [mapConstants?, mapM_eq_some_map fun m hm => Mapping.mapConstants?_eq_some fun v hv =>
    h v (List.mem_flatMap.2 ⟨m, hm, hv⟩)]
  rfl

theorem mapM_entries_eq_some {κ α : Type} {f? : α → Option α} {f : α → α} {m : Assoc κ α}
    (h : ∀ a ∈ Assoc.values m, f? a = some (f a)) :
    (m.mapM fun entry => (f? entry.2).map fun a => (entry.1, a)) = some (Assoc.mapValues f m) := by
  rw [Assoc.mapValues_eq_map]
  refine mapM_eq_some_map fun entry hentry => ?_
  rw [h entry.2 (List.mem_map_of_mem hentry), Option.map_some]

/-- **If each constant can be changed then so can the graph.** -/
theorem Graph.mapConstants?_eq_some {g : Graph} (h : ∀ v ∈ g.constants, F v = some (f v)) :
    g.mapConstants? F = some (g.mapConstants f) := by
  obtain ⟨hfunctions, hcompositions⟩ := List.forall_mem_append.1 h
  have hfunctions := mapM_entries_eq_some fun d hd => Description.mapConstants?_eq_some fun v hv =>
    hfunctions v (List.mem_flatMap.2 ⟨d, hd, hv⟩)
  have hcompositions :=
      mapM_entries_eq_some fun c hc => Composition.mapConstants?_eq_some fun v hv =>
    hcompositions v (List.mem_flatMap.2 ⟨c, hc, hv⟩)
  rw [mapConstants?]
  exact Option.bind_eq_some_iff.2 ⟨_, hfunctions, Option.bind_eq_some_iff.2 ⟨_, hcompositions, rfl⟩⟩

theorem Graph.mapConstants_eq_self_iff {g : Graph} :
    g.mapConstants f = g ↔ ∀ v ∈ g.constants, f v = v := by
  have hsame := g.mapConstants?_eq_self_iff (F := fun v => some (f v))
  rw [mapConstants?_eq_some fun _ _ => rfl] at hsame
  simpa only [Option.some.injEq] using hsame

theorem Description.constants_mapConstants (d : Description) :
    (d.mapConstants f).constants = d.constants.map f := by
  have hreceiver : (d.receiver.map (Param.mapConstants f)).bind (·.default) =
      (d.receiver.bind (·.default)).map f := by
    cases d.receiver <;> rfl
  rw [constants, mapConstants, hreceiver, List.filterMap_map, constants, List.map_append,
    List.map_filterMap,
    Option.toList_map]
  rfl

theorem Mapping.constants_mapConstants (m : Mapping) :
    (m.mapConstants f).constants = m.constants.map f := by
  have hendpoint : ∀ e : Endpoint, (e.mapConstants f).constants = e.constants.map f := by
    rintro (_ | _ | _ | _) <;> rfl
  rw [constants, mapConstants, hendpoint, hendpoint, constants, List.map_append]

theorem Composition.constants_mapConstants (c : Composition) :
    (c.mapConstants f).constants = c.constants.map f := by
  rw [constants, mapConstants, List.flatMap_map, constants, List.map_flatMap]
  exact congrArg (List.flatMap · c.mappings) (funext Mapping.constants_mapConstants)

theorem Graph.constants_mapConstants (g : Graph) :
    (g.mapConstants f).constants = g.constants.map f := by
  have hvalues : ∀ {κ α : Type} (f' : α → α) (constants : α → List Constant),
      (∀ a, constants (f' a) = (constants a).map f) → ∀ m : Assoc κ α,
      (Assoc.values (Assoc.mapValues f' m)).flatMap constants =
        ((Assoc.values m).flatMap constants).map f := by
    intro κ α f' constants h m
    induction m with
    | nil => rfl
    | cons entry m ih =>
        show constants (f' entry.2) ++ (Assoc.values (Assoc.mapValues f' m)).flatMap constants =
          (constants entry.2 ++ (Assoc.values m).flatMap constants).map f
        rw [h, ih, List.map_append]
  show (Assoc.values (Assoc.mapValues (Description.mapConstants f) g.functions)).flatMap
    Description.constants ++
    (Assoc.values (Assoc.mapValues (Composition.mapConstants f) g.compositions)).flatMap
      Composition.constants =
    (g.parts.functions.flatMap Description.constants ++
      g.parts.compositions.flatMap Composition.constants).map f
  rw [hvalues _ _ Description.constants_mapConstants,
    hvalues _ _ Composition.constants_mapConstants, List.map_append]
  rfl

end Total

/-! ## What stays the same -/

section Outlines

variable {F : Constant → Option Constant}

theorem Param.outline_of_mapConstants? {p p' : Param} (h : p.mapConstants? F = some p') :
    p'.outline = p.outline := by
  obtain ⟨default, -, heq⟩ := Option.bind_eq_some_iff.1 h
  obtain rfl := Option.some.inj heq
  rfl

theorem Description.outline_of_mapConstants? {d d' : Description}
    (h : d.mapConstants? F = some d') :
    d'.outline = d.outline := by
  obtain ⟨params, hparams, h⟩ := Option.bind_eq_some_iff.1 h
  obtain ⟨receiver, hreceiver, h⟩ := Option.bind_eq_some_iff.1 h
  obtain rfl := Option.some.inj h
  have hparams := map_eq_of_mapM_eq_some (fun _ _ => Param.outline_of_mapConstants?) hparams
  have hreceiver := map_eq_of_mapM_option (fun _ _ => Param.outline_of_mapConstants?) hreceiver
  simp only [outline, hparams, hreceiver]

theorem Endpoint.outline_of_mapConstants? {e e' : Endpoint} (h : e.mapConstants? F = some e') :
    e'.outline = e.outline := by
  match e with
  | .constant c =>
      obtain ⟨c', -, rfl⟩ := Option.map_eq_some_iff.1 h
      rfl
  | .call _ _ | .boundary _ | .variable _ =>
      obtain rfl := Option.some.inj h
      rfl

theorem Mapping.outline_of_mapConstants? {m m' : Mapping} (h : m.mapConstants? F = some m') :
    m'.outline = m.outline := by
  obtain ⟨source, hsource, h⟩ := Option.bind_eq_some_iff.1 h
  obtain ⟨target, htarget, h⟩ := Option.bind_eq_some_iff.1 h
  obtain rfl := Option.some.inj h
  simp only [outline, Endpoint.outline_of_mapConstants? hsource,
    Endpoint.outline_of_mapConstants? htarget]

theorem Composition.outline_of_mapConstants? {c c' : Composition}
    (h : c.mapConstants? F = some c') :
    c'.outline = c.outline := by
  obtain ⟨mappings, hmappings, h⟩ := Option.bind_eq_some_iff.1 h
  obtain rfl := Option.some.inj h
  simp only [outline,
    map_eq_of_mapM_eq_some (fun _ _ => Mapping.outline_of_mapConstants?) hmappings]

theorem GraphParts.outline_of_mapConstants? {p p' : GraphParts} (h : p.mapConstants? F = some p') :
    p'.outline = p.outline := by
  obtain ⟨functions, hfunctions, h⟩ := Option.bind_eq_some_iff.1 h
  obtain ⟨compositions, hcompositions, h⟩ := Option.bind_eq_some_iff.1 h
  obtain rfl := Option.some.inj h
  simp only [outline,
    map_eq_of_mapM_eq_some (fun _ _ => Description.outline_of_mapConstants?) hfunctions,
    map_eq_of_mapM_eq_some (fun _ _ => Composition.outline_of_mapConstants?) hcompositions]

theorem Graph.outline_of_mapConstants? {g g' : Graph} (h : g.mapConstants? F = some g') :
    g'.outline = g.outline := by
  obtain ⟨functions, hfunctions, h⟩ := Option.bind_eq_some_iff.1 h
  obtain ⟨compositions, hcompositions, h⟩ := Option.bind_eq_some_iff.1 h
  obtain rfl := Option.some.inj h
  have hentry : ∀ {κ α : Type} {f : α → Option α} {outline : α → α},
    (∀ a a', f a = some a' → outline a' = outline a) →
      ∀ (e e' : κ × α), ((f e.2).map fun a => (e.1, a)) = some e' →
        (e'.1, outline e'.2) = (e.1, outline e.2) := by
    rintro κ α f outline hf e e' he
    obtain ⟨a', ha', rfl⟩ := Option.map_eq_some_iff.1 he
    rw [hf _ _ ha']
  have hfunctions :=
    map_eq_of_mapM_eq_some (hentry fun _ _ => Description.outline_of_mapConstants?) hfunctions
  have hcompositions :=
    map_eq_of_mapM_eq_some (hentry fun _ _ => Composition.outline_of_mapConstants?) hcompositions
  simp only [outline, Assoc.mapValues_eq_map, hfunctions, hcompositions]

end Outlines

/-! ## Checks -/

namespace Description

theorem repeated?_outline (before params : List Param) :
    repeated? (before.map Param.outline) (params.map Param.outline) = repeated? before params := by
  induction params generalizing before with
  | nil => rfl
  | cons p rest ih =>
      have hrest := ih (p :: before)
      rw [List.map_cons] at hrest
      simp only [List.map_cons, repeated?, List.any_map, Function.comp_def, hrest]
      rfl

theorem fault?_outline (d : Description) : d.outline.fault? = d.fault? := by
  have hrepeated : repeated? [] (d.params.map Param.outline) = repeated? [] d.params :=
    repeated?_outline [] d.params
  have hcount :
      ∀ kind : ParamKind, ((d.params.map Param.outline).filter fun p => p.kind == kind).length
      = (d.params.filter fun p => p.kind == kind).length := by
    intro kind
    rw [List.filter_map, List.length_map]
    rfl
  simp only [fault?, outline, hrepeated, hcount, Option.isNone_map]

end Description

namespace Graph

variable (g : Graph)

theorem function_outline (id : FunctionId) :
    g.outline.function id = (g.function id).map Description.outline := by
  simp only [function, outline, Assoc.find?_mapValues]
  cases Assoc.find? g.functions id <;> rfl

theorem composition_outline (id : CompositionId) :
    g.outline.composition id = (g.composition id).map Composition.outline := by
  simp only [composition, outline, Assoc.find?_mapValues]
  cases Assoc.find? g.compositions id <;> rfl

theorem hasPort_outline (d : Description) (port : Port) :
    hasPort d.outline port = hasPort d port := by
  cases port <;> simp [hasPort, Description.outline]

theorem checkPort_outline (id : CompositionId) (f : FunctionId) (port : Port) :
    g.outline.checkPort id f port = g.checkPort id f port := by
  rw [checkPort, checkPort, function_outline]
  cases g.function f with
  | error fault => rfl
  | ok d =>
      show (if hasPort d.outline port then _ else _) = _
      rw [hasPort_outline]
      rfl

theorem checkEndpoint_outline (id : CompositionId) (c : Composition) (e : Endpoint) :
    g.outline.checkEndpoint id c.outline e.outline = g.checkEndpoint id c e := by
  match e with
  | .constant _ | .variable _ => rfl
  | .call call port =>
      simp only [checkEndpoint, Endpoint.outline, Composition.outline, checkPort_outline]
      rfl
  | .boundary port =>
      simp only [checkEndpoint, Endpoint.outline, Composition.outline, checkPort_outline]

theorem targetFault?_outline (e : Endpoint) : targetFault? e.outline = targetFault? e := by
  match e with
  | .constant _ | .variable _ | .call _ _ | .boundary _ => rfl

theorem checkMapping_outline (id : CompositionId) (m : Mapping) :
    g.outline.checkMapping id m.outline = g.checkMapping id m := by
  rw [checkMapping, checkMapping, composition_outline]
  cases g.composition id with
  | error fault => rfl
  | ok c =>
      have hsource := g.checkEndpoint_outline id c m.source
      have htarget := g.checkEndpoint_outline id c m.target
      have hfault := targetFault?_outline m.target
      simp only [Except.map, bind, Except.bind, Mapping.outline, hsource, htarget, hfault]
      rfl

theorem forM_map {α β ε : Type} (f : β → Except ε Unit) (h : α → β) (as : List α) :
    (as.map h).forM f = as.forM fun a => f (h a) := by
  induction as with
  | nil => rfl
  | cons a as ih =>
      show (f (h a) >>= fun _ => (as.map h).forM f) = _
      rw [ih]
      rfl

/-- **Checks do not depend on what constants are.** -/
theorem check_outline : g.outline.check = g.check := by
  have hvalues : ∀ {κ α β : Type} (f : α → β) (m : Assoc κ α),
      Assoc.values (Assoc.mapValues f m) = (Assoc.values m).map f := by
    intro κ α β f m
    induction m with
    | nil => rfl
    | cons entry m ih => exact congrArg (f entry.2 :: ·) ih
  have hdescription : ∀ d, checkDescription d.outline = checkDescription d := by
    intro d
    rw [checkDescription, checkDescription, Description.fault?_outline]
    rfl
  rw [check, check]
  simp only [outline, hvalues, forM_map, hdescription]
  refine congrArg (_ >>= ·) (funext fun _ => ?_)
  refine congrArg (Assoc.values g.compositions).forM (funext fun c => ?_)
  show (c.mappings.map Mapping.outline).forM _ = _
  rw [forM_map]
  exact congrArg c.mappings.forM (funext fun m => g.checkMapping_outline c.id m)

end Graph

end CallFlow
