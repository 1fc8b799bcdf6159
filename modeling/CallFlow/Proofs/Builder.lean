import CallFlow.Graph.Builder
import CallFlow.Proofs.Except
import Mathlib.Data.List.Basic
import Mathlib.Logic.Relation

/-!
# Graphs that were built

A graph that comes from the empty one by operations of a builder (`Graph.Buildable`), in any order
and whether or not each of them succeeds, is well formed (`Graph.Buildable.wellFormed`): whatever
a definition in it names is there.

An operation makes a few changes to the graph, each of a kind of its own (`Graph.Change`), of
which it is known what was checked before (`Graph.Operation.changes_apply`).  A change of one
composition leaves its calls where they were, and one of functions never takes a port from one
(`Graph.Extends`), so that what was checked when it was added stays true, and graphs stay well
formed (`Graph.Change.wellFormed`).
-/

namespace CallFlow

/-! ## Well-formed graphs -/

theorem Graph.function_eq_ok {g : Graph} {id : FunctionId} {d : Description} :
    g.function id = .ok d ↔ Assoc.find? g.functions id = some d := by
  unfold Graph.function
  cases Assoc.find? g.functions id <;> simp

theorem Graph.composition_eq_ok {g : Graph} {id : CompositionId} {c : Composition} :
    g.composition id = .ok c ↔ Assoc.find? g.compositions id = some c := by
  unfold Graph.composition
  cases Assoc.find? g.compositions id <;> simp

/-- The endpoint exists in the composition. -/
def Graph.Offers (g : Graph) (c : Composition) : Endpoint → Prop
  | .call id port => ∃ decl d, c.call? id = some decl ∧ g.function decl.function = .ok d ∧
      Graph.hasPort d port = true
  | .boundary port =>
      ∃ f d, c.represents = some f ∧ g.function f = .ok d ∧ Graph.hasPort d port = true
  | .constant _ | .variable _ => True

/-- Whatever the composition names is there: functions, calls, and the targets of its mappings. -/
structure Composition.Fits (c : Composition) (g : Graph) : Prop where
  represents : ∀ f, c.represents = some f → ∃ d, g.function f = .ok d
  nodup : (c.calls.map (·.id)).Nodup
  fresh : ∀ decl ∈ c.calls, decl.id.val < g.nextCall
  functions : ∀ decl ∈ c.calls, ∃ d, g.function decl.function = .ok d
  starts : ∀ call ∈ c.starts, c.hasCall call = true
  successors : ∀ decl ∈ c.calls, ∀ target ∈ decl.successor.targets, c.hasCall target = true
  mappings : ∀ m ∈ c.mappings, g.Offers c m.target

/-- Every definition of the graph has the identity under which it stands, and whatever it names is
there. -/
structure Graph.WellFormed (g : Graph) : Prop where
  functions : ∀ id d, g.function id = .ok d → d.id = id ∧ id.val < g.nextFunction
  compositions :
      ∀ id c, g.composition id = .ok c → c.id = id ∧ id.val < g.nextComposition ∧ c.Fits g
  bodies : ∀ id d b, g.function id = .ok d → d.body = some b →
    ∃ c, g.composition b = .ok c ∧ c.represents = some id

/-- The composition fits the graph, whatever calls are still to come. -/
structure Composition.Resolves (c : Composition) (g : Graph) : Prop where
  represents : ∀ f, c.represents = some f → ∃ d, g.function f = .ok d
  nodup : (c.calls.map (·.id)).Nodup
  functions : ∀ decl ∈ c.calls, ∃ d, g.function decl.function = .ok d
  starts : ∀ call ∈ c.starts, c.hasCall call = true
  successors : ∀ decl ∈ c.calls, ∀ target ∈ decl.successor.targets, c.hasCall target = true
  mappings : ∀ m ∈ c.mappings, g.Offers c m.target

/-- The graph is well formed, whatever identities are the next free ones.  Executions do not give
out any. -/
structure Graph.Resolved (g : Graph) : Prop where
  functions : ∀ id d, g.function id = .ok d → d.id = id
  compositions : ∀ id c, g.composition id = .ok c → c.id = id ∧ c.Resolves g
  bodies : ∀ id d b, g.function id = .ok d → d.body = some b →
    ∃ c, g.composition b = .ok c ∧ c.represents = some id

theorem Composition.Fits.resolves {c : Composition} {g : Graph} (h : c.Fits g) : c.Resolves g :=
  ⟨h.represents, h.nodup, h.functions, h.starts, h.successors, h.mappings⟩

theorem Graph.WellFormed.resolved {g : Graph} (h : g.WellFormed) : g.Resolved where
  functions id d hd := (h.functions id d hd).1
  compositions id c hc := ⟨(h.compositions id c hc).1, (h.compositions id c hc).2.2.resolves⟩
  bodies := h.bodies

theorem Graph.wellFormed_empty (name : String) : (Graph.empty name).WellFormed :=
  ⟨fun _ _ h => absurd h (by simp [function_eq_ok, empty]),
    fun _ _ h => absurd h (by simp [composition_eq_ok, empty]),
    fun _ _ _ h => absurd h (by simp [function_eq_ok, empty])⟩

/-! ## What stays when a graph grows -/

/-- The second graph has the functions of the first one, each with its ports and possibly more. -/
structure Graph.Extends (g g' : Graph) : Prop where
  functions : ∀ id d, g.function id = .ok d →
    ∃ d', g'.function id = .ok d' ∧
      ∀ port, Graph.hasPort d port = true → Graph.hasPort d' port = true
  calls : g.nextCall ≤ g'.nextCall

/-- The second composition has the calls of the first one, each of the same function. -/
structure Composition.Grows (c c' : Composition) : Prop where
  represents : c'.represents = c.represents
  calls : ∀ id decl, c.call? id = some decl →
    ∃ decl', c'.call? id = some decl' ∧ decl'.function = decl.function

theorem Graph.Extends.of_functions_eq {g g' : Graph} (hfunctions : g'.functions = g.functions)
    (hcalls : g.nextCall ≤ g'.nextCall) : g.Extends g' where
  functions id d hd := by
    refine ⟨d, ?_, fun _ h => h⟩
    rwa [Graph.function_eq_ok, hfunctions, ← Graph.function_eq_ok]
  calls := hcalls

theorem Graph.Offers.extends {g g' : Graph} {c : Composition} {e : Endpoint} (h : g.Offers c e)
    (hg : g.Extends g') : g'.Offers c e := by
  cases e with
  | call id port =>
      obtain ⟨decl, d, hdecl, hd, hport⟩ := h
      obtain ⟨d', hd', hports⟩ := hg.functions _ d hd
      exact ⟨decl, d', hdecl, hd', hports port hport⟩
  | boundary port =>
      obtain ⟨f, d, hf, hd, hport⟩ := h
      obtain ⟨d', hd', hports⟩ := hg.functions _ d hd
      exact ⟨f, d', hf, hd', hports port hport⟩
  | constant _ | «variable» _ => trivial

theorem Graph.Offers.grows {g : Graph} {c c' : Composition} {e : Endpoint} (h : g.Offers c e)
    (hc : c.Grows c') : g.Offers c' e := by
  cases e with
  | call id port =>
      obtain ⟨decl, d, hdecl, hd, hport⟩ := h
      obtain ⟨decl', hdecl', hfunction⟩ := hc.calls id decl hdecl
      exact ⟨decl', d, hdecl', by rwa [hfunction], hport⟩
  | boundary port =>
      obtain ⟨f, d, hf, hd, hport⟩ := h
      exact ⟨f, d, hc.represents.trans hf, hd, hport⟩
  | constant _ | «variable» _ => trivial

theorem Composition.Fits.extends {g g' : Graph} {c : Composition} (h : c.Fits g)
    (hg : g.Extends g') :
    c.Fits g' where
  represents f hf := by
    obtain ⟨d, hd⟩ := h.represents f hf
    obtain ⟨d', hd', -⟩ := hg.functions f d hd
    exact ⟨d', hd'⟩
  nodup := h.nodup
  fresh decl hdecl := Nat.lt_of_lt_of_le (h.fresh decl hdecl) hg.calls
  functions decl hdecl := by
    obtain ⟨d, hd⟩ := h.functions decl hdecl
    obtain ⟨d', hd', -⟩ := hg.functions _ d hd
    exact ⟨d', hd'⟩
  starts := h.starts
  successors := h.successors
  mappings m hm := (h.mappings m hm).extends hg

theorem Composition.Grows.hasCall {c c' : Composition} (h : c.Grows c') {id : CallId}
    (hcall : c.hasCall id = true) : c'.hasCall id = true := by
  obtain ⟨decl, hdecl⟩ := Option.isSome_iff_exists.1 hcall
  obtain ⟨decl', hdecl', -⟩ := h.calls id decl hdecl
  simp [Composition.hasCall, hdecl']

/-! ## Changes of one composition -/

/-- The change of a call leaves its identity and its function as they are. -/
def CallDecl.Kept (f : CallDecl → CallDecl) : Prop :=
  ∀ d, (f d).id = d.id ∧ (f d).function = d.function

namespace Composition

variable {c : Composition} {g : Graph} {id : CallId} {f : CallDecl → CallDecl}

theorem map_id_go (hf : CallDecl.Kept f) (calls : List CallDecl) :
    (modifyCall.go id f calls).map (·.id) = calls.map (·.id) := by
  induction calls with
  | nil => rfl
  | cons d rest ih =>
      rw [modifyCall.go]
      split
      · simp [(hf d).1]
      · simp [ih]

theorem mem_go {d : CallDecl} {calls : List CallDecl} (h : d ∈ modifyCall.go id f calls) :
    d ∈ calls ∨ ∃ d₀ ∈ calls, d = f d₀ := by
  induction calls with
  | nil => exact absurd h (by simp [modifyCall.go])
  | cons first rest ih =>
      rw [modifyCall.go] at h
      split at h
      · rcases List.mem_cons.1 h with h | h
        · exact .inr ⟨first, by simp, h⟩
        · exact .inl (List.mem_cons_of_mem _ h)
      · rcases List.mem_cons.1 h with h | h
        · exact .inl (by simp [h])
        · rcases ih h with h | ⟨d₀, hd₀, h⟩
          · exact .inl (List.mem_cons_of_mem _ h)
          · exact .inr ⟨d₀, List.mem_cons_of_mem _ hd₀, h⟩

theorem find?_go (hf : CallDecl.Kept f) {calls : List CallDecl} {call : CallId} {decl : CallDecl}
    (h : calls.find? (fun d => d.id == call) = some decl) :
    ∃ decl', (modifyCall.go id f calls).find? (fun d => d.id == call) = some decl' ∧
      decl'.function = decl.function := by
  induction calls with
  | nil => exact absurd h (by simp)
  | cons d rest ih =>
      rw [List.find?_cons] at h
      rw [modifyCall.go]
      split at h
      · rename_i hcall
        obtain rfl := Option.some.inj h
        split
        · exact ⟨f d, by rw [List.find?_cons, (hf d).1, hcall], (hf d).2⟩
        · exact ⟨d, by rw [List.find?_cons, hcall], rfl⟩
      · rename_i hcall
        split
        · exact ⟨decl, by rw [List.find?_cons, (hf d).1, hcall]; exact h, rfl⟩
        · obtain ⟨decl', hdecl', hfunction⟩ := ih h
          exact ⟨decl', by rw [List.find?_cons, hcall]; exact hdecl', hfunction⟩

/-- Changing a call takes none away, and makes none one of another function. -/
theorem grows_modifyCall (hf : CallDecl.Kept f) : c.Grows (c.modifyCall id f) :=
  ⟨rfl, fun _ _ hdecl => find?_go hf hdecl⟩

/-- A change of a call that leads to calls of the composition fits where the composition does. -/
theorem Fits.modifyCall (h : c.Fits g) (hf : CallDecl.Kept f)
    (hsuccessors : ∀ d ∈ c.calls, ∀ target ∈ (f d).successor.targets, c.hasCall target = true) :
    (c.modifyCall id f).Fits g := by
  have hgrows : c.Grows (c.modifyCall id f) := grows_modifyCall hf
  refine ⟨h.represents, ?_, fun d hd => ?_, fun d hd => ?_,
    fun call hcall => hgrows.hasCall (h.starts call hcall),
    fun d hd target htarget => hgrows.hasCall ?_, fun m hm => (h.mappings m hm).grows hgrows⟩
  · change ((modifyCall.go id f c.calls).map (·.id)).Nodup
    rw [map_id_go hf]
    exact h.nodup
  · rcases mem_go hd with hd | ⟨d₀, hd₀, rfl⟩
    · exact h.fresh d hd
    · rw [(hf d₀).1]
      exact h.fresh d₀ hd₀
  · rcases mem_go hd with hd | ⟨d₀, hd₀, rfl⟩
    · exact h.functions d hd
    · rw [(hf d₀).2]
      exact h.functions d₀ hd₀
  · rcases mem_go hd with hd | ⟨d₀, hd₀, rfl⟩
    · exact h.successors d hd target htarget
    · exact hsuccessors d₀ hd₀ target htarget

theorem Fits.setStart (h : c.Fits g) (hid : c.hasCall id = true) :
    (if c.starts.contains id then c else { c with starts := c.starts ++ [id] }).Fits g := by
  split
  · exact h
  · refine { h with starts := fun call hcall => ?_ }
    rcases List.mem_append.1 hcall with hcall | hcall
    · exact h.starts call hcall
    · obtain rfl := List.mem_singleton.1 hcall
      exact hid

theorem Fits.addMapping (h : c.Fits g) {m : Mapping} (hm : g.Offers c m.target) :
    { c with mappings := c.mappings ++ [m] }.Fits g := by
  refine { h with mappings := fun m' hm' => ?_ }
  have hsame : ∀ {e}, g.Offers c e → g.Offers { c with mappings := c.mappings ++ [m] } e :=
    fun {e} he => by cases e <;> exact he
  rcases List.mem_append.1 hm' with hm' | hm'
  · exact hsame (h.mappings m' hm')
  · obtain rfl := List.mem_singleton.1 hm'
    exact hsame hm

theorem grows_addCall (new : CallDecl) : c.Grows { c with calls := c.calls ++ [new] } := by
  refine ⟨rfl, fun call decl hdecl => ⟨decl, ?_, rfl⟩⟩
  show (c.calls ++ [new]).find? (fun d => d.id == call) = some decl
  have hfound : c.calls.find? (fun d => d.id == call) = some decl := hdecl
  rw [List.find?_append, hfound]
  rfl

/-- A new call fits beside the others in a graph that counts it. -/
theorem Fits.addCall {function : FunctionId} {d : Description} (h : c.Fits g)
    (hfunction : g.function function = .ok d) {new : CallDecl}
    (hnew : new = ⟨⟨g.nextCall⟩, function, .stop, none⟩) :
    { c with calls := c.calls ++ [new] }.Fits { g with nextCall := g.nextCall + 1 } := by
  subst hnew
  have hextends : g.Extends { g with nextCall := g.nextCall + 1 } :=
    .of_functions_eq rfl (Nat.le_succ _)
  have hgrows : c.Grows { c with calls := c.calls ++ [⟨⟨g.nextCall⟩, function, .stop, none⟩] } :=
    grows_addCall _
  have hkept := h.extends hextends
  refine ⟨hkept.represents, ?_, fun decl hdecl => ?_, fun decl hdecl => ?_,
    fun call hcall => hgrows.hasCall (h.starts call hcall), fun decl hdecl target htarget => ?_,
    fun m hm => (hkept.mappings m hm).grows hgrows⟩
  · rw [List.map_append, List.nodup_append]
    refine ⟨h.nodup, by simp, fun call hcall other hother heq => ?_⟩
    obtain ⟨decl, hdecl, rfl⟩ := List.mem_map.1 hcall
    obtain rfl := List.mem_singleton.1 hother
    have hless := h.fresh decl hdecl
    rw [heq] at hless
    exact absurd hless (Nat.lt_irrefl _)
  · rcases List.mem_append.1 hdecl with hdecl | hdecl
    · exact hkept.fresh decl hdecl
    · obtain rfl := List.mem_singleton.1 hdecl
      exact Nat.lt_succ_self _
  · rcases List.mem_append.1 hdecl with hdecl | hdecl
    · exact hkept.functions decl hdecl
    · obtain rfl := List.mem_singleton.1 hdecl
      exact ⟨d, hfunction⟩
  · rcases List.mem_append.1 hdecl with hdecl | hdecl
    · exact hgrows.hasCall (h.successors decl hdecl target htarget)
    · obtain rfl := List.mem_singleton.1 hdecl
      exact absurd htarget (by simp [Successor.targets])

end Composition

/-! ## Changes of a graph -/

namespace Graph

variable {g g' : Graph}

/-- Whether a graph is well formed where it has the same functions or more, and the compositions are
those that are given. -/
theorem WellFormed.of_extends (hextends : g.Extends g')
    (hfunctions : ∀ id d, g'.function id = .ok d → d.id = id ∧ id.val < g'.nextFunction)
    (hcompositions : ∀ id c, g'.composition id = .ok c →
      c.id = id ∧ id.val < g'.nextComposition ∧ (c.Fits g ∨ c.Fits g'))
    (hbodies : ∀ id d b, g'.function id = .ok d → d.body = some b →
      ∃ c, g'.composition b = .ok c ∧ c.represents = some id) : g'.WellFormed := by
  refine ⟨hfunctions, fun id c hc => ?_, hbodies⟩
  obtain ⟨hid, hless, hfits | hfits⟩ := hcompositions id c hc
  · exact ⟨hid, hless, hfits.extends hextends⟩
  · exact ⟨hid, hless, hfits⟩

/-- A change of a function that keeps its identity and its body, and takes no port from it. -/
structure FunctionKept (f : Description → Description) : Prop where
  id : ∀ d, (f d).id = d.id
  body : ∀ d, (f d).body = d.body
  ports : ∀ d port, hasPort d port = true → hasPort (f d) port = true

theorem function_modify {id id' : FunctionId} {f : Description → Description} {d : Description}
    (h : ({ g with functions := Assoc.modify g.functions id f } : Graph).function id' = .ok d) :
    g.function id' = .ok d ∨ ∃ d₀, g.function id' = .ok d₀ ∧ id = id' ∧ d = f d₀ := by
  rw [function_eq_ok, Assoc.find?_modify] at h
  split at h
  · rename_i hid
    obtain ⟨d₀, hd₀, rfl⟩ := Option.map_eq_some_iff.1 h
    exact .inr ⟨d₀, function_eq_ok.2 hd₀, hid, rfl⟩
  · exact .inl (function_eq_ok.2 h)

theorem extends_modifyFunction (id : FunctionId) {f : Description → Description}
    (hports : ∀ d port, hasPort d port = true → hasPort (f d) port = true) :
    g.Extends { g with functions := Assoc.modify g.functions id f } where
  functions id' d hd := by
    simp only [function_eq_ok, Assoc.find?_modify, function_eq_ok.1 hd, Option.map_some]
    split
    · exact ⟨f d, rfl, hports d⟩
    · exact ⟨d, rfl, fun _ h => h⟩
  calls := Nat.le_refl _

theorem WellFormed.modifyFunction (h : g.WellFormed) (id : FunctionId)
    {f : Description → Description}
    (hf : FunctionKept f) :
    ({ g with functions := Assoc.modify g.functions id f } : Graph).WellFormed := by
  refine .of_extends (extends_modifyFunction id hf.ports) (fun id' d hd => ?_)
    (fun id' c hc => ?_) fun id' d b hd hb => ?_
  · rcases function_modify hd with hd | ⟨d₀, hd₀, -, rfl⟩
    · exact h.functions id' d hd
    · rw [hf.id]
      exact h.functions id' d₀ hd₀
  · obtain ⟨hid, hless, hfits⟩ := h.compositions id' c hc
    exact ⟨hid, hless, .inl hfits⟩
  · rcases function_modify hd with hd | ⟨d₀, hd₀, -, rfl⟩
    · exact h.bodies id' d b hd hb
    · rw [hf.body] at hb
      exact h.bodies id' d₀ b hd₀ hb

theorem WellFormed.insertFunction (h : g.WellFormed) {d : Description}
    (hid : d.id = ⟨g.nextFunction⟩)
    (hbody : d.body = none) :
    ({ g with
      functions := Assoc.insertSorted FunctionId.before g.functions ⟨g.nextFunction⟩ d
      nextFunction := g.nextFunction + 1 } : Graph).WellFormed := by
  have hcases : ∀ {id' d'}, Assoc.find?
      (Assoc.insertSorted FunctionId.before g.functions ⟨g.nextFunction⟩ d) id' = some d' →
      ((⟨g.nextFunction⟩ : FunctionId) = id' ∧ d = d') ∨
      g.function id' = .ok d' := fun {id' d'} hd => by
    rw [Assoc.find?_insertSorted] at hd
    split at hd
    · exact .inl ⟨‹_›, Option.some.inj hd⟩
    · exact .inr (function_eq_ok.2 hd)
  refine .of_extends (g := g) ⟨fun id' d' hd' => ⟨d', ?_, fun _ h => h⟩, Nat.le_refl _⟩
    (fun id' d' hd' => ?_) (fun id' c hc => ?_) fun id' d' b hd' hb => ?_
  · -- the identity is new
    have hne : (⟨g.nextFunction⟩ : FunctionId) ≠ id' := by
      rintro rfl
      exact absurd (h.functions _ d' hd').2 (Nat.lt_irrefl _)
    rw [function_eq_ok, Assoc.find?_insertSorted, if_neg hne]
    exact function_eq_ok.1 hd'
  · rcases hcases (function_eq_ok.1 hd') with ⟨rfl, rfl⟩ | hd'
    · exact ⟨hid, Nat.lt_succ_self _⟩
    · exact ⟨(h.functions id' d' hd').1, Nat.lt_succ_of_lt (h.functions id' d' hd').2⟩
  · obtain ⟨hid, hless, hfits⟩ := h.compositions id' c hc
    exact ⟨hid, hless, .inl hfits⟩
  · rcases hcases (function_eq_ok.1 hd') with ⟨rfl, rfl⟩ | hd'
    · exact absurd (hbody.symm.trans hb) (by simp)
    · exact h.bodies id' d' b hd' hb

/-- Changing a composition without its identity and the function whose body it is. -/
theorem WellFormed.modifyComposition (h : g.WellFormed) {id : CompositionId} {c : Composition}
    {f : Composition → Composition} {nextCall : Nat} (hnext : g.nextCall ≤ nextCall)
    (hc : g.composition id = .ok c) (hid : (f c).id = c.id)
    (hrepresents : (f c).represents = c.represents)
    (hfits : (f c).Fits { g with nextCall }) :
    ({ g with compositions := Assoc.modify g.compositions id f, nextCall } : Graph).WellFormed := by
  refine .of_extends (g := { g with nextCall }) (.of_functions_eq rfl (Nat.le_refl _)) h.functions
    (fun id' c' hc' => ?_) fun id' d b hd hb => ?_
  · rw [composition_eq_ok, Assoc.find?_modify] at hc'
    split at hc'
    · rename_i heq
      subst heq
      rw [composition_eq_ok.1 hc] at hc'
      obtain rfl := Option.some.inj hc'
      obtain ⟨hsame, hless, -⟩ := h.compositions id c hc
      exact ⟨hid.trans hsame, hless, .inl hfits⟩
    · obtain ⟨hsame, hless, hkept⟩ := h.compositions id' c' (composition_eq_ok.2 hc')
      exact ⟨hsame, hless, .inl (hkept.extends (.of_functions_eq rfl hnext))⟩
  · obtain ⟨c', hc', hrep⟩ := h.bodies id' d b hd hb
    simp only [composition_eq_ok, Assoc.find?_modify, composition_eq_ok.1 hc', Option.map_some]
    split
    · rename_i heq
      subst heq
      obtain rfl : c = c' := Except.ok.inj (hc.symm.trans hc')
      exact ⟨f c, rfl, hrepresents.trans hrep⟩
    · exact ⟨c', rfl, hrep⟩

/-- The functions of a graph with a new composition, which becomes the body of the function it
represents. -/
def withBody (g : Graph) (id : CompositionId) : Option FunctionId → Assoc FunctionId Description
  | some function => Assoc.modify g.functions function fun d => { d with body := some id }
  | none => g.functions

theorem WellFormed.addComposition (h : g.WellFormed) (name : String)
    {represents : Option FunctionId}
    (hrepresents : ∀ f, represents = some f → ∃ d, g.function f = .ok d) :
    ({ g with
      functions := g.withBody ⟨g.nextComposition⟩ represents
      compositions := Assoc.insertSorted CompositionId.before g.compositions ⟨g.nextComposition⟩
        (Composition.empty ⟨g.nextComposition⟩ name represents)
      nextComposition := g.nextComposition + 1 } : Graph).WellFormed := by
  have hfunctions :
      ∀ {id' d'}, Assoc.find? (g.withBody ⟨g.nextComposition⟩ represents) id' = some d' →
      g.function id' = .ok d' ∨ ∃ d₀, g.function id' = .ok d₀ ∧ represents = some id' ∧
        d' = { d₀ with body := some ⟨g.nextComposition⟩ } := fun {id' d'} hd => by
    cases represents with
    | none => exact .inl (function_eq_ok.2 hd)
    | some f =>
        rcases function_modify (function_eq_ok.2 hd) with hd | ⟨d₀, hd₀, rfl, rfl⟩
        · exact .inl hd
        · exact .inr ⟨d₀, hd₀, rfl, rfl⟩
  have hextends : g.Extends { g with functions := g.withBody ⟨g.nextComposition⟩ represents } := by
    cases represents with
    | none => exact .of_functions_eq rfl (Nat.le_refl _)
    | some f => exact extends_modifyFunction f fun d port hport => by cases port <;> exact hport
  refine .of_extends (g := g) ⟨hextends.functions, Nat.le_refl _⟩ (fun id' d' hd' => ?_)
    (fun id' c hc => ?_) fun id' d' b hd' hb => ?_
  · rcases hfunctions (function_eq_ok.1 hd') with hd' | ⟨d₀, hd₀, -, rfl⟩
    · exact h.functions id' d' hd'
    · exact h.functions id' d₀ hd₀
  · rw [composition_eq_ok, Assoc.find?_insertSorted] at hc
    split at hc
    · rename_i heq
      subst heq
      obtain rfl := Option.some.inj hc
      refine ⟨rfl, Nat.lt_succ_self _, .inl ⟨hrepresents, ?_, ?_, ?_, ?_, ?_, ?_⟩⟩ <;>
        simp [Composition.empty]
    · obtain ⟨hid, hless, hfits⟩ := h.compositions id' c (composition_eq_ok.2 hc)
      exact ⟨hid, Nat.lt_succ_of_lt hless, .inl hfits⟩
  · simp only [composition_eq_ok, Assoc.find?_insertSorted]
    rcases hfunctions (function_eq_ok.1 hd') with hd' | ⟨d₀, hd₀, hrep, rfl⟩
    · obtain ⟨c, hc, hrep⟩ := h.bodies id' d' b hd' hb
      -- a body that was there before has another identity
      have hne : (⟨g.nextComposition⟩ : CompositionId) ≠ b := by
        rintro rfl
        exact absurd (h.compositions _ c hc).2.1 (Nat.lt_irrefl _)
      exact ⟨c, by rw [if_neg hne]; exact composition_eq_ok.1 hc, hrep⟩
    · obtain rfl := Option.some.inj hb
      exact ⟨_, if_pos rfl, hrep⟩

/-! ## Mappings that pass the check -/

/-- The mapping can be part of the composition: its priority is a call of it, its target can be
written, and both its ends exist. -/
structure Admits (g : Graph) (c : Composition) (m : Mapping) : Prop where
  priority : ∀ call, m.priority = some call → c.hasCall call = true
  writable : targetFault? m.target = none
  source : g.Offers c m.source
  target : g.Offers c m.target

theorem Admits.extends {c : Composition} {m : Mapping} (h : g.Admits c m) (hg : g.Extends g') :
    g'.Admits c m :=
  ⟨h.priority, h.writable, h.source.extends hg, h.target.extends hg⟩

theorem Admits.grows {c c' : Composition} {m : Mapping} (h : g.Admits c m) (hc : c.Grows c') :
    g.Admits c' m :=
  ⟨fun call hcall => hc.hasCall (h.priority call hcall), h.writable, h.source.grows hc,
    h.target.grows hc⟩

theorem checkPort_eq_ok_iff {id : CompositionId} {function : FunctionId} {port : Port} :
    g.checkPort id function port = .ok () ↔
      ∃ d, g.function function = .ok d ∧ hasPort d port = true := by
  unfold checkPort
  cases g.function function with
  | error fault => simp [bind, Except.bind]
  | ok d => cases hport : hasPort d port <;> simp [bind, Except.bind, hport]

/-- An endpoint passes the check where it exists. -/
theorem checkEndpoint_eq_ok_iff {id : CompositionId} {c : Composition} {e : Endpoint} :
    g.checkEndpoint id c e = .ok () ↔ g.Offers c e := by
  cases e with
  | call call port =>
      cases hdecl : c.call? call with
      | none => simp [checkEndpoint, Offers, hdecl]
      | some decl => simp [checkEndpoint, Offers, hdecl, checkPort_eq_ok_iff]
  | boundary port =>
      cases hrepresents : c.represents with
      | none => simp [checkEndpoint, Offers, hrepresents]
      | some function => simp [checkEndpoint, Offers, hrepresents, checkPort_eq_ok_iff]
  | constant _ | «variable» _ => simp [checkEndpoint, Offers]

/-- **A mapping passes the check where the composition admits it.** -/
theorem checkMapping_eq_ok_iff {id : CompositionId} {m : Mapping} :
    g.checkMapping id m = .ok () ↔ ∃ c, g.composition id = .ok c ∧ g.Admits c m := by
  have hends : ∀ c, (do g.checkEndpoint id c m.source; g.checkEndpoint id c m.target) = .ok () ↔
      g.Offers c m.source ∧ g.Offers c m.target := by
    intro c
    rw [← @checkEndpoint_eq_ok_iff g id c m.source, ← @checkEndpoint_eq_ok_iff g id c m.target]
    cases g.checkEndpoint id c m.source <;> simp [bind, Except.bind]
  have hparts : ∀ c, g.composition id = .ok c → (g.checkMapping id m = .ok () ↔
      (∀ call, m.priority = some call → c.hasCall call = true) ∧ targetFault? m.target = none ∧
        g.Offers c m.source ∧ g.Offers c m.target) := by
    intro c hc
    rw [← hends, checkMapping, hc]
    cases m.priority with
    | none => cases targetFault? m.target <;> simp [bind, Except.bind]
    | some call =>
        by_cases hcall : c.hasCall call = true
        · cases targetFault? m.target <;> simp [hcall, bind, Except.bind]
        · simp [hcall, bind, Except.bind]
  constructor
  · intro h
    obtain ⟨c, hc, -⟩ := bind_eq_ok h
    obtain ⟨hpriority, hwritable, hsource, htarget⟩ := (hparts c hc).1 h
    exact ⟨c, hc, hpriority, hwritable, hsource, htarget⟩
  · rintro ⟨c, hc, hadmits⟩
    exact (hparts c hc).2 ⟨hadmits.priority, hadmits.writable, hadmits.source, hadmits.target⟩

/-! ## Rules that a description keeps -/

end Graph

/-- What the rules for descriptions look at in a parameter. -/
def Param.mark (p : Param) : String × ParamKind := (p.name, p.kind)

theorem Param.map_mark_modify {f : Param → Param} (hf : ∀ p, (f p).mark = p.mark)
    (ps : List Param) (i : Nat) :
    (ps.modify i f).map Param.mark = ps.map Param.mark := by
  apply List.ext_getElem?
  intro j
  rw [List.getElem?_map, List.getElem?_map, List.getElem?_modify]
  by_cases hij : i = j
  · cases ps[j]? <;> simp [hij, hf]
  · simp [hij]

namespace Description

theorem repeated?_eq_of_marks {before before' ps ps' : List Param}
    (hbefore : before.map Param.mark = before'.map Param.mark)
    (h : ps.map Param.mark = ps'.map Param.mark) :
    repeated? before ps = repeated? before' ps' := by
  have hany : ∀ (test : String × ParamKind → Bool), before.any (fun q => test q.mark)
      = before'.any (fun q => test q.mark) := by
    intro test
    have hmap : ∀ (l : List Param), l.any (fun q => test q.mark) = (l.map Param.mark).any test := by
      intro l
      rw [List.any_map]
      rfl
    rw [hmap, hmap, hbefore]
  induction ps generalizing before before' ps' with
  | nil =>
      obtain rfl : ps' = [] := by simpa using h.symm
      rfl
  | cons p rest ih =>
      cases ps' with
      | nil => exact absurd h (by simp)
      | cons p' rest' =>
          obtain ⟨hmark, hrest⟩ := List.cons.inj h
          obtain ⟨hname, hkind⟩ := Prod.mk.inj hmark
          have hnames := hany fun q => q.1 == p.name
          have hkinds := hany fun q => q.2 == p.kind
          have hlater : repeated? (p :: before) rest = repeated? (p' :: before') rest' :=
            ih (by simp [hbefore, hmark]) hrest fun test => by simp [hany test, hmark]
          simp only [Param.mark] at hnames hkinds
          rw [repeated?, repeated?, hnames, hkinds, hname, hkind, hlater]

/-- A change that leaves the names and kinds of parameters as they are, and attaches a self-output
only beside a receiver, breaks no rule. -/
theorem fault?_eq_none_of_marks {d d' : Description}
    (hmarks : d'.params.map Param.mark = d.params.map Param.mark)
    (hself : (d.selfOutput.isSome && d.receiver.isNone) = false →
      (d'.selfOutput.isSome && d'.receiver.isNone) = false) (h : d.fault? = none) :
    d'.fault? = none := by
  have hcount : ∀ kind, (d'.params.filter fun p => p.kind == kind).length
      = (d.params.filter fun p => p.kind == kind).length := by
    intro kind
    have hmap : ∀ (l : List Param), (l.filter fun p => p.kind == kind).length
        = ((l.map Param.mark).filter fun m => m.2 == kind).length := by
      intro l
      rw [List.filter_map, List.length_map]
      rfl
    rw [hmap, hmap, hmarks]
  unfold fault? at h ⊢
  rw [repeated?_eq_of_marks rfl hmarks, hcount, hcount]
  split at h
  · exact absurd h (by simp)
  · split at h
    · exact absurd h (by simp)
    · split at h
      · exact absurd h (by simp)
      · split at h
        · exact absurd h (by simp)
        · rename_i hpositional hkeyword hbeside
          rw [if_neg hpositional, if_neg hkeyword, if_neg]
          rw [hself (Bool.eq_false_iff.2 hbeside)]
          simp

end Description

namespace Graph

variable {g g' : Graph}

/-! ## The changes that operations make -/

/-- The changes that operations make to a graph, one at a time, with what is known of the graph
before. -/
inductive Change (g : Graph) : Graph → Prop where
  /-- A new function, without a body. -/
  | addFunction {d : Description} (id : d.id = ⟨g.nextFunction⟩) (body : d.body = none)
      (valid : d.fault? = none) :
      Change g { g with
        functions := Assoc.insertSorted FunctionId.before g.functions ⟨g.nextFunction⟩ d
        nextFunction := g.nextFunction + 1 }
  /-- Another description of a function, as valid as the one before. -/
  | modifyFunction {id : FunctionId} {d : Description} {f : Description → Description}
      (function : g.function id = .ok d) (kept : FunctionKept f)
      (valid : d.fault? = none → (f d).fault? = none) :
      Change g { g with functions := Assoc.modify g.functions id f }
  /-- A new composition, which becomes the body of the function that it represents. -/
  | addComposition (name : String) (represents : Option FunctionId)
      (function : ∀ f, represents = some f → ∃ d, g.function f = .ok d) :
      Change g { g with
        functions := g.withBody ⟨g.nextComposition⟩ represents
        compositions := Assoc.insertSorted CompositionId.before g.compositions ⟨g.nextComposition⟩
          (Composition.empty ⟨g.nextComposition⟩ name represents)
        nextComposition := g.nextComposition + 1 }
  /-- A new call in a composition. -/
  | addCall {id : CompositionId} {c : Composition} {function : FunctionId} {d : Description}
      (composition : g.composition id = .ok c) (called : g.function function = .ok d) :
      Change g { g with
        compositions := Assoc.modify g.compositions id fun c =>
          { c with calls := c.calls ++ [⟨⟨g.nextCall⟩, function, .stop, none⟩] }
        nextCall := g.nextCall + 1 }
  /-- Another label or successor of a call. -/
  | modifyCall {id : CompositionId} {c : Composition} {call : CallId} {f : CallDecl → CallDecl}
      (composition : g.composition id = .ok c) (kept : CallDecl.Kept f)
      (successors : ∀ decl ∈ c.calls, ∀ target ∈ (f decl).successor.targets,
        target ∈ decl.successor.targets ∨ c.hasCall target = true) :
      Change g
        { g with compositions := Assoc.modify g.compositions id fun c => c.modifyCall call f }
  /-- A call that becomes a start, unless it is one. -/
  | addStart {id : CompositionId} {c : Composition} {call : CallId}
      (composition : g.composition id = .ok c) (hasCall : c.hasCall call = true) :
      Change g { g with compositions := Assoc.modify g.compositions id fun c =>
        if c.starts.contains call then c else { c with starts := c.starts ++ [call] } }
  /-- A new mapping that the composition admits. -/
  | addMapping {id : CompositionId} {c : Composition} {m : Mapping}
      (composition : g.composition id = .ok c) (admits : g.Admits c m) :
      Change g { g with compositions := Assoc.modify g.compositions id fun c =>
        { c with mappings := c.mappings ++ [m] } }

/-- Every change keeps graphs well formed. -/
theorem Change.wellFormed (h : g.Change g') (hg : g.WellFormed) : g'.WellFormed := by
  cases h with
  | addFunction hid hbody _ => exact hg.insertFunction hid hbody
  | modifyFunction _ hkept _ => exact hg.modifyFunction _ hkept
  | addComposition name represents hfunction => exact hg.addComposition name hfunction
  | @addCall id c function d hc hd =>
      exact hg.modifyComposition (Nat.le_succ _) hc rfl rfl
        ((hg.compositions id c hc).2.2.addCall hd rfl)
  | @modifyCall id c call f hc hkept hsuccessors =>
      have hfits := (hg.compositions id c hc).2.2
      refine hg.modifyComposition (Nat.le_refl _) hc rfl rfl (hfits.modifyCall hkept ?_)
      intro decl hdecl target htarget
      rcases hsuccessors decl hdecl target htarget with htarget | hcall
      · exact hfits.successors decl hdecl target htarget
      · exact hcall
  | @addStart id c call hc hcall =>
      refine hg.modifyComposition (Nat.le_refl _) hc ?_ ?_
        ((hg.compositions id c hc).2.2.setStart hcall) <;>
        split <;> rfl
  | @addMapping id c m hc hadmits =>
      exact hg.modifyComposition (Nat.le_refl _) hc rfl rfl
        ((hg.compositions id c hc).2.2.addMapping hadmits.target)

/-- One change after the other. -/
def Changes : Graph → Graph → Prop := Relation.ReflTransGen Change

theorem Changes.wellFormed (h : g.Changes g') (hg : g.WellFormed) : g'.WellFormed := by
  induction h with
  | refl => exact hg
  | tail _ hchange ih => exact hchange.wellFormed ih

/-! ## Operations -/

namespace Edit

variable {α β : Type}

/-- Run in the graph, the operation makes changes, and if it succeeds the condition holds of its
result. -/
def Makes (x : Edit α) (g : Graph) (post : α → Graph → Prop) : Prop :=
  Changes g (x.run g).2 ∧ ∀ a g', x.run g = (.ok a, g') → post a g'

variable {post : α → Graph → Prop}

theorem run_bind (x : Edit α) (f : α → Edit β) (g : Graph) :
    (x >>= f).run g =
      match x.run g with
      | (.ok a, g') => (f a).run g'
      | (.error fault, g') => (.error fault, g') := by
  simp only [run, bind, ExceptT.bind, ExceptT.mk, StateT.bind]
  rcases x g with ⟨_ | _, _⟩ <;> rfl

theorem run_throw (fault : GraphFault) (g : Graph) :
    (throw fault : Edit α).run g = (.error fault, g) := rfl

theorem run_ofCheck (f : Graph → Except GraphFault α) (g : Graph) : (ofCheck f).run g = (f g, g) :=
  rfl

theorem run_modifyFunction (id : FunctionId) (f : Description → Description) (g : Graph) :
    (modifyFunction id f).run g =
      match g.function id with
      | .ok _ => (.ok (), { g with functions := Assoc.modify g.functions id f })
      | .error fault => (.error fault, g) := by
  rw [modifyFunction, run_bind, run_ofCheck]
  cases g.function id <;> rfl

theorem run_modifyComposition (id : CompositionId) (f : Composition → Composition) (g : Graph) :
    (modifyComposition id f).run g =
      match g.composition id with
      | .ok _ => (.ok (), { g with compositions := Assoc.modify g.compositions id f })
      | .error fault => (.error fault, g) := by
  rw [modifyComposition, run_bind, run_ofCheck]
  cases g.composition id <;> rfl

theorem makes_pure {a : α} (h : post a g) : Makes (pure a) g post :=
  ⟨.refl, fun a' g' heq => by
    obtain ⟨ha, rfl⟩ := Prod.mk.inj heq
    obtain rfl := Except.ok.inj ha
    exact h⟩

theorem makes_throw {fault : GraphFault} : Makes (throw fault : Edit α) g post :=
  ⟨.refl, fun a' g' heq => absurd heq (by simp [run_throw])⟩

theorem makes_bind {x : Edit α} {f : α → Edit β} {post' : β → Graph → Prop} (hx : Makes x g post)
    (hf : ∀ a g', post a g' → Makes (f a) g' post') : Makes (x >>= f) g post' := by
  obtain ⟨hchanges, hpost⟩ := hx
  unfold Makes
  rw [run_bind]
  split
  · rename_i a g' h
    rw [h] at hchanges
    obtain ⟨hlater, hpost'⟩ := hf a g' (hpost a g' h)
    exact ⟨hchanges.trans hlater, hpost'⟩
  · rename_i fault g' h
    rw [h] at hchanges
    exact ⟨hchanges, fun a g'' heq => absurd (congrArg Prod.fst heq) (by simp)⟩

theorem makes_get_bind {f : Graph → Edit β} {post : β → Graph → Prop} (h : Makes (f g) g post) :
    Makes (get >>= f) g post := h

/-- A check changes nothing. -/
theorem makes_check {f : Graph → Except GraphFault α} :
    Makes (ofCheck f) g fun a g' => g' = g ∧ f g = .ok a :=
  ⟨.refl, fun a g' heq => by
    obtain ⟨ha, rfl⟩ := Prod.mk.inj heq
    exact ⟨rfl, ha⟩⟩

/-- An operation that fails changes nothing, and one that succeeds makes one change, of which it is
known when it is made. -/
theorem makes_of_run {x : Edit α} (h : (∃ fault, x.run g = (.error fault, g)) ∨
    ∃ a g', x.run g = (.ok a, g') ∧ Change g g') : Makes x g fun _ _ => True := by
  refine ⟨?_, fun _ _ _ => trivial⟩
  rcases h with ⟨fault, h⟩ | ⟨a, g', h, hchange⟩
  · rw [h]
    exact .refl
  · rw [h]
    exact .single hchange

theorem makes_modifyFunction (id : FunctionId) {f : Description → Description} (hf : FunctionKept f)
    (hvalid : ∀ d, g.function id = .ok d → d.fault? = none → (f d).fault? = none) :
    Makes (modifyFunction id f) g fun _ _ => True := by
  refine makes_of_run ?_
  rw [run_modifyFunction]
  cases hd : g.function id with
  | error fault => exact .inl ⟨fault, rfl⟩
  | ok d => exact .inr ⟨(), _, rfl, .modifyFunction hd hf (hvalid d hd)⟩

theorem makes_modifyComposition {id : CompositionId} {f : Composition → Composition}
    (hf : ∀ c, g.composition id = .ok c →
      Change g { g with compositions := Assoc.modify g.compositions id f }) :
    Makes (modifyComposition id f) g fun _ _ => True := by
  refine makes_of_run ?_
  rw [run_modifyComposition]
  cases hc : g.composition id with
  | error fault => exact .inl ⟨fault, rfl⟩
  | ok c => exact .inr ⟨(), _, rfl, hf c hc⟩

/-- Requiring a call changes nothing. -/
theorem makes_requireCall (id : CompositionId) (call : CallId) :
    Makes (requireCall id call) g fun _ g' => g' = g ∧
      ∃ c, g.composition id = .ok c ∧ c.hasCall call = true := by
  refine makes_bind makes_check fun c g' h => ?_
  obtain ⟨rfl, hc⟩ := h
  split
  · rename_i hcall
    exact makes_pure ⟨rfl, c, hc, hcall⟩
  · exact makes_throw

theorem makes_addFunction (name : String) (params : List Param) :
    Makes (addFunction name params) g fun _ _ => True := by
  refine makes_get_bind (makes_bind makes_check fun _ g' h => ?_)
  obtain ⟨rfl, hcheck⟩ := h
  refine makes_of_run (.inr ⟨_, _, rfl, .addFunction rfl rfl ?_⟩)
  unfold checkDescription at hcheck
  split at hcheck
  · exact absurd hcheck (by simp)
  · assumption

theorem makes_addNative (name : String) (params : List Param) (path : String) :
    Makes (addNative name params path) g fun _ _ => True := by
  refine makes_bind (makes_addFunction name params) fun id g' _ => ?_
  refine makes_bind (makes_modifyFunction id ⟨fun _ => rfl, fun _ => rfl, fun d port hport => ?_⟩
    fun _ _ hd => hd) fun _ g'' _ => makes_pure trivial
  cases port <;> exact hport

theorem makes_setDefault (id : FunctionId) (param : String) (value : Option Constant) :
    Makes (setDefault id param value) g fun _ _ => True := by
  refine makes_bind makes_check fun d g' h => ?_
  obtain ⟨rfl, -⟩ := h
  split
  · exact makes_throw
  · refine makes_modifyFunction id ⟨fun _ => rfl, fun _ => rfl, fun d port hport => ?_⟩
      fun d _ hd => ?_
    · cases port with
      | param i => simpa [hasPort] using hport
      | receiver | output | selfOutput => exact hport
    · refine Description.fault?_eq_none_of_marks (d := d) ?_ (fun h => h) hd
      refine Param.map_mark_modify ?_ d.params _
      intro p
      rfl

/-- The composition is there only after the function has it as its body, so that the two changes are
taken together. -/
theorem makes_addComposition (name : String) (represents : Option FunctionId) :
    Makes (addComposition name represents) g fun _ _ => True := by
  refine makes_get_bind (makes_of_run ?_)
  cases represents with
  | none => exact .inr ⟨_, _, rfl, .addComposition name none fun f hf => absurd hf (by simp)⟩
  | some function =>
      simp only []
      rw [run_bind, run_modifyFunction]
      cases hd : g.function function with
      | error fault => exact .inl ⟨fault, rfl⟩
      | ok d =>
          refine .inr ⟨_, _, rfl, .addComposition name (some function) fun f hf => ?_⟩
          obtain rfl := Option.some.inj hf
          exact ⟨d, hd⟩

/-- The graph counts the call only after it was added, so that the two changes are taken
together. -/
theorem makes_addCall (id : CompositionId) (function : FunctionId) :
    Makes (addCall id function) g fun _ _ => True := by
  refine makes_bind makes_check fun d g' h => makes_get_bind (makes_of_run ?_)
  obtain ⟨rfl, hd⟩ := h
  rw [run_bind, run_modifyComposition]
  cases hc : g'.composition id with
  | error fault => exact .inl ⟨fault, rfl⟩
  | ok c => exact .inr ⟨_, _, rfl, .addCall hc hd⟩

theorem makes_setLabel (id : CompositionId) (call : CallId) (label : String) :
    Makes (setLabel id call label) g fun _ _ => True := by
  refine makes_bind (makes_requireCall id call) fun _ g' h => ?_
  obtain ⟨rfl, -⟩ := h
  refine makes_modifyComposition fun c hc => .modifyCall hc (fun _ => ⟨rfl, rfl⟩) ?_
  exact fun decl _ target htarget => .inl htarget

theorem makes_setStart (id : CompositionId) (call : CallId) :
    Makes (setStart id call) g fun _ _ => True := by
  refine makes_bind (makes_requireCall id call) fun _ g' h => ?_
  obtain ⟨rfl, c, hc, hcall⟩ := h
  exact makes_modifyComposition fun _ _ => .addStart hc hcall

theorem makes_requireCalls (id : CompositionId) {c : Composition} (hc : g.composition id = .ok c)
    (calls : List CallId) :
    Makes (forIn calls PUnit.unit fun target _ => do
        requireCall id target
        pure (ForInStep.yield PUnit.unit)) g
      fun _ g' => g' = g ∧ ∀ target ∈ calls, c.hasCall target = true := by
  induction calls with
  | nil => exact makes_pure ⟨rfl, by simp⟩
  | cons call rest ih =>
      have hfirst : Makes (do requireCall id call; pure (ForInStep.yield PUnit.unit)) g
          fun r g' => g' = g ∧ r = ForInStep.yield PUnit.unit ∧ c.hasCall call = true := by
        refine makes_bind (makes_requireCall id call) fun _ g' h => ?_
        obtain ⟨rfl, c', hc', hcall⟩ := h
        obtain rfl : c = c' := Except.ok.inj (hc.symm.trans hc')
        exact makes_pure ⟨rfl, rfl, hcall⟩
      rw [List.forIn_cons]
      refine makes_bind hfirst fun r g' h => ?_
      obtain ⟨rfl, rfl, hcall⟩ := h
      refine ⟨ih.1, fun a g'' heq => ?_⟩
      obtain ⟨rfl, hrest⟩ := ih.2 a g'' heq
      exact ⟨rfl,
        fun target htarget => (List.mem_cons.1 htarget).elim (fun h => h ▸ hcall) (hrest target)⟩

theorem makes_setSuccessor (id : CompositionId) (call : CallId) (successor : Successor) :
    Makes (setSuccessor id call successor) g fun _ _ => True := by
  refine makes_bind makes_check fun c g' h => ?_
  obtain ⟨rfl, hc⟩ := h
  refine makes_bind (makes_requireCalls id hc successor.targets) fun _ g' h => ?_
  obtain ⟨rfl, htargets⟩ := h
  refine makes_bind (makes_requireCall id call) fun _ g' h => ?_
  obtain ⟨rfl, -⟩ := h
  refine makes_modifyComposition fun _ _ => .modifyCall hc (fun _ => ⟨rfl, rfl⟩) ?_
  exact fun decl _ target htarget => .inr (htargets target htarget)

theorem makes_chain (id : CompositionId) (calls : List CallId) :
    Makes (chain id calls) g fun _ _ => True := by
  induction calls generalizing g with
  | nil => exact makes_pure trivial
  | cons call rest ih =>
      cases rest with
      | nil => exact makes_pure trivial
      | cons next rest =>
          exact makes_bind (makes_setSuccessor id call (.next next)) fun _ g' _ => ih

theorem makes_sequence (id : CompositionId) (calls : List CallId) :
    Makes (sequence id calls) g fun _ _ => True := by
  refine makes_bind (makes_chain id calls) fun _ g' _ => ?_
  cases calls with
  | nil => exact makes_pure trivial
  | cons first _ => exact makes_setStart id first

theorem makes_addMapping (id : CompositionId) (m : Mapping) :
    Makes (addMapping id m) g fun _ _ => True := by
  refine makes_bind makes_check fun _ g' h => ?_
  obtain ⟨rfl, hcheck⟩ := h
  obtain ⟨c, hc, hadmits⟩ := checkMapping_eq_ok_iff.1 hcheck
  exact makes_modifyComposition fun _ _ => .addMapping hc hadmits

end Edit

/-- An operation of a builder, or a change of a function that attaches or replaces its receiver, its
self-output or its output. -/
inductive Operation where
  | addFunction (name : String) (params : List Param)
  | addNative (name : String) (params : List Param) (path : String)
  | setDefault (function : FunctionId) (param : String) (value : Option Constant)
  | addComposition (name : String) (represents : Option FunctionId)
  | addCall (composition : CompositionId) (function : FunctionId)
  | setLabel (composition : CompositionId) (call : CallId) (label : String)
  | setStart (composition : CompositionId) (call : CallId)
  | setSuccessor (composition : CompositionId) (call : CallId) (successor : Successor)
  | sequence (composition : CompositionId) (calls : List CallId)
  | addMapping (composition : CompositionId) (mapping : Mapping)
  | setReceiver (function : FunctionId) (receiver : Param)
  | setSelfOutput (function : FunctionId) (output : Output)
  | setOutput (function : FunctionId) (output : Output)

namespace Operation

/-- The graph that the operation leaves, whether or not it succeeds. -/
def apply (g : Graph) : Operation → Graph
  | .addFunction name params => ((Edit.addFunction name params).run g).2
  | .addNative name params path => ((Edit.addNative name params path).run g).2
  | .setDefault function param value => ((Edit.setDefault function param value).run g).2
  | .addComposition name represents => ((Edit.addComposition name represents).run g).2
  | .addCall composition function => ((Edit.addCall composition function).run g).2
  | .setLabel composition call label => ((Edit.setLabel composition call label).run g).2
  | .setStart composition call => ((Edit.setStart composition call).run g).2
  | .setSuccessor composition call successor =>
      ((Edit.setSuccessor composition call successor).run g).2
  | .sequence composition calls => ((Edit.sequence composition calls).run g).2
  | .addMapping composition mapping => ((Edit.addMapping composition mapping).run g).2
  | .setReceiver function receiver =>
      ((Edit.modifyFunction function fun d => { d with receiver := some receiver }).run g).2
  | .setSelfOutput function output =>
      ((Edit.modifyFunction function fun d => { d with selfOutput := some output }).run g).2
  | .setOutput function output =>
      ((Edit.modifyFunction function fun d => { d with output }).run g).2

/-- Is the operation one that keeps descriptions valid?  A self-output is attached only beside a
receiver. -/
def isProper (g : Graph) : Operation → Bool
  | .setSelfOutput function _ => (g.function function).toOption.all fun d => d.receiver.isSome
  | _ => true

theorem functionKept_setSelfOutput (output : Output) :
    FunctionKept fun d => { d with selfOutput := some output } :=
  ⟨fun _ => rfl, fun _ => rfl, fun d port hport => by cases port <;> first | exact hport | rfl⟩

/-- **A proper operation makes changes**, whether or not it succeeds. -/
theorem changes_apply {g : Graph} (op : Operation) (hop : op.isProper g = true) :
    Changes g (op.apply g) := by
  cases op with
  | addFunction name params => exact (Edit.makes_addFunction name params).1
  | addNative name params path => exact (Edit.makes_addNative name params path).1
  | setDefault function param value => exact (Edit.makes_setDefault function param value).1
  | addComposition name represents => exact (Edit.makes_addComposition name represents).1
  | addCall composition function => exact (Edit.makes_addCall composition function).1
  | setLabel composition call label => exact (Edit.makes_setLabel composition call label).1
  | setStart composition call => exact (Edit.makes_setStart composition call).1
  | setSuccessor composition call successor =>
      exact (Edit.makes_setSuccessor composition call successor).1
  | sequence composition calls => exact (Edit.makes_sequence composition calls).1
  | addMapping composition mapping => exact (Edit.makes_addMapping composition mapping).1
  | setReceiver function receiver =>
      have hkept : FunctionKept fun d => { d with receiver := some receiver } :=
        ⟨fun _ => rfl, fun _ => rfl,
          fun d port hport => by cases port <;> first | exact hport | rfl⟩
      refine (Edit.makes_modifyFunction function hkept fun d _ hd => ?_).1
      exact Description.fault?_eq_none_of_marks (d := d) rfl (fun _ => by simp) hd
  | setSelfOutput function output =>
      refine (Edit.makes_modifyFunction function (functionKept_setSelfOutput output)
        fun d hfunction hd => ?_).1
      refine Description.fault?_eq_none_of_marks (d := d) rfl (fun _ => ?_) hd
      have hreceiver : d.receiver.isSome = true := by
        simpa [isProper, hfunction, Except.toOption] using hop
      simp [hreceiver]
  | setOutput function output =>
      have hkept : FunctionKept fun d => { d with output } :=
        ⟨fun _ => rfl, fun _ => rfl, fun d port hport => by cases port <;> exact hport⟩
      refine (Edit.makes_modifyFunction function hkept fun d _ hd => ?_).1
      exact Description.fault?_eq_none_of_marks (d := d) rfl (fun h => h) hd

/-- **Every operation keeps graphs well formed.** -/
theorem wellFormed_apply {g : Graph} (hg : g.WellFormed) (op : Operation) :
    (op.apply g).WellFormed := by
  by_cases hop : op.isProper g = true
  · exact (op.changes_apply hop).wellFormed hg
  · cases op with
    | setSelfOutput function output =>
        simp only [apply, Edit.run_modifyFunction]
        split
        · exact hg.modifyFunction function (functionKept_setSelfOutput output)
        · exact hg
    | _ => exact absurd rfl hop

end Operation

/-- The graph comes from the empty one by operations, each of which may have failed, and fewer
definitions were made than there are words for their identities. -/
def Buildable (g : Graph) : Prop :=
  g.Counted ∧ ∃ name, ∃ ops : List Operation, g = ops.foldl Operation.apply (.empty name)

/-- What holds of empty graphs and is kept by every operation holds of graphs that were built. -/
theorem Buildable.induction {P : Graph → Prop} {g : Graph} (h : g.Buildable)
    (hempty : ∀ name, P (.empty name))
    (happly : ∀ {g : Graph} (op : Operation), P g → P (op.apply g)) : P g := by
  obtain ⟨-, name, ops, rfl⟩ := h
  have hfold : ∀ (ops : List Operation) {g : Graph}, P g → P (ops.foldl Operation.apply g) := by
    intro ops
    induction ops with
    | nil => exact fun hg => hg
    | cons op rest ih => exact fun hg => ih (happly op hg)
  exact hfold ops (hempty name)

/-- **Graphs that were built are well formed.** -/
theorem Buildable.wellFormed {g : Graph} (h : g.Buildable) : g.WellFormed :=
  h.induction wellFormed_empty fun op hg => op.wellFormed_apply hg

end Graph

end CallFlow
