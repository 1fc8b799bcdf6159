import CallFlow.Proofs.Structure

/-!
# What a check of a graph leaves open

The check of a graph looks at descriptions and mappings, and at nothing else
(`Graph.check_eq_ok_iff`).  A mapping that passes has ends and a priority that are there, in the
composition that is found under the identity inside the one that the mapping is part of.

Whatever other references there are, the check does not follow them: the functions of calls,
starts, successors, bodies and the functions that compositions represent, and the identities
inside of definitions.  One that leads nowhere, or not back, is a loose end (`Graph.LooseEnd`).  A
graph that passes its check and has no loose end is resolved (`Graph.resolved_of_check`), so that
an execution can fail for want of structure only where there is one
(`Engine.structured_of_check`).
-/

namespace CallFlow

namespace Graph

variable {g : Graph}

/-! ## What the check says -/

/-- All that the check looks at: no description breaks a rule, and every mapping can be part of the
composition that is found under the identity inside its own. -/
structure Checks (g : Graph) : Prop where
  descriptions : ∀ d ∈ Assoc.values g.functions, d.fault? = none
  mappings : ∀ c ∈ Assoc.values g.compositions, ∀ m ∈ c.mappings,
    ∃ c', g.composition c.id = .ok c' ∧ g.Admits c' m

theorem checkDescription_eq_ok_iff {d : Description} :
    checkDescription d = .ok () ↔ d.fault? = none := by
  unfold checkDescription
  cases d.fault? <;> simp

/-- **The check looks at descriptions and mappings only.** -/
theorem check_eq_ok_iff : g.check = .ok () ↔ g.Checks := by
  constructor
  · intro h
    obtain ⟨_, hfunctions, hcompositions⟩ := bind_eq_ok h
    constructor
    · exact fun d hd => checkDescription_eq_ok_iff.1 (of_forM_eq_ok hfunctions d hd)
    · exact fun c hc m hm =>
        checkMapping_eq_ok_iff.1 (of_forM_eq_ok (of_forM_eq_ok hcompositions c hc) m hm)
  · intro h
    have hfunctions : (Assoc.values g.functions).forM checkDescription = .ok () :=
      forM_eq_ok fun d hd => checkDescription_eq_ok_iff.2 (h.descriptions d hd)
    rw [check, hfunctions]
    exact forM_eq_ok fun c hc =>
      forM_eq_ok fun m hm => checkMapping_eq_ok_iff.2 (h.mappings c hc m hm)

/-! ## Loose ends -/

/-- A reference that the check does not follow leads nowhere, or not back. -/
inductive LooseEnd (g : Graph) : Prop where
  /-- A function says another identity than the one under which it stands. -/
  | functionKey {id d} (function : g.function id = .ok d) (differs : d.id ≠ id)
  /-- A composition says another identity than the one under which it stands. -/
  | compositionKey {id c} (composition : g.composition id = .ok c) (differs : c.id ≠ id)
  /-- Two calls of a composition have one identity. -/
  | callTwice {id c} (composition : g.composition id = .ok c) (twice : ¬ (c.calls.map (·.id)).Nodup)
  /-- A call is one of a function that is not there. -/
  | callFunction {id c decl fault} (composition : g.composition id = .ok c) (call : decl ∈ c.calls)
      (missing : g.function decl.function = .error fault)
  /-- A composition starts with a call that it does not have. -/
  | start {id c call} (composition : g.composition id = .ok c) (starts : call ∈ c.starts)
      (missing : c.hasCall call = false)
  /-- Control goes to a call that the composition does not have. -/
  | successor {id c decl target} (composition : g.composition id = .ok c) (call : decl ∈ c.calls)
      (leads : target ∈ decl.successor.targets) (missing : c.hasCall target = false)
  /-- A composition represents a function that is not there. -/
  | represents {id c f fault} (composition : g.composition id = .ok c)
      (stands : c.represents = some f)
      (missing : g.function f = .error fault)
  /-- The body of a function is not there, or does not represent the function. -/
  | body {id d b} (function : g.function id = .ok d) (has : d.body = some b)
      (astray : ∀ c, g.composition b = .ok c → c.represents ≠ some id)

theorem exists_function_of_ne_error {id : FunctionId} (h : ∀ fault, g.function id ≠ .error fault) :
    ∃ d, g.function id = .ok d := by
  cases hd : g.function id with
  | error fault => exact absurd hd (h fault)
  | ok d => exact ⟨d, rfl⟩

/-- **What the check leaves open are the loose ends**: a graph that passes and has none is
resolved. -/
theorem resolved_of_check (hcheck : g.check = .ok ()) (h : ¬ g.LooseEnd) : g.Resolved := by
  have hkey : ∀ id c, g.composition id = .ok c → c.id = id :=
    fun id c hc => by_contra fun hne => h (.compositionKey hc hne)
  constructor
  case functions => exact fun id d hd => by_contra fun hne => h (.functionKey hd hne)
  case compositions =>
    intro id c hc
    refine ⟨hkey id c hc, ?_⟩
    constructor
    case represents =>
      exact fun f hf => exists_function_of_ne_error fun fault hd => h (.represents hc hf hd)
    case nodup => exact by_contra fun htwice => h (.callTwice hc htwice)
    case functions =>
      exact fun decl hdecl =>
        exists_function_of_ne_error fun fault hd => h (.callFunction hc hdecl hd)
    case starts =>
      intro call hcall
      exact by_contra fun hmissing => h (.start hc hcall (by simpa using hmissing))
    case successors =>
      intro decl hdecl target htarget
      exact by_contra fun hmissing => h (.successor hc hdecl htarget (by simpa using hmissing))
    case mappings =>
      intro m hm
      have hmem : c ∈ Assoc.values g.compositions :=
        List.mem_map_of_mem (f := (·.2)) (Assoc.mem_of_find?_eq_some (composition_eq_ok.1 hc))
      obtain ⟨c', hc', hadmits⟩ := (check_eq_ok_iff.1 hcheck).mappings c hmem m hm
      rw [hkey id c hc] at hc'
      obtain rfl : c = c' := Except.ok.inj (hc.symm.trans hc')
      exact hadmits.target
  case bodies =>
    intro id d b hd hb
    refine by_contra fun hnone => h (.body hd hb fun c hc hrepresents => hnone ⟨c, hc, hrepresents⟩)

end Graph

namespace Engine

variable {e : Engine}

/-- **What a passed check is worth**: descriptions and mappings are in order, and no more than that.
An execution in a graph that passes can fail for want of structure only where the graph has a loose
end; if it has none, every stage of an execution has what it needs. -/
theorem structured_of_check {target : RunTarget} (htarget : target.Exists e.context.graph)
    (inputs : List (String × Value)) :
    (e.context.graph.check = .ok () ↔ e.context.graph.Checks) ∧
    (e.context.graph.check = .ok () →
      (∀ fuel fault e', e.executeWithin fuel target inputs = some (.error fault, e') →
        fault.IsStructural →
        e.context.graph.LooseEnd) ∧
      (¬ e.context.graph.LooseEnd →
        ∀ stage, e.Passes target inputs stage → stage.Furnished e.context)) := by
  refine ⟨Graph.check_eq_ok_iff,
    fun hcheck => ⟨fun fuel fault e' h hstructural => ?_, fun hnone stage hpasses => ?_⟩⟩
  · by_contra hnone
    have hresolved := Graph.resolved_of_check hcheck hnone
    exact not_isStructural_executeWithin hresolved htarget h hstructural
  · exact Stage.furnished_of_passes (Graph.resolved_of_check hcheck hnone) hpasses

end Engine

namespace Sample

/-- A composition whose call is one of a function that is not there. -/
def unfinished : Graph :=
  .ofParts "unfinished" [] [{ Composition.empty ⟨0⟩ "main" none with
    starts := [⟨0⟩], calls := [⟨⟨0⟩, ⟨7⟩, .stop, none⟩] }]

end Sample

/-- The graph passes its check, and its only composition cannot be executed. -/
theorem Engine.structured_of_check_sample :
    Sample.unfinished.check = .ok () ∧ (RunTarget.composition ⟨0⟩).Exists Sample.unfinished ∧
    (∃ e', (Engine.new Sample.unfinished ⟨fun _ => none, fun _ _ => none⟩ {}).executeWithin 2
      (.composition ⟨0⟩) []
      = some (.error (.graph (.functionNotFound ⟨7⟩)), e')) ∧
    Sample.unfinished.LooseEnd := by
  have hcheck : Sample.unfinished.check = .ok () := rfl
  have htarget : (RunTarget.composition ⟨0⟩).Exists Sample.unfinished := ⟨_, rfl⟩
  obtain ⟨-, hpassed⟩ :=
    structured_of_check (e := .new Sample.unfinished ⟨fun _ => none, fun _ _ => none⟩ {}) htarget []
  obtain ⟨hloose, -⟩ := hpassed hcheck
  exact ⟨hcheck, htarget, ⟨_, rfl⟩, hloose 2 _ _ rfl trivial⟩

/-- A function can have a body that is not there, too. -/
example : (Graph.ofParts "f" [{ Description.plain ⟨0⟩ "f" [] with body := some ⟨3⟩ }] []).check =
    .ok () := rfl

end CallFlow
