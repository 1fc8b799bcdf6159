import CallFlow.Proofs.Assoc
import CallFlow.Proofs.Builder
import CallFlow.Proofs.Effects

/-!
# Operations that fail

An operation of a builder that fails leaves the graph as it found it, with one exception
(`Graph.Operation.left_of_fails`).  Each operation looks at the graph first (`Looks`), and what it
does after its first change cannot fail any more, so that it is atomic (`Atomic`).

The exception is a sequence.  It links its calls pair by pair, each pair on its own, and so a
sequence that meets a call that is not there leaves the calls before that one linked
(`Graph.Edit.run_sequence_of_missing`).
-/

namespace CallFlow

namespace Graph

namespace Edit

variable {α : Type} {x : Edit α}

/-! ## Operations that look before they change -/

theorem looks_check (f : Graph → Except GraphFault α) : Looks (ofCheck f) := fun _ => rfl

theorem looks_requireCall (id : CompositionId) (call : CallId) : Looks (requireCall id call) :=
  (looks_check _).bind fun c => by
    split
    · exact looks_pure _
    · exact looks_throw _

theorem looks_requireCalls (id : CompositionId) (calls : List CallId) :
    Looks (forIn calls PUnit.unit fun target _ => do
      requireCall id target
      pure (ForInStep.yield PUnit.unit)) := by
  induction calls with
  | nil => exact looks_pure _
  | cons call rest ih =>
      rw [List.forIn_cons]
      refine ((looks_requireCall id call).bind fun _ => looks_pure _).bind fun r => ?_
      cases r with
      | done b => exact looks_pure _
      | yield b => exact ih

theorem atomic_modifyFunction (id : FunctionId) (f : Description → Description) :
    Atomic (modifyFunction id f) :=
  (looks_check _).bind_atomic fun _ => atomic_of_succeeds fun _ => ⟨_, _, rfl⟩

theorem atomic_modifyComposition (id : CompositionId) (f : Composition → Composition) :
    Atomic (modifyComposition id f) :=
  (looks_check _).bind_atomic fun _ => atomic_of_succeeds fun _ => ⟨_, _, rfl⟩

/-! ## The operations of a builder -/

theorem atomic_addFunction (name : String) (params : List Param) :
    Atomic (addFunction name params) :=
  looks_get.bind_atomic fun _ =>
    (looks_check _).bind_atomic fun _ => atomic_of_succeeds fun _ => ⟨_, _, rfl⟩

/-- A function is there when it was added. -/
theorem function_of_addFunction {name : String} {params : List Param} {g g' : Graph}
    {id : FunctionId}
    (h : (addFunction name params).run g = (.ok id, g')) : ∃ d, g'.function id = .ok d := by
  change (ofCheck (fun _ => checkDescription (.plain ⟨g.nextFunction⟩ name params)) >>=
    fun _ => _).run g = _ at h
  rw [run_bind, run_ofCheck] at h
  split at h
  · rename_i g'' hcheck
    obtain ⟨hid, rfl⟩ := Prod.mk.inj h
    obtain rfl := Except.ok.inj hid
    refine ⟨.plain ⟨g.nextFunction⟩ name params, function_eq_ok.2 ?_⟩
    rw [Assoc.find?_insertSorted, if_pos rfl]
  · exact absurd (congrArg Prod.fst h) (by simp)

theorem atomic_addNative (name : String) (params : List Param) (path : String) :
    Atomic (addNative name params path) :=
  (atomic_addFunction name params).bind fun {g id g'} h => by
    obtain ⟨d, hd⟩ := function_of_addFunction h
    have hmodify := run_modifyFunction id (fun d => { d with implementation := some path }) g'
    rw [hd] at hmodify
    rw [bind_apply,
      show modifyFunction id (fun d => { d with implementation := some path }) g' = _ from hmodify]
    exact ⟨_, _, rfl⟩

theorem atomic_setDefault (id : FunctionId) (param : String) (value : Option Constant) :
    Atomic (setDefault id param value) :=
  (looks_check _).bind_atomic fun d => by
    split
    · exact (looks_throw _).atomic
    · exact atomic_modifyFunction _ _

theorem atomic_addComposition (name : String) (represents : Option FunctionId) :
    Atomic (addComposition name represents) :=
  looks_get.bind_atomic fun _ => by
    cases represents with
    | none => exact atomic_of_succeeds fun _ => ⟨_, _, rfl⟩
    | some function => exact (atomic_modifyFunction function _).bind fun _ => ⟨_, _, rfl⟩

theorem atomic_addCall (id : CompositionId) (function : FunctionId) :
    Atomic (addCall id function) :=
  (looks_check _).bind_atomic fun _ => looks_get.bind_atomic fun _ =>
    (atomic_modifyComposition id _).bind fun _ => ⟨_, _, rfl⟩

theorem atomic_setLabel (id : CompositionId) (call : CallId) (label : String) :
    Atomic (setLabel id call label) :=
  (looks_requireCall id call).bind_atomic fun _ => atomic_modifyComposition id _

theorem atomic_setStart (id : CompositionId) (call : CallId) : Atomic (setStart id call) :=
  (looks_requireCall id call).bind_atomic fun _ => atomic_modifyComposition id _

theorem atomic_setSuccessor (id : CompositionId) (call : CallId) (successor : Successor) :
    Atomic (setSuccessor id call successor) :=
  (looks_check _).bind_atomic fun _ =>
    (looks_requireCalls id successor.targets).bind_atomic fun _ =>
    (looks_requireCall id call).bind_atomic fun _ => atomic_modifyComposition id _

theorem atomic_addMapping (id : CompositionId) (m : Mapping) : Atomic (addMapping id m) :=
  (looks_check _).bind_atomic fun _ => atomic_modifyComposition id _

end Edit

end Graph

/-! ## Sequences -/

namespace Composition

variable {c : Composition} {a b call : CallId}

/-- The composition in which each call of the list leads to the next one. -/
def linked (c : Composition) : List CallId → Composition
  | a :: b :: rest => (c.modifyCall a fun d => { d with successor := .next b }).linked (b :: rest)
  | _ => c

theorem hasCall_iff : c.hasCall call = true ↔ call ∈ c.calls.map (·.id) := by
  simp [hasCall, call?]

/-- Changing where a call leads takes no call away and adds none. -/
theorem hasCall_modifyCall {f : CallDecl → CallDecl} (hf : CallDecl.Kept f) :
    (c.modifyCall a f).hasCall call = c.hasCall call := by
  have hids : (c.modifyCall a f).calls.map (·.id) = c.calls.map (·.id) := map_id_go hf c.calls
  rw [Bool.eq_iff_iff, hasCall_iff, hasCall_iff, hids]

/-- Linking calls takes no call away and adds none. -/
theorem hasCall_linked (c : Composition) (calls : List CallId) :
    (c.linked calls).hasCall call = c.hasCall call := by
  fun_induction linked c calls with
  | case1 c a b rest ih => exact ih.trans (hasCall_modifyCall fun _ => ⟨rfl, rfl⟩)
  | case2 c calls => rfl

end Composition

namespace Graph

variable {g : Graph} {id : CompositionId} {c : Composition} {a b : CallId}

/-- The graph in which each of the calls leads to the next one, in one of its compositions. -/
def linked (g : Graph) (id : CompositionId) (calls : List CallId) : Graph :=
  { g with compositions := Assoc.modify g.compositions id (·.linked calls) }

/-- Where there is at most one call, there is nothing to link. -/
theorem linked_of_length_le (hc : g.composition id = .ok c) {calls : List CallId}
    (h : calls.length ≤ 1) :
    g.linked id calls = g := by
  have hsame : c.linked calls = c := by
    match calls, h with
    | [], _ => rfl
    | [_], _ => rfl
  rw [linked, Assoc.modify_of_find? (composition_eq_ok.1 hc) hsame]

/-- A first pair is linked before the others are. -/
theorem linked_cons_cons (g : Graph) (id : CompositionId) (rest : List CallId) :
    g.linked id (a :: b :: rest) = (g.linked id [a, b]).linked id (b :: rest) := by
  simp only [linked, Assoc.modify_modify]
  rfl

theorem composition_linked (hc : g.composition id = .ok c) (calls : List CallId) :
    (g.linked id calls).composition id = .ok (c.linked calls) := by
  rw [composition_eq_ok, linked, Assoc.find?_modify, if_pos rfl, composition_eq_ok.1 hc]
  rfl

namespace Edit

theorem run_requireCall (hc : g.composition id = .ok c) (call : CallId) :
    (requireCall id call).run g =
      if c.hasCall call then (.ok (), g) else (.error (.callNotFound id call), g) := by
  rw [requireCall, run_bind, run_ofCheck, hc]
  show (if c.hasCall call = true then pure () else throw (.callNotFound id call) : Edit Unit).run
    g = _
  split <;> rfl

/-- Making a call lead to another one looks for the other one first. -/
theorem run_setSuccessor_next (hc : g.composition id = .ok c) :
    (setSuccessor id a (.next b)).run g =
      if c.hasCall b then
        if c.hasCall a then (.ok (), g.linked id [a, b]) else (.error (.callNotFound id a), g)
      else (.error (.callNotFound id b), g) := by
  have hloop : (setSuccessor id a (.next b)).run g = ((do
      requireCall id b
      requireCall id a
      modifyComposition id fun c => c.modifyCall a fun d => { d with successor := .next b } : Edit
        Unit).run g) := by
    rw [setSuccessor, run_bind, run_ofCheck, hc]
    simp [Successor.targets]
  rw [hloop, run_bind, run_requireCall hc]
  cases c.hasCall b with
  | false => rfl
  | true =>
      simp only [if_true]
      rw [run_bind, run_requireCall hc]
      cases c.hasCall a with
      | false => rfl
      | true =>
          simp only [if_true]
          rw [run_modifyComposition, hc]
          rfl

/-- **Calls that are there are chained.** -/
theorem run_chain (hc : g.composition id = .ok c) {calls : List CallId}
    (h : ∀ call ∈ calls, c.hasCall call = true) :
    (chain id calls).run g = (.ok (), g.linked id calls) := by
  induction calls generalizing g c with
  | nil => rw [linked_of_length_le hc (Nat.zero_le _)]; rfl
  | cons a rest ih =>
      cases rest with
      | nil => rw [linked_of_length_le hc (Nat.le_refl _)]; rfl
      | cons b rest =>
          have ha : c.hasCall a = true := h a (by simp)
          have hb : c.hasCall b = true := h b (by simp)
          rw [chain, run_bind, run_setSuccessor_next hc, if_pos hb, if_pos ha,
            linked_cons_cons g id rest]
          refine ih (composition_linked hc [a, b]) fun call hcall => ?_
          rw [Composition.hasCall_linked]
          exact h call (List.mem_cons_of_mem _ hcall)

/-- A chain ends where it would lead to a call that is not there. -/
theorem run_chain_of_missing (hc : g.composition id = .ok c) {before after : List CallId}
    {missing : CallId}
    (hbefore : ∀ call ∈ a :: before, c.hasCall call = true) (hmissing : c.hasCall missing = false) :
    (chain id (a :: before ++ missing :: after)).run g
      = (.error (.callNotFound id missing), g.linked id (a :: before)) := by
  have hlast : ¬ c.hasCall missing = true := by simp [hmissing]
  induction before generalizing g c a with
  | nil =>
      show (chain id (a :: missing :: after)).run g = _
      rw [chain, run_bind, run_setSuccessor_next hc, if_neg hlast,
        linked_of_length_le hc (Nat.le_refl _)]
  | cons b rest ih =>
      have ha : c.hasCall a = true := hbefore a (by simp)
      have hb : c.hasCall b = true := hbefore b (by simp)
      show (chain id (a :: b :: (rest ++ missing :: after))).run g = _
      rw [chain, run_bind, run_setSuccessor_next hc, if_pos hb, if_pos ha,
        linked_cons_cons g id rest]
      refine ih (composition_linked hc [a, b]) (fun call hcall => ?_) ?_ ?_
      · rw [Composition.hasCall_linked]
        exact hbefore call (List.mem_cons_of_mem _ hcall)
      · rwa [Composition.hasCall_linked]
      · rwa [Composition.hasCall_linked]

/-- **A sequence with a call that is not there leaves the calls before it linked.** -/
theorem run_sequence_of_missing (hc : g.composition id = .ok c) {before : List CallId}
    {missing : CallId}
    (hbefore : ∀ call ∈ before, c.hasCall call = true) (hmissing : c.hasCall missing = false)
    (after : List CallId) :
    ∃ call ∈ before ++ missing :: after, c.hasCall call = false ∧
      (sequence id (before ++ missing :: after)).run g =
        (.error (.callNotFound id call), g.linked id before) := by
  have hlast : ¬ c.hasCall missing = true := by simp [hmissing]
  match before, after with
  | a :: rest, after =>
      refine ⟨missing, by simp, hmissing, ?_⟩
      show (chain id (a :: rest ++ missing :: after) >>= fun _ => setStart id a).run g = _
      rw [run_bind, run_chain_of_missing hc hbefore hmissing]
  | [], [] =>
      refine ⟨missing, by simp, hmissing, ?_⟩
      rw [linked_of_length_le hc (Nat.zero_le _)]
      show (setStart id missing).run g = _
      rw [setStart, run_bind, run_requireCall hc, if_neg hlast]
  | [], next :: rest =>
      rw [linked_of_length_le hc (Nat.zero_le _)]
      -- of a pair, the second call is looked for first
      cases hnext : c.hasCall next with
      | false =>
          refine ⟨next, by simp, hnext, ?_⟩
          show (sequence id (missing :: next :: rest)).run g = _
          rw [sequence, run_bind, chain, run_bind, run_setSuccessor_next hc,
            if_neg (by simp [hnext])]
      | true =>
          refine ⟨missing, by simp, hmissing, ?_⟩
          show (sequence id (missing :: next :: rest)).run g = _
          rw [sequence, run_bind, chain, run_bind, run_setSuccessor_next hc,
            if_pos hnext, if_neg hlast]

/-- A sequence of calls that are there succeeds. -/
theorem run_sequence_of_present (hc : g.composition id = .ok c) {calls : List CallId}
    (h : ∀ call ∈ calls, c.hasCall call = true) :
    ∃ g', (sequence id calls).run g = (.ok (), g') := by
  cases calls with
  | nil => exact ⟨_, rfl⟩
  | cons first rest =>
      have hfirst : (c.linked (first :: rest)).hasCall first = true := by
        rw [Composition.hasCall_linked]
        exact h first (by simp)
      have hlinked := composition_linked hc (first :: rest)
      rw [sequence, run_bind, run_chain hc h]
      show ∃ g', (setStart id first).run (g.linked id (first :: rest)) = _
      rw [setStart, run_bind, run_requireCall hlinked, if_pos hfirst]
      show ∃ g', (modifyComposition id _).run (g.linked id (first :: rest)) = _
      rw [run_modifyComposition, hlinked]
      exact ⟨_, rfl⟩

theorem run_sequence_of_error {fault : GraphFault} (hc : g.composition id = .error fault)
    {calls : List CallId}
    (hcalls : calls ≠ []) : (sequence id calls).run g = (.error fault, g) := by
  match calls, hcalls with
  | [call], _ =>
      show (setStart id call).run g = _
      rw [setStart, run_bind, requireCall, run_bind, run_ofCheck, hc]
  | a :: b :: rest, _ =>
      rw [sequence, run_bind, chain, run_bind, setSuccessor, run_bind, run_ofCheck, hc]

/-- An operation whose result is not of interest fails as it does, and leaves the same graph. -/
theorem run_discard (x : Edit α) (g : Graph) :
    (discard x : Edit Unit).run g = ((x.run g).1.map fun _ => (), (x.run g).2) := by
  show (x >>= fun _ => pure ()).run g = _
  rw [run_bind]
  rcases x.run g with ⟨_ | _, _⟩ <;> rfl

end Edit

namespace Operation

/-- What the operation does, without its result. -/
def edit : Operation → Edit Unit
  | .addFunction name params => discard (Edit.addFunction name params)
  | .addNative name params path => discard (Edit.addNative name params path)
  | .setDefault function param value => Edit.setDefault function param value
  | .addComposition name represents => discard (Edit.addComposition name represents)
  | .addCall composition function => discard (Edit.addCall composition function)
  | .setLabel composition call label => Edit.setLabel composition call label
  | .setStart composition call => Edit.setStart composition call
  | .setSuccessor composition call successor => Edit.setSuccessor composition call successor
  | .sequence composition calls => Edit.sequence composition calls
  | .addMapping composition mapping => Edit.addMapping composition mapping
  | .setReceiver function receiver =>
      Edit.modifyFunction function fun d => { d with receiver := some receiver }
  | .setSelfOutput function output =>
      Edit.modifyFunction function fun d => { d with selfOutput := some output }
  | .setOutput function output => Edit.modifyFunction function fun d => { d with output }

/-- The operation fails in the graph. -/
def Fails (g : Graph) (op : Operation) (fault : GraphFault) : Prop :=
  (op.edit.run g).1 = .error fault

theorem apply_eq (g : Graph) (op : Operation) : op.apply g = (op.edit.run g).2 := by
  cases op <;> first | rfl | simp only [edit, Edit.run_discard, apply]

/-- What an operation that fails with the fault leaves of the graph. -/
inductive Leaves (g : Graph) : Operation → GraphFault → Graph → Prop where
  /-- Every operation but a sequence leaves all as it was. -/
  | unchanged {op : Operation} {fault : GraphFault} (single : ∀ id calls, op ≠ .sequence id calls) :
      Leaves g op fault g
  /-- So does a sequence in a composition that is not there. -/
  | nowhere {id : CompositionId} {calls : List CallId} {fault : GraphFault}
      (missing : g.composition id = .error fault) : Leaves g (.sequence id calls) fault g
  /-- Of a sequence with a call that is not there, the calls before the first one of this kind stay
  linked. -/
  | linked {id : CompositionId} {c : Composition} {before after : List CallId} {first call : CallId}
      (composition : g.composition id = .ok c) (present : ∀ call ∈ before, c.hasCall call = true)
      (missing : c.hasCall first = false) (mem : call ∈ before ++ first :: after)
      (named : c.hasCall call = false) :
      Leaves g (.sequence id (before ++ first :: after)) (.callNotFound id call)
        (g.linked id before)

theorem atomic_edit {op : Operation} (hop : ∀ id calls, op ≠ .sequence id calls) :
    Atomic op.edit := by
  cases op with
  | addFunction name params => exact (Edit.atomic_addFunction name params).discard
  | addNative name params path => exact (Edit.atomic_addNative name params path).discard
  | setDefault function param value => exact Edit.atomic_setDefault function param value
  | addComposition name represents => exact (Edit.atomic_addComposition name represents).discard
  | addCall composition function => exact (Edit.atomic_addCall composition function).discard
  | setLabel composition call label => exact Edit.atomic_setLabel composition call label
  | setStart composition call => exact Edit.atomic_setStart composition call
  | setSuccessor composition call successor =>
      exact Edit.atomic_setSuccessor composition call successor
  | sequence composition calls => exact absurd rfl (hop composition calls)
  | addMapping composition mapping => exact Edit.atomic_addMapping composition mapping
  | setReceiver function _ | setSelfOutput function _ | setOutput function _ =>
      exact Edit.atomic_modifyFunction function _

/-- A list of which not all is as asked for has a first element that is not. -/
theorem exists_first_false {p : CallId → Bool} {calls : List CallId}
    (h : ¬ ∀ call ∈ calls, p call = true) :
    ∃ before first after, calls = before ++ first :: after ∧ (∀ call ∈ before, p call = true) ∧
      p first = false := by
  cases hfirst : calls.find? fun call => !p call with
  | none => exact absurd (by simpa using List.find?_eq_none.1 hfirst) h
  | some first =>
      obtain ⟨hp, before, after, hsplit, hbefore⟩ := List.find?_eq_some_iff_append.1 hfirst
      exact ⟨before, first, after, hsplit, by simpa using hbefore, by simpa using hp⟩

theorem leaves_of_sequence {g : Graph} {id : CompositionId} {calls : List CallId}
    {fault : GraphFault}
    (h : (sequence id calls).Fails g fault) :
    Leaves g (.sequence id calls) fault ((sequence id calls).apply g) := by
  have hfails : ((Edit.sequence id calls).run g).1 = .error fault := h
  rw [apply_eq]
  show Leaves g (.sequence id calls) fault ((Edit.sequence id calls).run g).2
  cases hc : g.composition id with
  | error missing =>
      have hcalls : calls ≠ [] := by
        rintro rfl
        exact absurd hfails (by simp [show (Edit.sequence id []).run g = (.ok (), g) from rfl])
      rw [Edit.run_sequence_of_error hc hcalls] at hfails ⊢
      obtain rfl := Except.error.inj hfails
      exact .nowhere hc
  | ok c =>
      by_cases hall : ∀ call ∈ calls, c.hasCall call = true
      · obtain ⟨g', hrun⟩ := Edit.run_sequence_of_present hc hall
        rw [hrun] at hfails
        exact absurd hfails (by simp)
      · obtain ⟨before, first, after, rfl, hbefore, hfirst⟩ := exists_first_false hall
        obtain ⟨call, hmem, hcall, hrun⟩ := Edit.run_sequence_of_missing hc hbefore hfirst after
        rw [hrun] at hfails ⊢
        obtain rfl := Except.error.inj hfails
        exact .linked hc hbefore hfirst hmem hcall

/-- A change is left only by a sequence of which at least two calls are there before one that is
not. -/
theorem Leaves.exists_sequence {g g' : Graph} {op : Operation} {fault : GraphFault}
    (h : Leaves g op fault g')
    (hchanged : g' ≠ g) : ∃ id calls c, op = .sequence id calls ∧ g.composition id = .ok c ∧
      2 ≤ (calls.takeWhile c.hasCall).length := by
  cases h with
  | unchanged _ | nowhere _ => exact absurd rfl hchanged
  | @linked id c before after first call hc hbefore hfirst _ _ =>
      refine ⟨id, _, c, rfl, hc, ?_⟩
      have hpresent : (before ++ first :: after).takeWhile c.hasCall = before := by
        rw [List.takeWhile_append_of_pos hbefore, List.takeWhile_cons_of_neg (by simp [hfirst]),
          List.append_nil]
      rw [hpresent]
      by_contra hfew
      exact hchanged (linked_of_length_le hc (by omega))

/-- **An operation that fails leaves the graph as it was**, unless it is a sequence of which at
least two calls are there before one that is not. -/
theorem left_of_fails {g : Graph} {op : Operation} {fault : GraphFault} (h : op.Fails g fault) :
    Leaves g op fault (op.apply g) ∧
    (op.apply g ≠ g → ∃ id calls c, op = .sequence id calls ∧ g.composition id = .ok c ∧
      2 ≤ (calls.takeWhile c.hasCall).length) := by
  have hleaves : Leaves g op fault (op.apply g) := by
    by_cases hop : ∀ id calls, op ≠ .sequence id calls
    · have hsame : op.apply g = g :=
        (apply_eq g op).trans (atomic_edit hop g fault _ (Prod.ext h rfl))
      rw [hsame]
      exact .unchanged hop
    · obtain ⟨id, calls, rfl⟩ : ∃ id calls, op = .sequence id calls := by simpa using hop
      exact leaves_of_sequence h
  exact ⟨hleaves, hleaves.exists_sequence⟩

end Operation

end Graph

namespace Sample

/-- Two calls that lead nowhere. -/
def apart : Graph :=
  .ofParts "apart" [.plain ⟨0⟩ "f" []] [{ Composition.empty ⟨0⟩ "main" none with
    calls := [⟨⟨0⟩, ⟨0⟩, .stop, none⟩, ⟨⟨1⟩, ⟨0⟩, .stop, none⟩] }]

end Sample

/-- A sequence of the two calls and one that is not there fails, and leaves the two calls linked. -/
theorem Graph.Operation.left_of_fails_sample :
    (Operation.sequence ⟨0⟩ [⟨0⟩, ⟨1⟩, ⟨9⟩]).Fails Sample.apart (.callNotFound ⟨0⟩ ⟨9⟩) ∧
    Sample.apart.successorOf ⟨0⟩ ⟨0⟩ = .ok .stop ∧
    ((Operation.sequence ⟨0⟩ [⟨0⟩, ⟨1⟩, ⟨9⟩]).apply Sample.apart).successorOf ⟨0⟩ ⟨0⟩ =
      .ok (.next ⟨1⟩) ∧
    Leaves Sample.apart (.sequence ⟨0⟩ [⟨0⟩, ⟨1⟩, ⟨9⟩]) (.callNotFound ⟨0⟩ ⟨9⟩)
      ((Operation.sequence ⟨0⟩ [⟨0⟩, ⟨1⟩, ⟨9⟩]).apply Sample.apart) := by
  have hfails :
      (Operation.sequence ⟨0⟩ [⟨0⟩, ⟨1⟩, ⟨9⟩]).Fails Sample.apart (.callNotFound ⟨0⟩ ⟨9⟩) := rfl
  obtain ⟨hleaves, -⟩ := left_of_fails hfails
  exact ⟨hfails, rfl, rfl, hleaves⟩

/-- A sequence whose first call is not there leaves nothing. -/
example : ((Graph.Operation.sequence ⟨0⟩ [⟨9⟩, ⟨0⟩, ⟨1⟩]).apply Sample.apart).successorOf ⟨0⟩ ⟨0⟩ =
    .ok .stop := rfl

end CallFlow
