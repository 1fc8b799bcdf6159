import CallFlow.Proofs.Assembly

/-!
# Assembly that fails

Arguments are assembled in two phases: inputs are resolved, and what they pass is sorted.  The
first input that passes nothing fails the first phase, the first parameter that collects something
of another shape fails the second (`Terminals.assemble_eq_error_iff`).

Inputs are marked as read between the phases.  So the call keeps all of them only if it fails in
the first.
-/

namespace CallFlow

/-! ## Inputs that pass nothing -/

theorem Terminal.resolve_eq_error_iff {t : Terminal} {d : Description} {site : Site} {p : Param}
    {fault : RunFault} :
    t.resolve d site p = .error fault ↔
      (∀ v, ¬ t.Passes p v) ∧ fault = .unresolvedInput site d.name p.name := by
  have hnone : (∀ v, ¬ t.Passes p v) ↔ t.value? p = none := by
    simp only [← value?_eq_some_iff, Option.eq_none_iff_forall_ne_some]
  rw [hnone]
  unfold resolve value?
  split
  · rename_i v hv
    simp [hv]
  · rename_i hv
    rw [hv, Option.none_or]
    cases p.fallback? <;> simp [eq_comm]

namespace Inputs

/-- What inputs resolve to, up to the first that does not. -/
def resolve (inputs : Inputs) (d : Description) (site : Site) : Except RunFault (List Value) :=
  inputs.mapM fun (p, t) => t.resolve d site p

/-- The first parameter that is passed nothing, after others that are passed something. -/
def Misses (inputs before : Inputs) (p : Param) : Prop :=
  ∃ t after, inputs = before ++ (p, t) :: after ∧ (∀ q u, (q, u) ∈ before → ∃ v, u.Passes q v) ∧
    ∀ v, ¬ t.Passes p v

variable {inputs : Inputs} {d : Description} {site : Site} {fault : RunFault}

theorem resolve_append (inputs inputs' : Inputs) (d : Description) (site : Site) :
    resolve (inputs ++ inputs') d site = do
      return (← inputs.resolve d site) ++ (← inputs'.resolve d site) :=
  List.mapM_append

theorem resolve_eq_error_iff :
    inputs.resolve d site = .error fault ↔
      ∃ before p, inputs.Misses before p ∧ fault = .unresolvedInput site d.name p.name := by
  rw [resolve, mapM_eq_error_iff]
  constructor
  · rintro ⟨before, ⟨p, t⟩, after, hsplit, hbefore, ht⟩
    obtain ⟨hnone, hfault⟩ := Terminal.resolve_eq_error_iff.1 ht
    refine ⟨before, p, ⟨t, after, hsplit, fun q u hinput => ?_, hnone⟩, hfault⟩
    obtain ⟨v, hv⟩ := hbefore (q, u) hinput
    exact ⟨v, Terminal.value?_eq_some_iff.1 (Terminal.resolve_eq_ok_iff.1 hv)⟩
  · rintro ⟨before, p, ⟨t, after, hsplit, hbefore, hnone⟩, hfault⟩
    refine ⟨before, (p, t), after, hsplit, fun (q, u) hinput => ?_,
      Terminal.resolve_eq_error_iff.2 ⟨hnone, hfault⟩⟩
    obtain ⟨v, hv⟩ := hbefore q u hinput
    exact ⟨v, Terminal.resolve_eq_ok_iff.2 (Terminal.value?_eq_some_iff.2 hv)⟩

theorem exists_resolve_iff :
    (∃ values, inputs.resolve d site = .ok values) ↔
      ∀ p t, (p, t) ∈ inputs → ∃ v, t.Passes p v := by
  simp only [resolve, exists_mapM_eq_ok_iff, Prod.forall, Terminal.resolve_eq_ok_iff,
    Terminal.value?_eq_some_iff]

end Inputs

namespace Terminals

/-- All inputs of a call: those of the parameters, and that of the receiver. -/
def inputs (ts : Terminals) (d : Description) : Inputs :=
  d.params.zip ts.params ++ d.receiver.toList.zip ts.receiver.toList

variable {ts ts' : Terminals} {d : Description} {site : Site} {fault : RunFault}

/-- The receiver is resolved as if it were one more parameter. -/
theorem resolveReceiver_eq (ts : Terminals) (d : Description) (site : Site) :
    ts.resolveReceiver d site
      = (Inputs.resolve (d.receiver.toList.zip ts.receiver.toList) d site).map List.head? := by
  unfold resolveReceiver
  cases d.receiver with
  | none => rfl
  | some p =>
      cases ts.receiver with
      | none => rfl
      | some t =>
          show (t.resolve d site p).map some =
            Except.map List.head? (do return [← t.resolve d site p])
          cases t.resolve d site p <;> rfl

theorem resolveAll_eq_error_iff :
    ts.resolveAll d site = .error fault ↔ (ts.inputs d).resolve d site = .error fault := by
  show (Inputs.resolve (d.params.zip ts.params) d
      site >>= fun values => ts.resolveReceiver d site >>= fun receiver =>
    .ok (values, receiver)) = _ ↔ _
  rw [inputs, Inputs.resolve_append, resolveReceiver_eq]
  cases Inputs.resolve (d.params.zip ts.params) d site with
  | error fault' => simp [bind, Except.bind]
  | ok values =>
      cases Inputs.resolve (d.receiver.toList.zip ts.receiver.toList) d site with
      | error fault' => simp [bind, Except.bind, Except.map]
      | ok receiver => simp [bind, Except.bind, Except.map, pure, Except.pure]

/-- All inputs resolve where each of them passes something. -/
theorem exists_resolveAll_iff :
    (∃ resolved, ts.resolveAll d site = .ok resolved) ↔
      ∀ p t, (p, t) ∈ ts.inputs d → ∃ v, t.Passes p v := by
  have hinputs : (∃ values, (ts.inputs d).resolve d site = .ok values) ↔ _ :=
    Inputs.exists_resolve_iff
  rw [← hinputs]
  cases hresolved : ts.resolveAll d site with
  | error fault => simp [resolveAll_eq_error_iff.1 hresolved]
  | ok resolved =>
      cases hinputs : (ts.inputs d).resolve d site with
      | ok values => simp
      | error fault =>
          exact absurd (hresolved.symm.trans (resolveAll_eq_error_iff.2 hinputs)) (by simp)

end Terminals

/-! ## Values of another shape -/

/-- The type of what a parameter of the kind collects. -/
def ParamKind.collects? : ParamKind → Option ValueType
  | .positional _ | .keyword _ => none
  | .varPositional => some .list
  | .varKeyword => some .map

theorem Sorted.add_eq_error_iff {s : Sorted} {p : Param} {t : Terminal} {v : Value}
    {fault : RunFault} :
    s.add p t v = .error fault ↔
      ¬ p.kind.Admits v ∧
      ∃ type, p.kind.collects? = some type ∧ fault = .typeMismatch t.place type (.whole v) := by
  unfold Sorted.add
  cases p.kind with
  | positional _ | keyword _ => simp [ParamKind.Admits]
  | varPositional | varKeyword => cases v <;> simp [ParamKind.Admits, ParamKind.collects?, eq_comm]

namespace Inputs

/-- The fault of the first parameter that collects and is passed something of another shape. -/
inductive Misfits : Inputs → RunFault → Prop where
  | here {inputs : Inputs} {p : Param} {t : Terminal} {v : Value} {type : ValueType}
      (passed : t.Passes p v)
      (refused : ¬ p.kind.Admits v) (collects : p.kind.collects? = some type) :
      Misfits ((p, t) :: inputs) (.typeMismatch t.place type (.whole v))
  | later {inputs : Inputs} {p : Param} {t : Terminal} {v : Value} {fault : RunFault}
      (passed : t.Passes p v)
      (admitted : p.kind.Admits v) (misfits : Misfits inputs fault) :
        Misfits ((p, t) :: inputs) fault

variable {inputs : Inputs} {p : Param} {t : Terminal} {v : Value} {fault : RunFault}

theorem misfits_cons_iff (hv : t.Passes p v) :
    Misfits ((p, t) :: inputs) fault ↔
      (¬ p.kind.Admits v ∧
        ∃ type, p.kind.collects? = some type ∧ fault = .typeMismatch t.place type (.whole v)) ∨
        p.kind.Admits v ∧ inputs.Misfits fault := by
  constructor
  · intro h
    cases h with
    | here hw hrefused hcollects =>
        obtain rfl := hv.unique hw
        exact .inl ⟨hrefused, _, hcollects, rfl⟩
    | later hw hadmitted hmisfits =>
        obtain rfl := hv.unique hw
        exact .inr ⟨hadmitted, hmisfits⟩
  · rintro (⟨hrefused, type, hcollects, rfl⟩ | ⟨hadmits, hmisfits⟩)
    · exact .here hv hrefused hcollects
    · exact .later hv hadmits hmisfits

/-- What inputs pass fails to be sorted as the first of them does that is of another shape. -/
theorem addAll_eq_error_iff {values : List Value} {s : Sorted}
    (hvalues : List.Forall₂ (fun input v => input.2.Passes input.1 v) inputs values) :
    s.addAll (inputs.zip values) = .error fault ↔ inputs.Misfits fault := by
  induction hvalues generalizing s with
  | nil => exact iff_of_false (by simp [Sorted.addAll]) nofun
  | @cons input v inputs values hv _ ih =>
      obtain ⟨p, t⟩ := input
      rw [misfits_cons_iff hv, ← Sorted.add_eq_error_iff (s := s) (t := t), List.zip_cons_cons,
        Sorted.addAll]
      cases hadd : s.add p t v with
      | ok s' =>
          have hadmits : p.kind.Admits v := Sorted.exists_add_iff.1 ⟨s', hadd⟩
          simp [ih, hadmits]
      | error fault' =>
          have hrefused : ¬ p.kind.Admits v := (Sorted.add_eq_error_iff.1 hadd).1
          simp [hrefused]

end Inputs

/-! ## Assembling -/

namespace Terminals

variable {ts ts' : Terminals} {d : Description} {site : Site} {fault : RunFault}

/-- **What is left of an assembly that fails.**  It fails at the first input that passes nothing,
and then nothing has changed.  Or all inputs pass something and it fails at the first parameter that
collects and is passed something of another shape; all inputs are marked as read then, although none
was used. -/
theorem assemble_eq_error_iff :
    ts.assemble d site = (.error fault, ts') ↔
      (ts' = ts ∧
        ∃ before p, (ts.inputs d).Misses before p ∧ fault = .unresolvedInput site d.name p.name) ∨
      (ts' = ts.consumeInputs ∧ (∀ p t, (p, t) ∈ ts.inputs d → ∃ v, t.Passes p v) ∧
        Inputs.Misfits (d.params.zip ts.params) fault) := by
  unfold assemble
  cases hresolved : ts.resolveAll d site with
  | error fault' =>
      have hfails := resolveAll_eq_error_iff.1 hresolved
      constructor
      · intro h
        obtain ⟨hfault, rfl⟩ := Prod.mk.inj h
        obtain rfl := Except.error.inj hfault
        exact .inl ⟨rfl, Inputs.resolve_eq_error_iff.1 hfails⟩
      · rintro (⟨rfl, hmisses⟩ | ⟨-, hpassed, -⟩)
        · obtain rfl := Except.error.inj (hfails.symm.trans (Inputs.resolve_eq_error_iff.2 hmisses))
          rfl
        · obtain ⟨resolved, hresolved'⟩ := exists_resolveAll_iff.2 hpassed
          exact absurd (hresolved.symm.trans hresolved') (by simp)
  | ok resolved =>
      obtain ⟨values, receiver⟩ := resolved
      have hvalues :
          List.Forall₂ (fun input v => input.2.Passes input.1 v) (d.params.zip ts.params) values :=
        (resolveAll_eq_ok_iff.1 hresolved).params.imp fun _ _ hv => Terminal.value?_eq_some_iff.1 hv
      constructor
      · intro h
        obtain ⟨hfault, rfl⟩ := Prod.mk.inj h
        have hmisfits := (Inputs.addAll_eq_error_iff hvalues).1 (map_eq_error hfault)
        exact .inr ⟨rfl, exists_resolveAll_iff.1 ⟨_, hresolved⟩, hmisfits⟩
      · rintro (⟨-, hmisses⟩ | ⟨rfl, -, hmisfits⟩)
        · have hfails := resolveAll_eq_error_iff.2 (Inputs.resolve_eq_error_iff.2 hmisses)
          exact absurd (hresolved.symm.trans hfails) (by simp)
        · simp only [(Inputs.addAll_eq_error_iff hvalues).2 hmisfits]
          rfl

end Terminals

namespace Sample

/-- A function that collects the rest of its arguments. -/
def spread : Description :=
  .plain ⟨0⟩ "spread" [⟨"a", .any, .positional 0, none⟩, ⟨"rest", .any, .varPositional, none⟩]

/-- Its terminals, with a number where a list is collected. -/
def spreadOut : Terminals where
  params :=
    [(Terminal.ofVariable "a").holding (.int 1), (Terminal.ofVariable "rest").holding (.int 5)]
  receiver := none
  output := .ofVariable "result"
  selfOutput := none

end Sample

/-- The number is no list, but both inputs are read, so that the call misses its first input the
next time. -/
theorem Terminals.assemble_eq_error_iff_sample :
    Sample.spreadOut.assemble Sample.spread (.entry ⟨0⟩) =
        (.error (.typeMismatch (.variable "rest") .list (.whole (.int 5))),
          Sample.spreadOut.consumeInputs) ∧
      Sample.spreadOut.consumeInputs ≠ Sample.spreadOut ∧
      Sample.spreadOut.consumeInputs.assemble Sample.spread (.entry ⟨0⟩) =
        (.error (.unresolvedInput (.entry ⟨0⟩) "spread" "a"), Sample.spreadOut.consumeInputs) := by
  have hshown : ((Terminal.ofVariable "rest").holding (.int 5)).Passes ⟨"rest", .any,
      .varPositional, none⟩ (.int 5) :=
    .ingested rfl rfl
  have hfirst : ((Terminal.ofVariable "a").holding (.int 1)).Passes ⟨"a", .any, .positional 0, none⟩
      (.int 1) :=
    .ingested rfl rfl
  refine ⟨assemble_eq_error_iff.2 (.inr ⟨rfl, ?_, ?_⟩), fun h => ?_,
    assemble_eq_error_iff.2 (.inl ⟨rfl, [], _, ⟨_, _, rfl, by simp, fun v hv => ?_⟩, rfl⟩)⟩
  · rintro p t (_ | ⟨_, _ | ⟨_, hinput⟩⟩)
    · exact ⟨_, hfirst⟩
    · exact ⟨_, hshown⟩
    · exact nomatch hinput
  · exact .later hfirst trivial (.here hshown (by rintro ⟨items, h⟩; cases h) rfl)
  · have hread := congrArg (fun ts : Terminals => ts.params.map (·.cell.consumed)) h
    exact absurd hread (by decide)
  · have hnone : none = some v := Terminal.value?_eq_some_iff.2 hv
    exact absurd hnone (by simp)

end CallFlow
