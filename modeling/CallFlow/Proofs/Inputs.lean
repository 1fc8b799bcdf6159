import CallFlow.Proofs.Execution
import CallFlow.Proofs.Frame

/-!
# The inputs of a call

Executing a call reads its inputs.  An implementation is called with what they resolve to
(`Terminals.exists_resolved`), and a body finds the same in its boundary
(`Terminals.exists_prepared`).

Afterwards all inputs are read, whether the call has completed (`Context.read_of_completed`) or
its implementation has signalled exhaustion (`Context.execute_exhausted`).  A body that signals
exhaustion leaves the call as the body has left its boundary.
-/

namespace CallFlow

/-- Is the fault the signal that loop nodes wait for? -/
def RunFault.IsExhausted : RunFault → Prop
  | .exhausted _ => True
  | _ => False

theorem RunFault.not_isExhausted_ofGraph (fault : GraphFault) : ¬ (ofGraph fault).IsExhausted := by
  cases fault <;> exact id

/-! ## What inputs resolve to -/

namespace Terminals

/-- The parameter and the terminal of an input: those at one position, or those of the receiver. -/
def input? (ts : Terminals) (d : Description) : Port → Option (Param × Terminal)
  | .param i => (d.params.zip ts.params)[i.toNat]?
  | .receiver => d.receiver.bind fun p => ts.receiver.map fun t => (p, t)
  | .output | .selfOutput => none

/-- The value of an input among those that all inputs resolve to. -/
def valueAt? (resolved : List Value × Option Value) : Port → Option Value
  | .param i => resolved.1[i.toNat]?
  | .receiver => resolved.2
  | .output | .selfOutput => none

variable {ts ts' : Terminals} {d : Description} {site : Site} {port : Port} {p : Param}
  {t t' : Terminal}

theorem receiver_of_input? (h : ts.input? d .receiver = some (p, t)) :
    d.receiver = some p ∧ ts.receiver = some t := by
  obtain ⟨q, hq, h⟩ := Option.bind_eq_some_iff.1 h
  obtain ⟨u, hu, h⟩ := Option.map_eq_some_iff.1 h
  obtain ⟨rfl, rfl⟩ := Prod.mk.inj h
  exact ⟨hq, hu⟩

theorem isOutput_of_input? (h : ts.input? d port = some (p, t)) : port.isOutput = false := by
  cases port with
  | param _ | receiver => rfl
  | output | selfOutput => exact absurd h (by simp [input?])

theorem get?_of_input? (h : ts.input? d port = some (p, t)) : ts.get? port = some t := by
  cases port with
  | param i => exact (List.getElem?_zip_eq_some.1 h).2
  | receiver => exact (receiver_of_input? h).2
  | output | selfOutput => exact absurd h (by simp [input?])

/-- **If the inputs resolve, then each to its own value.** -/
theorem exists_resolved {resolved : List Value × Option Value}
    (h : ts.resolveAll d site = .ok resolved) (hinput : ts.input? d port = some (p, t)) :
    ∃ v, t.resolve d site p = .ok v ∧ valueAt? resolved port = some v := by
  obtain ⟨values, hvalues, h⟩ := bind_eq_ok h
  obtain ⟨receiver, hreceiver, h⟩ := bind_eq_ok h
  obtain rfl := Except.ok.inj h
  cases port with
  | param i =>
      obtain ⟨v, hv, hi⟩ := getElem?_of_mapM_eq_ok hvalues hinput
      exact ⟨v, hv, hi⟩
  | receiver =>
      obtain ⟨hp, ht⟩ := receiver_of_input? hinput
      simp only [resolveReceiver, hp, ht] at hreceiver
      obtain ⟨v, hv, hreceiver⟩ := map_eq_ok hreceiver
      exact ⟨v, hv, hreceiver⟩
  | output | selfOutput => exact absurd hinput (by simp [input?])

/-! ## Preparation -/

/-- A prepared input is fresh and shows what it resolves to. -/
theorem prepareOne_eq_ok (h : prepareOne d site p t = .ok t') :
    t'.isFresh = true ∧ ∃ v, t.resolve d site p = .ok v ∧ t'.peek = some v := by
  unfold prepareOne at h
  split at h
  · rename_i hfresh
    obtain rfl := Except.ok.inj h
    obtain ⟨v, hv⟩ := Cell.exists_peek_of_isFresh hfresh
    refine ⟨hfresh, v, ?_, hv⟩
    rw [Terminal.resolve, if_pos hfresh, show t.peek = some v from hv]
  · split at h
    · rename_i v hv
      exact ⟨Terminal.isFresh_write h, v, hv, Terminal.peek_write_none h⟩
    · exact absurd h (by simp)

/-- Parameters are prepared one after the other, as far as there are terminals. -/
inductive PreparesEach (d : Description) (site : Site) :
    List Param → List Terminal → List Terminal → Prop where
  | done (us : List Terminal) : PreparesEach d site [] us us
  | short (p : Param) (ps : List Param) : PreparesEach d site (p :: ps) [] []
  | next {p : Param} {t t' : Terminal} {ps : List Param} {us us' : List Terminal}
      (first : prepareOne d site p t = .ok t') (rest : PreparesEach d site ps us us') :
      PreparesEach d site (p :: ps) (t :: us) (t' :: us')

theorem prepareParams_eq_ok_iff {ps : List Param} {us us' : List Terminal} :
    prepareParams d site ps us = (.ok (), us') ↔ PreparesEach d site ps us us' := by
  constructor
  · intro h
    induction ps generalizing us us' with
    | nil =>
        obtain rfl : us = us' := by simpa [prepareParams] using h
        exact .done us
    | cons p ps ih =>
        cases us with
        | nil =>
            obtain rfl : [] = us' := by simpa [prepareParams] using h
            exact .short p ps
        | cons t us =>
            rw [prepareParams] at h
            split at h
            · exact absurd h (by simp)
            · rename_i t' ht'
              obtain ⟨hrest, rfl⟩ := Prod.mk.inj h
              exact .next ht' (ih (Prod.ext hrest rfl))
  · intro h
    induction h with
    | done us => cases us <;> rfl
    | short p ps => rfl
    | next hfirst _ ih => rw [prepareParams, hfirst, ih]

theorem PreparesEach.getElem? {ps : List Param} {us us' : List Terminal}
    (h : PreparesEach d site ps us us') {i : Nat}
    (hi : (ps.zip us)[i]? = some (p, t)) :
    ∃ t', us'[i]? = some t' ∧ prepareOne d site p t = .ok t' := by
  induction h generalizing i with
  | done _ | short _ _ => exact absurd hi (by simp)
  | next hfirst _ ih =>
      cases i with
      | zero =>
          obtain ⟨rfl, rfl⟩ := Prod.mk.inj (Option.some.inj hi)
          exact ⟨_, rfl, hfirst⟩
      | succ i =>
          obtain ⟨t', ht', hprepared⟩ := ih (by simpa using hi)
          exact ⟨t', by simpa using ht', hprepared⟩

/-- The parts of a preparation that has succeeded. -/
theorem prepare_eq_ok (h : ts.prepare d site = (.ok (), ts')) :
    PreparesEach d site d.params ts.params ts'.params ∧
      (∀ p t, d.receiver = some p → ts.receiver = some t →
        ∃ t', ts'.receiver = some t' ∧ prepareOne d site p t = .ok t') ∧
      ts'.output = ts.output ∧ ts'.selfOutput = ts.selfOutput := by
  unfold prepare at h
  split at h
  · exact absurd h (by simp)
  · rename_i params hparams
    have hparams := prepareParams_eq_ok_iff.1 hparams
    split at h
    · rename_i q u hq hu
      split at h
      · rename_i u' hu'
        obtain ⟨-, rfl⟩ := Prod.mk.inj h
        refine ⟨hparams, fun p t hp ht => ⟨u', rfl, ?_⟩, rfl, rfl⟩
        obtain rfl : q = p := Option.some.inj (hq.symm.trans hp)
        obtain rfl : u = t := Option.some.inj (hu.symm.trans ht)
        exact hu'
      · exact absurd h (by simp)
    · rename_i hmissing
      obtain ⟨-, rfl⟩ := Prod.mk.inj h
      exact ⟨hparams, fun p t hp ht => absurd ht (hmissing p t hp), rfl, rfl⟩

/-- **After a preparation every input is fresh and shows what it resolves to.** -/
theorem exists_prepared (h : ts.prepare d site = (.ok (), ts'))
    (hinput : ts.input? d port = some (p, t)) :
    ∃ t' v, ts'.get? port = some t' ∧ t'.isFresh = true ∧ t.resolve d site p = .ok v ∧
      t'.peek = some v := by
  obtain ⟨hparams, hreceiver, -, -⟩ := prepare_eq_ok h
  have hone : ∃ t', ts'.get? port = some t' ∧ prepareOne d site p t = .ok t' := by
    cases port with
    | param i => exact hparams.getElem? hinput
    | receiver =>
        obtain ⟨hp, ht⟩ := receiver_of_input? hinput
        exact hreceiver p t hp ht
    | output | selfOutput => exact absurd hinput (by simp [input?])
  obtain ⟨t', ht', hprepared⟩ := hone
  obtain ⟨hfresh, v, hv, hpeek⟩ := prepareOne_eq_ok hprepared
  exact ⟨t', v, ht', hfresh, hv, hpeek⟩

/-! ## Reading -/

/-- All inputs are read. -/
def InputsRead (ts : Terminals) : Prop :=
  ∀ port t, port.isOutput = false → ts.get? port = some t → t.cell.consumed = true

theorem InputsRead.isFresh (h : ts.InputsRead) (hport : port.isOutput = false)
    (ht : ts.get? port = some t) : t.isFresh = false := by
  simp [Terminal.isFresh, Cell.isFresh, h port t hport ht]

theorem get?_consumeInputs (ts : Terminals) (port : Port) :
    ts.consumeInputs.get? port
      = if port.isOutput then ts.get? port else (ts.get? port).map Terminal.consume := by
  cases port <;> simp [consumeInputs, mapInputs, get?, Port.isOutput]

theorem inputsRead_consumeInputs (ts : Terminals) : ts.consumeInputs.InputsRead := by
  intro port t hport ht
  rw [get?_consumeInputs, hport] at ht
  obtain ⟨u, -, rfl⟩ := Option.map_eq_some_iff.1 ht
  rfl

/-- Publishing writes outputs only. -/
theorem get?_publish (ts : Terminals) (v : Value) (receiver : Option Value)
    (hport : port.isOutput = false) : (ts.publish v receiver).2.get? port = ts.get? port := by
  have hout : port ≠ .output ∧ port ≠ .selfOutput := by
    constructor <;> rintro rfl <;> exact absurd hport (by simp [Port.isOutput])
  unfold publish
  split
  · rfl
  · simp only []
    split
    · cases port <;> first | rfl | exact absurd rfl hout.1
    · split
      · cases port <;> first | rfl | exact absurd rfl hout.1
      · cases port <;> first | rfl | exact absurd rfl hout.1 | exact absurd rfl hout.2

theorem InputsRead.publish (h : ts.InputsRead) (v : Value) (receiver : Option Value) :
    (ts.publish v receiver).2.InputsRead := by
  intro port t hport ht
  rw [get?_publish ts v receiver hport] at ht
  exact h port t hport ht

end Terminals

/-! ## Faults of inputs -/

/-- Is the fault one of values: an input that does not resolve, or a value that its place does not
take? -/
def RunFault.OfValues : RunFault → Prop
  | .unresolvedInput _ _ _ | .typeMismatch _ _ _ => True
  | _ => False

theorem RunFault.OfValues.not_isExhausted {fault : RunFault} (h : fault.OfValues) :
    ¬ fault.IsExhausted := by
  cases fault <;> first | exact id | exact absurd h id

theorem Terminal.ofValues_write {t : Terminal} {strategy : Option Strategy} {v : Value}
    {fault : RunFault} (h : t.write strategy v = .error fault) : fault.OfValues := by
  obtain ⟨written, rfl⟩ := write_eq_error h
  trivial

theorem Terminal.ofValues_resolve {t : Terminal} {d : Description} {site : Site} {p : Param}
    {fault : RunFault} (h : t.resolve d site p = .error fault) : fault.OfValues := by
  unfold resolve at h
  split at h
  · exact absurd h (by simp)
  · split at h
    · exact absurd h (by simp)
    · obtain rfl := Except.error.inj h
      trivial

theorem Sorted.ofValues_addAll {s : Sorted} {values : List ((Param × Terminal) × Value)}
    {fault : RunFault} (h : s.addAll values = .error fault) : fault.OfValues := by
  induction values generalizing s with
  | nil => exact absurd h (by simp [addAll])
  | cons entry rest ih =>
      obtain ⟨⟨p, t⟩, v⟩ := entry
      rw [addAll] at h
      split at h
      · exact ih h
      · rename_i fault' hadd
        obtain rfl := Except.error.inj h
        unfold add at hadd
        split at hadd
        · exact absurd hadd (by simp)
        · exact absurd hadd (by simp)
        · split at hadd
          · exact absurd hadd (by simp)
          · obtain rfl := Except.error.inj hadd
            trivial
        · split at hadd
          · exact absurd hadd (by simp)
          · obtain rfl := Except.error.inj hadd
            trivial

namespace Terminals

variable {ts ts' : Terminals} {d : Description} {site : Site} {fault : RunFault}

theorem ofValues_resolveAll (h : ts.resolveAll d site = .error fault) : fault.OfValues := by
  rcases bind_eq_error h with hparams | ⟨values, -, h⟩
  · obtain ⟨⟨p, t⟩, -, ht⟩ := exists_of_mapM_eq_error hparams
    exact Terminal.ofValues_resolve ht
  · rcases bind_eq_error h with hreceiver | ⟨receiver, -, h⟩
    · unfold resolveReceiver at hreceiver
      split at hreceiver
      · exact Terminal.ofValues_resolve (map_eq_error hreceiver)
      · exact absurd hreceiver (by simp)
    · cases h

/-- What arguments are assembled from, and that assembling them reads all inputs. -/
theorem assemble_eq_ok {args : Arguments} (h : ts.assemble d site = (.ok args, ts')) :
    ts' = ts.consumeInputs ∧ ∃ resolved sorted, ts.resolveAll d site = .ok resolved ∧
      Sorted.addAll {} ((d.params.zip ts.params).zip resolved.1) = .ok sorted ∧
      args = sorted.arguments resolved.2 := by
  unfold assemble at h
  split at h
  · exact absurd h (by simp)
  · rename_i values receiver hresolved
    simp only [Prod.mk.injEq] at h
    obtain ⟨hargs, rfl⟩ := h
    obtain ⟨sorted, hsorted, hargs⟩ := map_eq_ok hargs
    exact ⟨rfl, (values, receiver), sorted, hresolved, hsorted, hargs⟩

theorem ofValues_assemble (h : ts.assemble d site = (.error fault, ts')) : fault.OfValues := by
  unfold assemble at h
  split at h
  · rename_i fault' hresolved
    obtain ⟨hfault, -⟩ := Prod.mk.inj h
    obtain rfl := Except.error.inj hfault
    exact ofValues_resolveAll hresolved
  · rename_i values receiver hresolved
    simp only [Prod.mk.injEq] at h
    exact Sorted.ofValues_addAll (map_eq_error h.1)

theorem ofValues_prepareOne {p : Param} {t : Terminal}
    (h : prepareOne d site p t = .error fault) : fault.OfValues := by
  unfold prepareOne at h
  split at h
  · exact absurd h (by simp)
  · split at h
    · exact Terminal.ofValues_write h
    · rename_i fault' hresolve
      obtain rfl := Except.error.inj h
      exact Terminal.ofValues_resolve hresolve

theorem ofValues_prepareParams {ps : List Param} {us us' : List Terminal}
    (h : prepareParams d site ps us = (.error fault, us')) : fault.OfValues := by
  induction ps generalizing us us' with
  | nil =>
      rw [prepareParams] at h
      · exact absurd h (by simp)
      · simp
  | cons p ps ih =>
      cases us with
      | nil => exact absurd h (by simp [prepareParams])
      | cons t us =>
          rw [prepareParams] at h
          cases hone : prepareOne d site p t with
          | error fault' =>
              rw [hone] at h
              obtain rfl := Except.error.inj (congrArg Prod.fst h)
              exact ofValues_prepareOne hone
          | ok t' =>
              simp only [hone, Prod.mk.injEq] at h
              exact ih (Prod.ext h.1 rfl)

theorem ofValues_prepare (h : ts.prepare d site = (.error fault, ts')) : fault.OfValues := by
  unfold prepare at h
  split at h
  · rename_i fault' params hparams
    obtain rfl := Except.error.inj (congrArg Prod.fst h)
    exact ofValues_prepareParams hparams
  · split at h
    · split at h
      · exact absurd h (by simp)
      · rename_i fault' hone
        obtain rfl := Except.error.inj (congrArg Prod.fst h)
        exact ofValues_prepareOne hone
    · exact absurd h (by simp)

theorem ofValues_writeInput? {name : String} {v : Value}
    (h : ts.writeInput? name v = some (.error fault)) : fault.OfValues := by
  unfold writeInput? at h
  split at h
  · obtain ⟨t, -, h⟩ := Option.map_eq_some_iff.1 h
    exact Terminal.ofValues_write (map_eq_error h)
  · split at h
    · split at h
      · exact Terminal.ofValues_write (map_eq_error (Option.some.inj h))
      · exact absurd h (by simp)
    · exact absurd h (by simp)

theorem ofValues_publish {v : Value} {receiver : Option Value}
    (h : (ts.publish v receiver).1 = .error fault) : fault.OfValues := by
  unfold publish at h
  split at h
  · rename_i fault' hwrite
    obtain rfl := Except.error.inj h
    exact Terminal.ofValues_write hwrite
  · simp only [] at h
    split at h
    · exact absurd h (by simp)
    · split at h
      · rename_i fault' hwrite
        obtain rfl := Except.error.inj h
        exact Terminal.ofValues_write hwrite
      · exact absurd h (by simp)

end Terminals

/-- A composition that cannot be set up signals no exhaustion. -/
theorem Frame.not_isExhausted_ofGraph {g : Graph} {id : CompositionId} {checked : Bool}
    {fault : RunFault}
    (h : ofGraph g id checked = .error fault) : ¬ fault.IsExhausted := by
  rcases ofGraph_eq_error h with ⟨e, rfl, -⟩ | ⟨c, used, reason, -, -, -, rfl⟩
  · exact RunFault.not_isExhausted_ofGraph e
  · exact fun h => h

/-! ## Executions -/

/-- The call signals exhaustion by itself: it has no body, and its implementation answers so. -/
inductive Active.Raises (ctx : Context) (a : Active) : Prop where
  | intro {d : Description} {args : Arguments} {ts : Terminals} {f : Callable}
      {handle : Option Callable}
      (function : ctx.graph.function a.call.function = .ok d) (noBody : d.body = none)
      (assembled : a.call.terminals.assemble d a.call.site = (.ok args, ts))
      (bound : ctx.bind d a.call.site a.handle args.receiver = (.ok f, handle))
      (reply : (Invocation.send ⟨args.positional, args.keyword, args.receiver⟩ f).result
        = .error .exhausted)

namespace Context

variable {ctx : Context} {d : Description} {a a' : Active} {r : Except RunFault Unit}

theorem unbound_of_bind {site : Site} {handle : Option Callable} {receiver : Option Value}
    {fault : RunFault} (h : (ctx.bind d site handle receiver).1 = .error fault) :
    fault = .unbound site d.name d.implementation := by
  unfold bind at h
  simp only [] at h
  split at h
  · exact absurd h (by simp)
  · split at h
    · exact absurd h (by simp)
    · exact (Except.error.inj h).symm

/-- An implementation signals exhaustion by its answer, at the site of its call, of which all inputs
are read then. -/
theorem raises_of_invoke {site : Site} (hd : ctx.graph.function a.call.function = .ok d)
    (hnone : d.body = none) (h : ctx.invoke d a = (.error (.exhausted site), a')) :
    a.Raises ctx ∧ site = a.call.site ∧ a'.call.terminals = a.call.terminals.consumeInputs := by
  cases invokes_of_invoke h with
  | unassembled hassemble =>
      exact absurd trivial (Terminals.ofValues_assemble hassemble).not_isExhausted
  | unbound _ hbind => exact absurd (unbound_of_bind (congrArg Prod.fst hbind)) (by simp)
  | answered _ _ _ hpublish =>
      exact absurd trivial (Terminals.ofValues_publish (congrArg Prod.fst hpublish)).not_isExhausted
  | exhausted hassemble hbind hreply =>
      obtain ⟨hread, -⟩ := Terminals.assemble_eq_ok hassemble
      exact ⟨.intro hd hnone hassemble hbind hreply, rfl, hread⟩

/-- A body is set up only if none is kept, and fails as its frame does. -/
theorem bodyOf_eq_error {id : CompositionId} {kept : Option Instance} {fault : RunFault}
    (h : ctx.bodyOf id kept = .error fault) :
    Frame.ofGraph ctx.graph id ctx.checked = .error fault := by
  cases kept with
  | some body => exact absurd h (by simp [bodyOf])
  | none =>
      simp only [bodyOf, Instance.ofGraph] at h
      exact map_eq_error h

/-- A body that cannot be set up signals no exhaustion. -/
theorem not_isExhausted_bodyOf {id : CompositionId} {kept : Option Instance} {fault : RunFault}
    (h : ctx.bodyOf id kept = .error fault) : ¬ fault.IsExhausted :=
  Frame.not_isExhausted_ofGraph (bodyOf_eq_error h)

variable {run : Runner} {depth : Nat}

/-- **A call that has completed has read all its inputs.** -/
theorem read_of_completed (h : ctx.execute run depth a = some (.ok (), a')) :
    a'.call.terminals.InputsRead := by
  cases performs_of_execute h with
  | @invoked d _ _ _ _ hinvoke =>
      cases invokes_of_invoke hinvoke with
      | @answered _ ts ts' _ _ v receiver _ hassemble _ _ hpublish =>
          obtain ⟨rfl, -⟩ := Terminals.assemble_eq_ok hassemble
          have hread := (Terminals.inputsRead_consumeInputs a.call.terminals).publish v receiver
          rwa [hpublish] at hread
  | @ran _ _ _ _ ran _ _ _ _ _ _ => exact ran.terminals.inputsRead_consumeInputs

/-- **How a call can signal exhaustion**: by its implementation, and then all inputs are read and
nothing else has changed; or from inside of its body, and then the terminals are as the body has
left them. -/
theorem execute_exhausted {site : Site}
    (h : ctx.execute run depth a = some (.error (.exhausted site), a')) :
    ∃ d, ctx.graph.function a.call.function = .ok d ∧
      ((d.body = none ∧ a'.call.terminals = a.call.terminals.consumeInputs) ∨
        ∃ id body ts ran, d.body = some id ∧ ctx.bodyOf id a.body = .ok body ∧
          a.call.terminals.prepare d a.call.site = (.ok (), ts) ∧
          run (depth + 1) body.reset ts.resetOutputs a.log
            = some (.error (.exhausted site), ran) ∧
          a'.call.terminals = ran.terminals) := by
  generalize hr : Except.error (RunFault.exhausted site) = r at h
  cases performs_of_execute h with
  | @unknown e _ =>
      exact absurd (show (RunFault.ofGraph e).IsExhausted by rw [← Except.error.inj hr]; trivial)
        (RunFault.not_isExhausted_ofGraph e)
  | @invoked d _ _ hd hnone hinvoke =>
      subst hr
      obtain ⟨-, -, hread⟩ := raises_of_invoke hd hnone hinvoke
      exact ⟨d, hd, .inl ⟨hnone, hread⟩⟩
  | unprepared _ _ hprepare =>
      obtain rfl := Except.error.inj hr
      exact absurd trivial (Terminals.ofValues_prepare hprepare).not_isExhausted
  | notSetUp _ _ _ hset =>
      obtain rfl := Except.error.inj hr
      exact absurd trivial (not_isExhausted_bodyOf hset)
  | ran hd hid hprepare hset hran =>
      subst hr
      exact ⟨_, hd, .inr ⟨_, _, _, _, hid, hset, hprepare, hran, rfl⟩⟩

end Context

end CallFlow
