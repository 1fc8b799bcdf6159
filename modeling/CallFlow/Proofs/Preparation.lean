import CallFlow.Proofs.FailedAssembly

/-!
# Preparation and assembly

What stands in for absent inputs is found twice: when arguments are assembled for an
implementation, and when inputs are prepared for a body, which writes it into the terminals.  Both
find the same (`Terminals.agrees_of_description`), except that a write is checked, so that a
default may be refused that is passed to an implementation (`Terminal.Refuses`).
-/

namespace CallFlow

/-! ## One input -/

/-- A declared default stands in for the input, and the terminal checks what is written and does not
accept it. -/
inductive Terminal.Refuses (t : Terminal) (p : Param) : Prop where
  | intro {c : Constant} (stale : t.isFresh = false) (declared : p.default = some c)
      (checked : t.checked = true)
      (refused : ¬ t.Accepts (.ofConstant c))

/-- What stands in for an input is not written only if it is a default that is refused: where a
parameter collects, its terminal takes an empty aggregate whatever the type of the elements. -/
theorem Terminal.Passes.refuses {t : Terminal} {p : Param} {v : Value} (hv : t.Passes p v)
    (hstale : t.isFresh = false)
    (hcheck : t.check none v ≠ .ok ()) (helementwise : p.isVariadic = true → t.elementwise = true) :
    t.Refuses p := by
  rw [ne_eq, Terminal.check_eq_ok_iff, not_or, not_or] at hcheck
  obtain ⟨hchecked, -, hrefused⟩ := hcheck
  have hempty : p.isVariadic = true → v.parts = [] → t.Accepts v := fun hvariadic hparts => by
    rw [Accepts, if_pos (helementwise hvariadic), hparts]
    simp
  cases hv with
  | ingested hfresh _ => exact absurd (hstale.symm.trans hfresh) (by simp)
  | default _ hdeclared => exact .intro hstale hdeclared (by simpa using hchecked) hrefused
  | noItems _ _ hkind => exact absurd (hempty (by rw [Param.isVariadic, hkind]) rfl) hrefused
  | noEntries _ _ hkind => exact absurd (hempty (by rw [Param.isVariadic, hkind]) rfl) hrefused

namespace Terminals

variable {d : Description} {site : Site} {p : Param} {t t' : Terminal} {fault : RunFault}

theorem prepareOne_eq_error (h : prepareOne d site p t = .error fault) :
    t.resolve d site p = .error fault ∨
      t.isFresh = false ∧ (∃ v, t.Passes p v ∧ t.check none v ≠ .ok ()) ∧
        ∃ written, fault = .typeMismatch t.place t.valueType written := by
  unfold prepareOne at h
  split at h
  · exact absurd h (by simp)
  · rename_i hfresh
    split at h
    · rename_i v hv
      have hpasses := Terminal.value?_eq_some_iff.1 (Terminal.resolve_eq_ok_iff.1 hv)
      refine .inr ⟨by simpa using hfresh, ⟨v, hpasses, fun hcheck => ?_⟩, Terminal.write_eq_error h⟩
      exact absurd (h.symm.trans (Terminal.write_none_eq_ok_iff.2 ⟨hcheck, rfl⟩)) (by simp)
    · rename_i fault' hresolve
      obtain rfl := Except.error.inj h
      exact .inl hresolve

/-- An input that resolves to nothing is not prepared. -/
theorem prepareOne_of_resolve_eq_error (h : t.resolve d site p = .error fault) :
    prepareOne d site p t = .error fault := by
  unfold prepareOne
  split
  · rename_i hfresh
    obtain ⟨v, hv⟩ := Cell.exists_peek_of_isFresh hfresh
    exact absurd (.ingested hfresh hv) ((Terminal.resolve_eq_error_iff.1 h).1 v)
  · rw [h]

/-- Neither is one whose default is refused. -/
theorem not_prepareOne_of_refuses (h : t.Refuses p) : prepareOne d site p t ≠ .ok t' := by
  obtain ⟨hstale, hdeclared, hchecked, hrefused⟩ := h
  intro h
  rcases Terminal.prepareOne_eq_ok_iff.1 h with ⟨hfresh, -⟩ | ⟨-, v, hv, hcheck, -⟩
  · exact absurd (hstale.symm.trans hfresh) (by simp)
  · simp only [Param.fallback?, hdeclared, Option.some.injEq] at hv
    obtain rfl := hv
    rcases Terminal.check_eq_ok_iff.1 hcheck with hunchecked | hany | haccepts
    · exact absurd (hchecked.symm.trans hunchecked) (by simp)
    · exact hrefused (Terminal.accepts_of_any hany _)
    · exact hrefused haccepts

end Terminals

/-! ## All inputs -/

namespace Inputs

/-- Prepares inputs, up to the first that fails. -/
def prepare (inputs : Inputs) (d : Description) (site : Site) : Except RunFault (List Terminal) :=
  inputs.mapM fun (p, t) => Terminals.prepareOne d site p t

variable {inputs before : Inputs} {d : Description} {site : Site} {p : Param} {fault : RunFault}

theorem prepare_cons (p : Param) (t : Terminal) (inputs : Inputs) (d : Description) (site : Site) :
    prepare ((p, t) :: inputs) d site = do
      return (← Terminals.prepareOne d site p t) :: (← inputs.prepare d site) :=
  List.mapM_cons

theorem prepare_append (inputs inputs' : Inputs) (d : Description) (site : Site) :
    prepare (inputs ++ inputs') d site = do
      return (← inputs.prepare d site) ++ (← inputs'.prepare d site) :=
  List.mapM_append

/-- Preparation fails at the input that passes nothing, unless before it there is one whose default
is refused. -/
theorem Misses.prepare (h : inputs.Misses before p) (d : Description) (site : Site)
    (helementwise : ∀ q u, (q, u) ∈ before → q.isVariadic = true → u.elementwise = true) :
    ((∀ q u, (q, u) ∈ before → ¬ u.Refuses q) ∧
      inputs.prepare d site = .error (.unresolvedInput site d.name p.name)) ∨
    ∃ q u, (q, u) ∈ before ∧ u.Refuses q ∧
      ∃ written, inputs.prepare d site = .error (.typeMismatch u.place u.valueType written) := by
  obtain ⟨t, after, rfl, hbefore, hnone⟩ := h
  have hone : Terminals.prepareOne d site p t = .error (.unresolvedInput site d.name p.name) :=
    Terminals.prepareOne_of_resolve_eq_error (Terminal.resolve_eq_error_iff.2 ⟨hnone, rfl⟩)
  cases hprepare : Inputs.prepare before d site with
  | ok prepared =>
      have hprepared := exists_mapM_eq_ok_iff.1 ⟨prepared, hprepare⟩
      refine .inl ⟨fun q u hinput hrefuses => ?_,
        mapM_eq_error_iff.2 ⟨before, (p, t), after, rfl, hprepared, hone⟩⟩
      obtain ⟨u', hu'⟩ := hprepared (q, u) hinput
      exact Terminals.not_prepareOne_of_refuses hrefuses hu'
  | error fault =>
      obtain ⟨⟨q, u⟩, hinput, hfault⟩ := exists_of_mapM_eq_error hprepare
      rcases Terminals.prepareOne_eq_error hfault with hresolve |
        ⟨hstale, ⟨v, hv, hcheck⟩, written, rfl⟩
      · obtain ⟨v, hv⟩ := hbefore q u hinput
        exact absurd hv ((Terminal.resolve_eq_error_iff.1 hresolve).1 v)
      · refine .inr ⟨q, u, hinput, hv.refuses hstale hcheck (helementwise q u hinput), written, ?_⟩
        rw [prepare_append, hprepare]
        rfl

/-- An input that preparation misses is one that assembly misses. -/
theorem resolve_of_prepare_eq_error {at' : Site} {function name : String}
    (h : inputs.prepare d site = .error (.unresolvedInput at' function name)) :
    inputs.resolve d site = .error (.unresolvedInput at' function name) := by
  obtain ⟨before, ⟨p, t⟩, after, rfl, hbefore, hone⟩ := mapM_eq_error_iff.1 h
  refine mapM_eq_error_iff.2 ⟨before, (p, t), after, rfl, fun (q, u) hinput => ?_, ?_⟩
  · obtain ⟨u', hu'⟩ := hbefore (q, u) hinput
    obtain ⟨-, v, hv, -⟩ := Terminals.prepareOne_eq_ok hu'
    exact ⟨v, hv⟩
  · rcases Terminals.prepareOne_eq_error hone with hresolve | ⟨-, -, written, hfault⟩
    · exact hresolve
    · exact absurd hfault (by simp)

/-- Sorting fails with a mismatch. -/
theorem Misfits.exists_typeMismatch (h : inputs.Misfits fault) :
    ∃ place type written, fault = .typeMismatch place type written := by
  induction h with
  | here _ _ _ => exact ⟨_, _, _, rfl⟩
  | later _ _ _ ih => exact ih

end Inputs

namespace Terminals

variable {ts ts' : Terminals} {d : Description} {site site' : Site} {checked : Bool}

theorem prepareParams_fst (d : Description) (site : Site) (ps : List Param) (us : List Terminal) :
    (prepareParams d site ps us).1 = (Inputs.prepare (ps.zip us) d site).map fun _ => () := by
  induction ps generalizing us with
  | nil => rfl
  | cons p ps ih =>
      cases us with
      | nil => rfl
      | cons t us =>
          rw [prepareParams, List.zip_cons_cons, Inputs.prepare_cons]
          cases prepareOne d site p t with
          | error fault => rfl
          | ok t' =>
              show (prepareParams d site ps us).1 = _
              rw [ih us]
              cases Inputs.prepare (ps.zip us) d site <;> rfl

/-- Whether preparation succeeds, the receiver being one more parameter. -/
theorem prepare_fst (ts : Terminals) (d : Description) (site : Site) :
    (ts.prepare d site).1 = ((ts.inputs d).prepare d site).map fun _ => () := by
  have hparams := prepareParams_fst d site d.params ts.params
  rw [inputs, Inputs.prepare_append]
  unfold prepare
  split
  · rename_i fault params hprepare
    rw [hprepare] at hparams
    rw [map_eq_error hparams.symm]
    rfl
  · rename_i params hprepare
    rw [hprepare] at hparams
    obtain ⟨prepared, hprepared, -⟩ := map_eq_ok hparams.symm
    rw [hprepared]
    cases d.receiver with
    | none => rfl
    | some p =>
        cases ts.receiver with
        | none => rfl
        | some t =>
            simp only [Option.toList_some, List.zip_cons_cons, Inputs.prepare_cons]
            cases prepareOne d site p t <;> rfl

/-- An assembly misses an input if its inputs do not resolve; whatever else it fails with says
so. -/
theorem assemble_fst_eq_unresolved_iff {at' : Site} {function name : String} :
    (ts.assemble d site).1 = .error (.unresolvedInput at' function name) ↔
      (ts.inputs d).resolve d site = .error (.unresolvedInput at' function name) := by
  rw [← resolveAll_eq_error_iff]
  unfold assemble
  cases hresolved : ts.resolveAll d site with
  | error fault => simp
  | ok resolved =>
      obtain ⟨values, receiver⟩ := resolved
      have hvalues :
          List.Forall₂ (fun input v => input.2.Passes input.1 v) (d.params.zip ts.params) values :=
        (resolveAll_eq_ok_iff.1 hresolved).params.imp fun _ _ hv => Terminal.value?_eq_some_iff.1 hv
      refine iff_of_false (fun h => ?_) (by simp)
      obtain ⟨place, type, written, hfault⟩ :=
        ((Inputs.addAll_eq_error_iff hvalues).1 (map_eq_error h)).exists_typeMismatch
      exact absurd hfault (by simp)

/-! ## Prepared inputs -/

/-- What preparation leaves: every input is fresh, and those that were so before are as they
were. -/
structure Prepared (ts ts' : Terminals) : Prop where
  fresh : ts'.EachInput fun t => t.isFresh = true
  params : List.Forall₂ (fun t t' => t.isFresh = true → t' = t) ts.params ts'.params
  receiver : Option.Rel (fun t t' => t.isFresh = true → t' = t) ts.receiver ts'.receiver
  output : ts'.output = ts.output
  selfOutput : ts'.selfOutput = ts.selfOutput

theorem prepareOne_of_isFresh {p : Param} {t : Terminal} (h : t.isFresh = true) :
    prepareOne d site p t = .ok t := by
  rw [prepareOne, if_pos h]

theorem preparesEach_of_isFresh {ps : List Param} {us : List Terminal}
    (h : ∀ t ∈ us, t.isFresh = true) :
    PreparesEach d site ps us us := by
  induction ps generalizing us with
  | nil => exact .done us
  | cons p ps ih =>
      cases us with
      | nil => exact .short p ps
      | cons t us =>
          obtain ⟨hfirst, hrest⟩ := List.forall_mem_cons.1 h
          exact .next (prepareOne_of_isFresh hfirst) (ih hrest)

/-- Fresh inputs need no preparation. -/
theorem prepare_of_isFresh (h : ts.EachInput fun t => t.isFresh = true) :
    ts.prepare d site = (.ok (), ts) := by
  unfold prepare
  rw [prepareParams_eq_ok_iff.2 (preparesEach_of_isFresh h.params)]
  cases d.receiver with
  | none => rfl
  | some p =>
      cases ht : ts.receiver with
      | none => simp [← ht]
      | some t =>
          simp only [prepareOne_of_isFresh (h.receiver t ht), ← ht]

theorem PreparesEach.prepared {ps : List Param} {us us' : List Terminal}
    (h : PreparesEach d site ps us us')
    (hlength : us.length = ps.length) :
    List.Forall₂ (fun t t' => t'.isFresh = true ∧ (t.isFresh = true → t' = t)) us us' := by
  induction h with
  | done _ =>
      obtain rfl := List.length_eq_zero_iff.1 hlength
      exact .nil
  | short _ _ => exact .nil
  | next hfirst _ ih =>
      refine .cons ⟨(prepareOne_eq_ok hfirst).1, fun hfresh => ?_⟩ (ih (by simpa using hlength))
      exact (Except.ok.inj ((prepareOne_of_isFresh hfresh).symm.trans hfirst)).symm

/-- What a preparation that has succeeded leaves. -/
theorem prepared_of_prepare (hparams : ts.params.length = d.params.length)
    (hreceiver : ts.receiver.isSome = d.receiver.isSome) (h : ts.prepare d site = (.ok (), ts')) :
    ts.Prepared ts' := by
  obtain ⟨hprepared, hone, houtput, hselfOutput⟩ := prepare_eq_ok h
  obtain ⟨hfresh, hkept⟩ := (List.forall₂_and_left ..).1 (hprepared.prepared hparams).flip
  cases ht : ts.receiver with
  | none =>
      have hnone : ts'.receiver = none := by
        have hreset := congrArg Terminals.receiver (ts.reset_prepare d site)
        rw [h] at hreset
        simpa [reset_eq, ht] using hreset
      refine ⟨⟨hfresh, fun t ht' => absurd (hnone.symm.trans ht') (by simp)⟩, hkept.flip, ?_,
        houtput, hselfOutput⟩
      rw [ht, hnone]
      exact .none
  | some t =>
      rw [ht] at hreceiver
      obtain ⟨p, hp⟩ := Option.isSome_iff_exists.1 hreceiver.symm
      obtain ⟨t', ht', hprepared⟩ := hone p t hp ht
      refine ⟨⟨hfresh, fun u hu => ?_⟩, hkept.flip, ?_, houtput, hselfOutput⟩
      · obtain rfl := Option.some.inj (ht'.symm.trans hu)
        exact (prepareOne_eq_ok hprepared).1
      · rw [ht, ht']
        refine .some fun hfresh => ?_
        exact (Except.ok.inj ((prepareOne_of_isFresh hfresh).symm.trans hprepared)).symm

/-- Sorting looks at no terminal but for its place. -/
theorem addAll_congr {us us' : List Terminal}
    (hplaces : us.map Terminal.place = us'.map Terminal.place) (s : Sorted)
    (ps : List Param) (values : List Value) :
    s.addAll ((ps.zip us).zip values) = s.addAll ((ps.zip us').zip values) := by
  have hadd : ∀ (s : Sorted) (p : Param) (t t' : Terminal) (v : Value), t.place = t'.place →
      s.add p t v = s.add p t' v := by
    intro s p t t' v hplace
    unfold Sorted.add
    rw [hplace]
  induction ps generalizing us us' s values with
  | nil => rfl
  | cons p ps ih =>
      cases us with
      | nil =>
          obtain rfl := List.map_eq_nil_iff.1 hplaces.symm
          rfl
      | cons t us =>
          obtain ⟨t', us', rfl, hplace, hplaces⟩ := List.map_eq_cons_iff.1 hplaces.symm
          cases values with
          | nil => rfl
          | cons v values =>
              simp only [List.zip_cons_cons, Sorted.addAll, hadd s p t t' v hplace.symm]
              cases s.add p t' v with
              | error fault => rfl
              | ok s' => exact ih hplaces.symm s' values

/-- What is prepared is assembled to the same as before. -/
theorem assemble_fst_of_prepare (hreceiver : ts.receiver.isSome = d.receiver.isSome)
    (h : ts.prepare d site = (.ok (), ts')) : (ts'.assemble d site).1 = (ts.assemble d site).1 := by
  have hplaces : ts'.params.map Terminal.place = ts.params.map Terminal.place := by
    have hreset := ts.reset_prepare d site
    rw [h] at hreset
    have hparams := congrArg (fun ts : Terminals => ts.params.map Terminal.place) hreset
    simpa [reset_eq, Function.comp_def, Terminal.reset] using hparams
  have hresolves : ∃ resolved, ts.resolveAll d site = .ok resolved := by
    have hprepare := ts.prepare_fst d site
    rw [h] at hprepare
    obtain ⟨prepared, hprepared, -⟩ := map_eq_ok hprepare.symm
    refine exists_resolveAll_iff.2 fun p t hinput => ?_
    obtain ⟨t', ht'⟩ := exists_mapM_eq_ok_iff.1 ⟨prepared, hprepared⟩ (p, t) hinput
    obtain ⟨-, v, hv, -⟩ := prepareOne_eq_ok ht'
    exact ⟨v, Terminal.value?_eq_some_iff.1 (Terminal.resolve_eq_ok_iff.1 hv)⟩
  obtain ⟨⟨values, r⟩, hresolved⟩ := hresolves
  have hresolved' : ts'.resolveAll d site = .ok (values, r) := by
    rw [resolveAll_eq_ok_iff, resolves_of_prepare hreceiver h]
    exact resolveAll_eq_ok_iff.1 hresolved
  unfold assemble
  rw [hresolved, hresolved']
  simp only [addAll_congr hplaces]

/-! ## Agreement -/

/-- How the preparation of inputs agrees with their assembly from the same terminals. -/
structure Agrees (ts : Terminals) (d : Description) (site : Site) : Prop where
  /-- What preparation misses, assembly misses. -/
  missed :
      ∀ at' function name, (ts.prepare d site).1 = .error (.unresolvedInput at' function name) →
    (ts.assemble d site).1 = .error (.unresolvedInput at' function name)
  /-- What assembly misses, preparation misses, unless an input before it has a default that is
  refused. -/
  misses :
      ∀ at' function name, (ts.assemble d site).1 = .error (.unresolvedInput at' function name) →
    ∃ before p, (ts.inputs d).Misses before p ∧ name = p.name ∧
      (((∀ q u, (q, u) ∈ before → ¬ u.Refuses q) ∧
          (ts.prepare d site).1 = .error (.unresolvedInput at' function name)) ∨
        ∃ q u, (q, u) ∈ before ∧ u.Refuses q ∧
          ∃ written, (ts.prepare d site).1 = .error (.typeMismatch u.place u.valueType written))
  /-- What is prepared stays so, and is assembled to what it would have been. -/
  prepared : ∀ ts', ts.prepare d site = (.ok (), ts') →
    ts.Prepared ts' ∧ ts'.prepare d site = (.ok (), ts') ∧
      (ts'.assemble d site).1 = (ts.assemble d site).1

/-- The terminals of parameters that collect are of the type of the elements; the receiver stands
last. -/
theorem elementwise_of_misses {before : Inputs} {p : Param}
    (hbuilt : ts.reset = .ofDescription d site' checked)
    (hmisses : (ts.inputs d).Misses before p) :
    ∀ q u, (q, u) ∈ before → q.isVariadic = true → u.elementwise = true := by
  obtain ⟨t, after, hsplit, -⟩ := hmisses
  have hlength : before.length ≤ (d.params.zip ts.params).length := by
    have hinputs := congrArg List.length hsplit
    have hreceiver : (d.receiver.toList.zip ts.receiver.toList).length ≤ 1 := by
      rw [List.length_zip]
      exact (Nat.min_le_left ..).trans (by cases d.receiver <;> simp)
    rw [inputs, List.length_append, List.length_append, List.length_cons] at hinputs
    omega
  have hfirst : before <+: d.params.zip ts.params :=
    List.prefix_of_prefix_length_le ⟨_, hsplit.symm⟩ (List.prefix_append ..) hlength
  intro q u hinput hvariadic
  obtain ⟨-, helementwise, -⟩ :=
    type_of_mem_zip (congrArg Terminals.params hbuilt) (hfirst.subset hinput)
  exact helementwise.trans hvariadic

/-- **Preparation agrees with assembly**, for terminals that were set up for the description,
whatever they hold. -/
theorem agrees_of_description (hbuilt : ts.reset = .ofDescription d site' checked) :
    ts.Agrees d site where
  missed at' function name h := by
    rw [prepare_fst] at h
    exact assemble_fst_eq_unresolved_iff.2 (Inputs.resolve_of_prepare_eq_error (map_eq_error h))
  misses at' function name h := by
    obtain ⟨before, p, hmisses, hfault⟩ :=
      Inputs.resolve_eq_error_iff.1 (assemble_fst_eq_unresolved_iff.1 h)
    obtain ⟨rfl, rfl, rfl⟩ : at' = site ∧ function = d.name ∧ name = p.name := by simpa using hfault
    refine ⟨before, p, hmisses, rfl, ?_⟩
    rcases hmisses.prepare d at' (elementwise_of_misses hbuilt hmisses) with
      ⟨haccepted, hfails⟩ | ⟨q, u, hinput, hrefuses, written, hfails⟩
    · refine .inl ⟨haccepted, ?_⟩
      rw [prepare_fst, hfails]
      rfl
    · refine .inr ⟨q, u, hinput, hrefuses, written, ?_⟩
      rw [prepare_fst, hfails]
      rfl
  prepared ts' h := by
    have hreceiver := isSome_receiver_of_reset_eq hbuilt
    have hprepared := prepared_of_prepare (length_of_reset_eq hbuilt) hreceiver h
    exact ⟨hprepared, prepare_of_isFresh hprepared.fresh, assemble_fst_of_prepare hreceiver h⟩

end Terminals

namespace Sample

/-- Terminals of a function with parameters of every kind: fresh values and an aggregate that is put
together, a default in the place of nothing and one in that of a value that was read, and nothing
where entries are collected. -/
def partly : Terminals :=
  let cells : List Cell :=
    [⟨.scalar (.int 2), false⟩, {}, ⟨.scalar (.str "!"), true⟩, ⟨.scalar (.int 1), false⟩,
    ⟨.list [(4, .int 4), (0, .int 3)], false⟩, {}]
  let ts := Terminals.ofDescription join (.entry ⟨0⟩) true
  { ts with params := List.zipWith (fun t cell => { t with cell }) ts.params cells }

end Sample

/-- All inputs are prepared, the fresh ones are left alone, and the arguments are those of the same
call without. -/
theorem Terminals.agrees_of_description_sample :
    ∃ ts', Sample.partly.prepare Sample.join (.entry ⟨0⟩) = (.ok (), ts') ∧
      Sample.partly.Prepared ts' ∧
      ts'.params.map Terminal.peek = [some (.int 2), some (.str ","), some (.str "."),
        some (.int 1),
        some (.list [.int 3, .int 4]), some (.map [])] ∧
      ts'.prepare Sample.join (.entry ⟨0⟩) = (.ok (), ts') ∧
      (ts'.assemble Sample.join (.entry ⟨0⟩)).1 =
        (Sample.partly.assemble Sample.join (.entry ⟨0⟩)).1 := by
  have hagrees : Sample.partly.Agrees Sample.join (.entry ⟨0⟩) := agrees_of_description rfl
  have hprepare : Sample.partly.prepare Sample.join (.entry ⟨0⟩) = (.ok (), _) := rfl
  obtain ⟨hprepared, hagain, hassemble⟩ := hagrees.prepared _ hprepare
  exact ⟨_, hprepare, hprepared, rfl, hagain, hassemble⟩

end CallFlow
