import CallFlow.Proofs.Conformance
import Mathlib.Data.List.Forall2

/-!
# Terminals at another site

What a call does depends on what its terminals hold and on their types, and the site at which they
are only names them in faults.

* **Resolution and answers.**  `Terminals.Resolves`, `Context.Gives` and `Terminals.Takes` say what
  the inputs of a call are, what its implementation answers to them, and that the outputs admit the
  answer, none of them with a site.  A call completes just if all of them hold
  (`Context.invoke_of_gives`, `Context.gives_of_invoke`).
* **Preparation.**  Where the inputs resolve they can be prepared, as long as the values that stand
  in for absent ones are of the declared types (`Terminals.exists_prepare`), and they resolve to the
  same afterwards (`Terminals.prepare_of_isPlain`).
* **Relocation.**  All of it is the same at another site.
-/

namespace CallFlow

/-! ## Faults aside -/

section ToOption

variable {ε ε' α β : Type}

theorem toOption_eq_some {x : Except ε α} {a : α} : x.toOption = some a ↔ x = .ok a := by
  cases x <;> simp [Except.toOption]

theorem toOption_map (x : Except ε α) (f : α → β) : (x.map f).toOption = x.toOption.map f := by
  cases x <;> rfl

/-- A computation over a list succeeds if it does for each element. -/
theorem mapM_eq_ok_iff {f : α → Except ε β} {as : List α} {bs : List β} :
    as.mapM f = .ok bs ↔ List.Forall₂ (fun a b => f a = .ok b) as bs := by
  induction as generalizing bs with
  | nil =>
      rw [List.mapM_nil, List.forall₂_nil_left_iff]
      exact ⟨fun h => (Except.ok.inj h).symm, fun h => congrArg Except.ok h.symm⟩
  | cons a rest ih =>
      rw [List.mapM_cons, List.forall₂_cons_left_iff]
      constructor
      · intro h
        obtain ⟨b, hb, h⟩ := bind_eq_ok h
        obtain ⟨others, hothers, h⟩ := bind_eq_ok h
        exact ⟨b, others, hb, ih.1 hothers, (Except.ok.inj h).symm⟩
      · rintro ⟨b, others, hb, hothers, rfl⟩
        rw [hb, ih.2 hothers]
        rfl

end ToOption

/-! ## Other places -/

/-- The place with another site. -/
def Place.relocate (site : Site) : Place → Place
  | .port _ p n => .port site p n
  | .variable n => .variable n

/-- The terminal at another site. -/
def Terminal.relocate (site : Site) (t : Terminal) : Terminal :=
  { t with place := t.place.relocate site }

/-- The terminals of the call at another site. -/
def Terminals.relocate (site : Site) (ts : Terminals) : Terminals :=
  { params := ts.params.map (Terminal.relocate site)
    receiver := ts.receiver.map (Terminal.relocate site)
    output := ts.output.relocate site
    selfOutput := ts.selfOutput.map (Terminal.relocate site) }

namespace Terminal

variable {t t' : Terminal} {v : Value} {site : Site}

@[simp] theorem name_relocate (site : Site) (t : Terminal) : (t.relocate site).name = t.name := by
  obtain ⟨place, -, -, -, -⟩ := t
  cases place <;> rfl

theorem expect_of_accepts (h : t.valueType.accepts v.valueType = true) : t.expect v = .ok () := by
  rw [expect, if_pos h]

theorem forM_expect_of_accepts {vs : List Value}
    (h : ∀ v ∈ vs, t.valueType.accepts v.valueType = true) :
    vs.forM t.expect = .ok () := by
  induction vs with
  | nil => rfl
  | cons v rest ih =>
      change (t.expect v >>= fun _ => rest.forM t.expect) = .ok ()
      rw [expect_of_accepts (h v (by simp)), ih fun u hu => h u (List.mem_cons_of_mem _ hu)]
      rfl

/-- A whole value passes the check if there is nothing to check or its type is accepted. -/
theorem check_eq_ok_iff :
    t.check none v = .ok () ↔ t.checked = false ∨ t.valueType = .any ∨ t.Accepts v := by
  constructor
  · intro h
    by_cases hchecked : t.checked = true
    · exact .inr (.inr (accepts_of_check (.inl hchecked) h))
    · exact .inl (by simpa using hchecked)
  · intro h
    unfold check
    split
    · rfl
    · rename_i hguard
      have haccepts : t.Accepts v := by
        rcases h with h | h | h
        · exact absurd hguard (by simp [h])
        · exact absurd hguard (by simp [h])
        · exact h
      unfold Accepts at haccepts
      split
      · rename_i helementwise
        rw [if_pos helementwise] at haccepts
        cases v with
        | list items => exact forM_expect_of_accepts haccepts
        | map entries => exact forM_expect_of_accepts haccepts
        | none | bool _ | int _ | float _ | str _ | iterator _ _ =>
            exact expect_of_accepts (haccepts _ (List.mem_singleton.2 rfl))
      · rename_i helementwise
        rw [if_neg helementwise] at haccepts
        exact expect_of_accepts haccepts

/-- The site plays no role in the check, and neither do the contents. -/
theorem check_relocate_iff : (t.relocate site).check none v = .ok () ↔ t.check none v = .ok () := by
  rw [check_eq_ok_iff, check_eq_ok_iff]
  rfl

/-- The terminal with a whole value that was written last. -/
def holding (t : Terminal) (v : Value) : Terminal := { t with cell := ⟨.scalar v, false⟩ }

theorem write_none_eq_ok_iff :
    t.write none v = .ok t' ↔ t.check none v = .ok () ∧ t' = t.holding v := by
  unfold write
  constructor
  · intro h
    split at h
    · rename_i hcheck
      exact ⟨hcheck, (Except.ok.inj h).symm⟩
    · exact absurd h (by simp)
  · rintro ⟨hcheck, rfl⟩
    rw [hcheck]
    rfl

theorem toOption_write_relocate (site : Site) (t : Terminal) (v : Value) :
    ((t.relocate site).write none v).toOption = (t.write none v).toOption.map (relocate site) := by
  refine Option.ext fun t' => ?_
  simp only [Option.map_eq_some_iff, toOption_eq_some, write_none_eq_ok_iff, check_relocate_iff]
  constructor
  · rintro ⟨hcheck, rfl⟩
    exact ⟨t.holding v, ⟨hcheck, rfl⟩, rfl⟩
  · rintro ⟨u, ⟨hcheck, rfl⟩, rfl⟩
    exact ⟨hcheck, rfl⟩

end Terminal

namespace Terminals

variable {ts us : Terminals} {site : Site} {d d' : Description}

theorem relocate_ofParams (site site' : Site) (checked : Bool) (position : Nat) (ps : List Param) :
    (ofParams site checked position ps).map (Terminal.relocate site')
      = ofParams site' checked position ps := by
  induction ps generalizing position with
  | nil => rfl
  | cons p rest ih =>
      rw [ofParams, ofParams, List.map_cons, ih]
      rfl

/-- Unwritten terminals are those of the other site. -/
theorem relocate_ofDescription (d : Description) (site site' : Site) (checked : Bool) :
    (ofDescription d site checked).relocate site' = ofDescription d site' checked := by
  simp only [relocate, ofDescription, relocate_ofParams, Option.map_map]
  rfl

theorem get?_relocate (site : Site) (ts : Terminals) (port : Port) :
    (ts.relocate site).get? port = (ts.get? port).map (Terminal.relocate site) := by
  cases port <;> simp [relocate, get?]

/-- An input is written by name at every site. -/
theorem toOption_writeInput?_relocate (site : Site) (ts : Terminals) (name : String) (v : Value) :
    ((ts.relocate site).writeInput? name v).bind (·.toOption)
      = ((ts.writeInput? name v).bind (·.toOption)).map (relocate site) := by
  have hfind : (ts.relocate site).params.findIdx? (fun t => t.name == name)
      = ts.params.findIdx? fun t => t.name == name := by
    simp [relocate, List.findIdx?_map, Function.comp_def]
  unfold writeInput?
  rw [hfind]
  cases ts.params.findIdx? fun t => t.name == name with
  | some i =>
      cases hi : ts.params[i]? with
      | none => simp [relocate, hi]
      | some t =>
          simp [relocate, hi, toOption_map, Terminal.toOption_write_relocate, List.map_set,
            Function.comp_def]
  | none =>
      cases hr : ts.receiver with
      | none => simp [relocate, hr]
      | some t =>
          by_cases hname : t.name = name
          · simp [relocate, hr, hname, toOption_map, Terminal.toOption_write_relocate,
              Function.comp_def]
          · simp [relocate, hr, hname]

end Terminals

/-- Inputs are bound at every site as at any other, but for faults. -/
theorem Engine.toOption_bindInputs_relocate (d d' : Description) (site : Site) (ts : Terminals)
    (inputs : List (String × Value)) :
    (bindInputs d' (ts.relocate site) inputs).toOption
      = (bindInputs d ts inputs).toOption.map (Terminals.relocate site) := by
  have hcons : ∀ (d : Description) (ts : Terminals) (name : String) (v : Value) rest,
      (bindInputs d ts ((name, v) :: rest)).toOption
        = ((ts.writeInput? name v).bind (·.toOption)).bind fun ts' =>
          (bindInputs d ts' rest).toOption := by
    intro d ts name v rest
    rw [bindInputs]
    cases hwrite : ts.writeInput? name v with
    | none => rfl
    | some written => cases written <;> rfl
  induction inputs generalizing ts with
  | nil => rfl
  | cons input rest ih =>
      obtain ⟨name, v⟩ := input
      rw [hcons d', hcons d, Terminals.toOption_writeInput?_relocate]
      cases (ts.writeInput? name v).bind (·.toOption) with
      | none => rfl
      | some ts' => exact ih ts'

/-! ## What inputs resolve to -/

/-- What an input resolves to, if it does: its fresh value, else what stands in for it. -/
def Terminal.value? (t : Terminal) (p : Param) : Option Value :=
  (if t.isFresh then t.peek else none).or p.fallback?

theorem Terminal.resolve_eq_ok_iff {t : Terminal} {d : Description} {site : Site}
    {p : Param} {v : Value} :
    t.resolve d site p = .ok v ↔ t.value? p = some v := by
  unfold resolve value?
  split
  · rename_i u hu
    simp [hu]
  · rename_i hnone
    rw [hnone, Option.none_or]
    cases p.fallback? <;> simp

namespace Terminals

/-- What the receiver resolves to, where one is declared. -/
def receiverValue? (ts : Terminals) (d : Description) : Option (Option Value) :=
  match d.receiver, ts.receiver with
  | some p, some t => (t.value? p).map some
  | _, _ => some none

/-- The inputs resolve to the values, at any site. -/
structure Resolves (ts : Terminals) (d : Description) (values : List Value)
    (receiver : Option Value) :
    Prop where
  params : List.Forall₂ (fun (input : Param × Terminal) v => input.2.value? input.1 = some v)
    (d.params.zip ts.params) values
  receiver : ts.receiverValue? d = some receiver

variable {ts ts' : Terminals} {d : Description} {site : Site} {values : List Value}
  {receiver : Option Value}

theorem resolveReceiver_eq_ok_iff :
    ts.resolveReceiver d site = .ok receiver ↔ ts.receiverValue? d = some receiver := by
  unfold resolveReceiver receiverValue?
  cases d.receiver with
  | none => simp
  | some p =>
      cases ts.receiver with
      | none => simp
      | some t =>
          rw [← toOption_eq_some, toOption_map]
          simp only [Option.map_eq_some_iff, toOption_eq_some, Terminal.resolve_eq_ok_iff]

theorem resolveAll_eq_ok_iff :
    ts.resolveAll d site = .ok (values, receiver) ↔ ts.Resolves d values receiver := by
  unfold resolveAll
  constructor
  · intro h
    obtain ⟨vs, hvs, h⟩ := bind_eq_ok h
    obtain ⟨r, hr, h⟩ := bind_eq_ok h
    obtain ⟨rfl, rfl⟩ := Prod.mk.inj (Except.ok.inj h)
    refine ⟨(mapM_eq_ok_iff.1 hvs).imp fun _ _ hv => ?_, resolveReceiver_eq_ok_iff.1 hr⟩
    exact Terminal.resolve_eq_ok_iff.1 hv
  · intro h
    rw [mapM_eq_ok_iff.2 (h.params.imp fun _ _ hv => Terminal.resolve_eq_ok_iff.2 hv),
      resolveReceiver_eq_ok_iff.2 h.receiver]
    rfl

end Terminals

/-! ## What implementations answer -/

/-- The arguments are sorted alike whichever terminals they come from. -/
theorem Sorted.toOption_addAll {us us' : List Terminal}
    (hlength : us.length = us'.length) (s : Sorted)
    (ps : List Param) (values : List Value) :
    (addAll s ((ps.zip us).zip values)).toOption =
      (addAll s ((ps.zip us').zip values)).toOption := by
  have hcons : ∀ (s : Sorted) (p : Param) (t : Terminal) (v : Value) rest,
      (addAll s (((p, t), v) :: rest)).toOption
        = (s.add p t v).toOption.bind fun s' => (addAll s' rest).toOption := by
    intro s p t v rest
    rw [addAll]
    cases s.add p t v <;> rfl
  have hadd : ∀ (s : Sorted) (p : Param) (t t' : Terminal) (v : Value),
      (s.add p t v).toOption = (s.add p t' v).toOption := by
    intro s p t t' v
    unfold add
    cases p.kind with
    | positional _ | keyword _ => rfl
    | varPositional | varKeyword => cases v <;> rfl
  induction ps generalizing us us' s values with
  | nil => rfl
  | cons p ps ih =>
      cases us with
      | nil =>
          obtain rfl := List.length_eq_zero_iff.1 hlength.symm
          rfl
      | cons t us =>
          obtain ⟨t', us', rfl⟩ := List.exists_cons_of_length_eq_add_one hlength.symm
          cases values with
          | nil => rfl
          | cons v values =>
              simp only [List.zip_cons_cons, hcons, hadd s p t t' v]
              exact congrArg _ (funext fun s' => ih (by simpa using hlength) s' values)

/-- What is called for a description on a receiver, if nothing is kept of a call. -/
def Context.callable? (ctx : Context) (d : Description) (receiver : Option Value) :
    Option Callable :=
  (ctx.bind d (.entry d.id) none receiver).1.toOption

theorem Context.bind_eq_ok_iff {ctx : Context} {d : Description} {site : Site}
    {receiver : Option Value}
    {f : Callable} : (ctx.bind d site none receiver).1 = .ok f ↔
      ctx.callable? d receiver = some f := by
  rw [callable?, toOption_eq_some]
  unfold bind
  simp only []
  split
  · rfl
  · split
    · rfl
    · simp

/-- The inputs resolve, and the implementation is there and answers to them. -/
def Context.Gives (ctx : Context) (d : Description) (ts : Terminals) (v : Value)
    (receiver : Option Value) :
    Prop :=
  ∃ values r sorted f, ts.Resolves d values r ∧
    (Sorted.addAll {} ((d.params.zip ts.params).zip values)).toOption = some sorted ∧
    ctx.callable? d r = some f ∧
    Invocation.send ⟨(sorted.arguments r).positional, (sorted.arguments r).keyword, r⟩ f =
      ⟨.ok v, receiver⟩

namespace Terminals

variable {ts ts' : Terminals} {v : Value} {receiver : Option Value}

/-- The outputs admit the answer. -/
structure Takes (ts : Terminals) (v : Value) (receiver : Option Value) : Prop where
  output : ts.output.check none v = .ok ()
  selfOutput : ∀ t, ts.selfOutput = some t → t.check none (receiver.getD .none) = .ok ()

/-- The terminals with the answer in the outputs. -/
def answered (ts : Terminals) (v : Value) (receiver : Option Value) : Terminals :=
  { ts with
    output := ts.output.holding v
    selfOutput := ts.selfOutput.map (·.holding (receiver.getD .none)) }

theorem publish_eq_ok_iff :
    ts.publish v receiver = (.ok (), ts') ↔ ts.Takes v receiver ∧ ts' = ts.answered v receiver := by
  unfold publish
  constructor
  · intro h
    split at h
    · exact absurd h (by simp)
    · rename_i output houtput
      obtain ⟨hcheck, rfl⟩ := Terminal.write_none_eq_ok_iff.1 houtput
      simp only [] at h
      split at h
      · rename_i hself
        obtain ⟨-, rfl⟩ := Prod.mk.inj h
        exact ⟨⟨hcheck, fun t ht => absurd (hself.symm.trans ht) (by simp)⟩, by
          simp [answered, hself]⟩
      · rename_i t hself
        split at h
        · exact absurd h (by simp)
        · rename_i t' ht'
          obtain ⟨hcheck', rfl⟩ := Terminal.write_none_eq_ok_iff.1 ht'
          obtain ⟨-, rfl⟩ := Prod.mk.inj h
          refine ⟨⟨hcheck, fun u hu => ?_⟩, by simp [answered, hself]⟩
          obtain rfl := Option.some.inj (hself.symm.trans hu)
          exact hcheck'
  · rintro ⟨⟨houtput, hself⟩, rfl⟩
    rw [Terminal.write_none_eq_ok_iff.2 ⟨houtput, rfl⟩]
    cases ht : ts.selfOutput with
    | none => simp [answered, ht]
    | some t =>
        simp only [Terminal.write_none_eq_ok_iff.2 ⟨hself t ht, rfl⟩]
        simp [answered, ht]

end Terminals

namespace Context

variable {ctx : Context} {d : Description} {a a' : Active} {v : Value} {receiver : Option Value}

/-- A call completes if its implementation gives an answer that its outputs admit. -/
theorem invoke_of_gives (ha : a.handle = none) (hgives : ctx.Gives d a.call.terminals v receiver)
    (htakes : a.call.terminals.Takes v receiver) :
    ∃ handle, ctx.invoke d a = (.ok (),
      { a.withTerminals (a.call.terminals.consumeInputs.answered v receiver) with handle }) := by
  obtain ⟨values, r, sorted, f, hresolves, hsorted, hf, hsend⟩ := hgives
  have hassemble : a.call.terminals.assemble d a.call.site
      = (.ok (sorted.arguments r), a.call.terminals.consumeInputs) := by
    rw [Terminals.assemble, Terminals.resolveAll_eq_ok_iff.2 hresolves]
    simp only [toOption_eq_some.1 hsorted]
    rfl
  have hbind : (ctx.bind d a.call.site a.handle r).1 = .ok f := by
    rw [ha]
    exact bind_eq_ok_iff.2 hf
  have hpublish : a.call.terminals.consumeInputs.publish v receiver
      = (.ok (), a.call.terminals.consumeInputs.answered v receiver) :=
    Terminals.publish_eq_ok_iff.2 ⟨⟨htakes.output, htakes.selfOutput⟩, rfl⟩
  exact ⟨_, invoke_completed hassemble (Prod.ext hbind rfl) hsend hpublish⟩

/-- A call that has completed was given such an answer. -/
theorem gives_of_invoke (ha : a.handle = none) (h : ctx.invoke d a = (.ok (), a')) :
    ∃ v receiver, ctx.Gives d a.call.terminals v receiver ∧ a.call.terminals.Takes v receiver ∧
      a'.call.terminals = a.call.terminals.consumeInputs.answered v receiver := by
  cases invokes_of_invoke h with
  | @answered args ts ts' f handle v receiver _ hassemble hbind hreply hpublish =>
      unfold Terminals.assemble at hassemble
      split at hassemble
      · exact absurd hassemble (by simp)
      · rename_i values r hresolves
        obtain ⟨hargs, rfl⟩ := Prod.mk.inj hassemble
        obtain ⟨sorted, hsorted, rfl⟩ := map_eq_ok hargs
        rw [ha] at hbind
        obtain ⟨htakes, hts⟩ := Terminals.publish_eq_ok_iff.1 hpublish
        exact ⟨v, receiver, ⟨values, r, sorted, f, Terminals.resolveAll_eq_ok_iff.1 hresolves,
          toOption_eq_some.2 hsorted, bind_eq_ok_iff.1 (congrArg Prod.fst hbind), hreply⟩,
          ⟨htakes.output, htakes.selfOutput⟩, hts⟩

end Context

/-! ## Inputs that are bound and prepared -/

namespace Terminal

/-- The terminal holds a whole value that passes its check, which was not read yet. -/
def Holds (t : Terminal) : Prop := ∃ v, t.check none v = .ok () ∧ t.cell = ⟨.scalar v, false⟩

/-- The terminal is unwritten or holds a value. -/
def IsPlain (t : Terminal) : Prop := t.cell = {} ∨ t.Holds

variable {t t' : Terminal} {d : Description} {site : Site} {p : Param} {v : Value}

theorem holds_of_write (h : t.write none v = .ok t') : t'.Holds := by
  obtain ⟨hcheck, rfl⟩ := write_none_eq_ok_iff.1 h
  exact ⟨v, hcheck, rfl⟩

/-- Preparation does not change what an input resolves to. -/
theorem value?_of_prepareOne (h : Terminals.prepareOne d site p t = .ok t') :
    t'.value? p = t.value? p := by
  obtain ⟨hfresh, v, hv, hpeek⟩ := Terminals.prepareOne_eq_ok h
  rw [resolve_eq_ok_iff.1 hv, value?, if_pos hfresh, hpeek]
  rfl

/-- A fresh input is left alone; in another, what stands in for a value is written if it passes the
check. -/
theorem prepareOne_eq_ok_iff :
    Terminals.prepareOne d site p t = .ok t' ↔
      (t.isFresh = true ∧ t' = t) ∨
        t.isFresh = false ∧
        ∃ v, p.fallback? = some v ∧ t.check none v = .ok () ∧ t' = t.holding v := by
  cases hfresh : t.isFresh with
  | true => simp [Terminals.prepareOne, hfresh, eq_comm]
  | false =>
      cases hfallback : p.fallback? with
      | none => simp [Terminals.prepareOne, resolve, hfresh, hfallback]
      | some v => simp [Terminals.prepareOne, resolve, hfresh, hfallback, write_none_eq_ok_iff]

theorem holds_of_prepareOne (ht : t.IsPlain) (h : Terminals.prepareOne d site p t = .ok t') :
    t'.Holds := by
  rcases prepareOne_eq_ok_iff.1 h with ⟨hfresh, rfl⟩ | ⟨-, v, -, hcheck, rfl⟩
  · refine ht.resolve_left fun hcell => ?_
    rw [Terminal.isFresh, hcell] at hfresh
    exact absurd hfresh (by decide)
  · exact ⟨v, hcheck, rfl⟩

/-- An input can be prepared that resolves, if what stands in for a value passes the check. -/
theorem exists_prepareOne (hvalue : t.value? p = some v)
    (hfallback : ∀ u, p.fallback? = some u → t.check none u = .ok ()) :
    ∃ t', Terminals.prepareOne d site p t = .ok t' := by
  cases hfresh : t.isFresh with
  | true => exact ⟨t, prepareOne_eq_ok_iff.2 (.inl ⟨hfresh, rfl⟩)⟩
  | false =>
      have hv : p.fallback? = some v := by simpa [value?, hfresh] using hvalue
      exact ⟨t.holding v, prepareOne_eq_ok_iff.2 (.inr ⟨hfresh, v, hv, hfallback v hv, rfl⟩)⟩

end Terminal

namespace Terminals

variable {ts ts' : Terminals} {P : Terminal → Prop} {d : Description} {site : Site}

/-- Every input terminal has the property. -/
structure EachInput (P : Terminal → Prop) (ts : Terminals) : Prop where
  params : ∀ t ∈ ts.params, P t
  receiver : ∀ t, ts.receiver = some t → P t

theorem EachInput.get? (h : ts.EachInput P) {port : Port} (hport : port.isOutput = false)
    {t : Terminal}
    (ht : ts.get? port = some t) : P t := by
  cases port with
  | param i => exact h.params t (List.mem_of_getElem? ht)
  | receiver => exact h.receiver t ht
  | output | selfOutput => exact absurd hport (by simp [Port.isOutput])

/-- Unwritten terminals are plain. -/
theorem isPlain_ofDescription (d : Description) (site : Site) (checked : Bool) :
    (ofDescription d site checked).EachInput Terminal.IsPlain where
  params t ht := by
    have hempty : ∀ (ps : List Param) (i : Nat), ∀ t ∈ ofParams site checked i ps, t.cell = {} := by
      intro ps
      induction ps with
      | nil => exact fun i t ht => absurd ht (by simp [ofParams])
      | cons p rest ih =>
          intro i t ht
          rcases List.mem_cons.1 ht with rfl | ht
          · rfl
          · exact ih _ t ht
    exact .inl (hempty d.params 0 t ht)
  receiver t ht := by
    obtain ⟨p, -, rfl⟩ := Option.map_eq_some_iff.1 ht
    exact .inl rfl

/-- Inputs that are bound by name are plain if they were. -/
theorem EachInput.bindInputs (h : ts.EachInput Terminal.IsPlain) {inputs : List (String × Value)}
    (hbind : Engine.bindInputs d ts inputs = .ok ts') : ts'.EachInput Terminal.IsPlain := by
  induction inputs generalizing ts with
  | nil =>
      obtain rfl := Except.ok.inj hbind
      exact h
  | cons input rest ih =>
      obtain ⟨name, v⟩ := input
      rw [Engine.bindInputs] at hbind
      split at hbind
      · exact absurd hbind (by simp)
      · exact absurd hbind (by simp)
      · rename_i us hwrite
        refine ih ?_ hbind
        rcases writeInput?_eq_ok hwrite with ⟨i, t, t', -, ht', rfl⟩ | ⟨t, t', -, ht', rfl⟩
        · refine ⟨fun u hu => ?_, h.receiver⟩
          rcases List.mem_or_eq_of_mem_set hu with hu | rfl
          · exact h.params u hu
          · exact .inr (Terminal.holds_of_write ht')
        · refine ⟨h.params, fun u hu => ?_⟩
          obtain rfl := Option.some.inj hu
          exact .inr (Terminal.holds_of_write ht')

/-- What the parameters of two lists of terminals resolve to. -/
abbrev ResolveTo (ps : List Param) (us : List Terminal) : List Value → Prop :=
  List.Forall₂ (fun (input : Param × Terminal) v => input.2.value? input.1 = some v) (ps.zip us)

/-- Parameters that were prepared resolve to what they did before. -/
theorem PreparesEach.resolveTo_iff {ps : List Param} {us us' : List Terminal}
    (h : PreparesEach d site ps us us')
    (values : List Value) : ResolveTo ps us' values ↔ ResolveTo ps us values := by
  induction h generalizing values with
  | done _ | short _ _ => exact Iff.rfl
  | next hfirst _ ih =>
      simp only [ResolveTo, List.zip_cons_cons, List.forall₂_cons_left_iff,
        Terminal.value?_of_prepareOne hfirst]
      simp only [ih]

theorem PreparesEach.holds {ps : List Param} {us us' : List Terminal}
    (h : PreparesEach d site ps us us')
    (hlength : us.length = ps.length) (hplain : ∀ t ∈ us, t.IsPlain) : ∀ t ∈ us', t.Holds := by
  induction h with
  | done _ =>
      obtain rfl := List.length_eq_zero_iff.1 hlength
      simp
  | short _ _ => simp
  | next hfirst _ ih =>
      obtain ⟨hplainFirst, hplainRest⟩ := List.forall_mem_cons.1 hplain
      exact List.forall_mem_cons.2
        ⟨Terminal.holds_of_prepareOne hplainFirst hfirst, ih (by simpa using hlength) hplainRest⟩

theorem exists_preparesEach {ps : List Param} {us : List Terminal} {values : List Value}
    (h : ResolveTo ps us values)
    (hfallback : ∀ p t, (p, t) ∈ ps.zip us → ∀ u, p.fallback? = some u → t.check none u = .ok ()) :
    ∃ us', PreparesEach d site ps us us' := by
  induction ps generalizing us values with
  | nil => exact ⟨us, .done us⟩
  | cons p ps ih =>
      cases us with
      | nil => exact ⟨[], .short p ps⟩
      | cons t us =>
          obtain ⟨v, rest, hv, hrest, -⟩ := List.forall₂_cons_left_iff.1 h
          obtain ⟨t', ht'⟩ : ∃ t', prepareOne d site p t = .ok t' :=
            Terminal.exists_prepareOne hv (hfallback p t (by simp))
          obtain ⟨us', hus'⟩ := ih hrest fun q u hq => hfallback q u (List.mem_cons_of_mem _ hq)
          exact ⟨t' :: us', .next ht' hus'⟩

/-! ### Terminals of a description -/

section OfDescription

variable {site' : Site} {checked : Bool} {values : List Value} {r : Option Value}

theorem length_of_reset_eq (h : ts.reset = .ofDescription d site' checked) :
    ts.params.length = d.params.length := by
  have hlength := congrArg (fun ts : Terminals => ts.params.length) h
  simpa [reset_eq, ofDescription, length_ofParams] using hlength

theorem isSome_receiver_of_reset_eq (h : ts.reset = .ofDescription d site' checked) :
    ts.receiver.isSome = d.receiver.isSome := by
  have hreceiver := congrArg (fun ts : Terminals => ts.receiver.isSome) h
  simpa [reset_eq, ofDescription] using hreceiver

/-- The terminals of parameters have the types of these. -/
theorem type_of_mem_zip {ps : List Param} {us : List Terminal} {position : Nat}
    (h : us.map Terminal.reset = ofParams site' checked position ps) {p : Param} {t : Terminal}
    (ht : (p, t) ∈ ps.zip us) :
    t.valueType = p.valueType ∧ t.elementwise = p.isVariadic ∧ t.checked = checked := by
  induction ps generalizing us position with
  | nil => exact absurd ht (by simp)
  | cons q ps ih =>
      cases us with
      | nil => exact absurd ht (by simp)
      | cons u us =>
          rw [List.map_cons, ofParams] at h
          obtain ⟨hu, hrest⟩ := List.cons.inj h
          rcases List.mem_cons.1 ht with heq | ht
          · obtain ⟨rfl, rfl⟩ := Prod.mk.inj heq
            exact ⟨congrArg Terminal.valueType hu, congrArg Terminal.elementwise hu,
              congrArg Terminal.checked hu⟩
          · exact ih hrest ht

end OfDescription

end Terminals

/-- What stands in for an input without a value is of the declared type: a default, or an empty
aggregate. -/
structure Description.DefaultsConform (d : Description) : Prop where
  params : ∀ p ∈ d.params, ∀ v, p.fallback? = some v →
    if p.isVariadic then ∀ u ∈ v.parts, p.valueType.accepts u.valueType = true
    else p.valueType.accepts v.valueType = true
  receiver :
      ∀ p, d.receiver = some p → ∀ v, p.fallback? = some v → p.valueType.accepts v.valueType = true

namespace Terminals

variable {ts ts' : Terminals} {d : Description} {site site' : Site} {checked : Bool}
  {values : List Value}
  {r : Option Value}

/-- **Preparation succeeds where the inputs resolve**, if what stands in for values is of the
declared types or types are not checked. -/
theorem exists_prepare (hreset : ts.reset = .ofDescription d site' checked)
    (hresolves : ts.Resolves d values r) (hdefaults : checked = true → d.DefaultsConform) :
    ∃ ts', ts.prepare d site = (.ok (), ts') := by
  have hparams : ts.params.map Terminal.reset = ofParams site' checked 0 d.params :=
    congrArg Terminals.params hreset
  obtain ⟨us, hus⟩ : ∃ us, PreparesEach d site d.params ts.params us := by
    refine exists_preparesEach hresolves.params fun p t ht u hu => ?_
    obtain ⟨htype, helementwise, hchecked⟩ := type_of_mem_zip hparams ht
    rw [Terminal.check_eq_ok_iff, Terminal.Accepts, htype, helementwise, hchecked]
    cases checked with
    | false => exact .inl rfl
    | true => exact .inr (.inr ((hdefaults rfl).params p (List.of_mem_zip ht).1 u hu))
  unfold prepare
  rw [prepareParams_eq_ok_iff.2 hus]
  cases hp : d.receiver with
  | none => exact ⟨_, rfl⟩
  | some p =>
      cases ht : ts.receiver with
      | none => exact ⟨_, rfl⟩
      | some t =>
          have hreceiver : some t.reset
              = some (Terminal.ofPort site' .receiver p.name p.valueType false checked) := by
            have hget := congrArg Terminals.receiver hreset
            simpa [reset_eq, ofDescription, hp, ht] using hget
          have ht' : t.reset = Terminal.ofPort site' .receiver p.name p.valueType false checked :=
            Option.some.inj hreceiver
          have hvalue : ∃ v, t.value? p = some v := by
            have hreceiver := hresolves.receiver
            rw [receiverValue?, hp, ht] at hreceiver
            obtain ⟨v, hv, -⟩ := Option.map_eq_some_iff.1 hreceiver
            exact ⟨v, hv⟩
          obtain ⟨v, hv⟩ := hvalue
          obtain ⟨t', hprepared⟩ : ∃ t', prepareOne d site p t = .ok t' := by
            refine Terminal.exists_prepareOne hv fun u hu => ?_
            have htype : t.valueType = p.valueType := congrArg Terminal.valueType ht'
            have helementwise : t.elementwise = false := congrArg Terminal.elementwise ht'
            have hchecked : t.checked = checked := congrArg Terminal.checked ht'
            rw [Terminal.check_eq_ok_iff, Terminal.Accepts, htype, helementwise, hchecked]
            cases checked with
            | false => exact .inl rfl
            | true => exact .inr (.inr (by simpa using (hdefaults rfl).receiver p hp u hu))
          simp only [hprepared]
          exact ⟨_, rfl⟩

/-- Inputs that were prepared resolve to what they did before. -/
theorem resolves_of_prepare (hreceiver : ts.receiver.isSome = d.receiver.isSome)
    (h : ts.prepare d site = (.ok (), ts')) (values : List Value) (r : Option Value) :
    ts'.Resolves d values r ↔ ts.Resolves d values r := by
  obtain ⟨hprepared, hone, -, -⟩ := prepare_eq_ok h
  have hvalues := hprepared.resolveTo_iff values
  have hreceiverValue : ts'.receiverValue? d = ts.receiverValue? d := by
    cases hp : d.receiver with
    | none => simp only [receiverValue?, hp]
    | some p =>
        rw [hp] at hreceiver
        obtain ⟨t, ht⟩ := Option.isSome_iff_exists.1 hreceiver
        obtain ⟨t', ht', hprepared⟩ := hone p t hp ht
        simp only [receiverValue?, hp, ht, ht', Terminal.value?_of_prepareOne hprepared]
  exact ⟨fun h => ⟨hvalues.1 h.params, hreceiverValue ▸ h.receiver⟩,
    fun h => ⟨hvalues.2 h.params, hreceiverValue ▸ h.receiver⟩⟩

/-- **Preparation fills all inputs with what they resolve to.** -/
theorem prepare_of_isPlain (hreset : ts.reset = .ofDescription d site' checked)
    (hplain : ts.EachInput Terminal.IsPlain) (h : ts.prepare d site = (.ok (), ts')) :
    ts'.EachInput Terminal.Holds ∧
    ∀ values r, ts'.Resolves d values r ↔ ts.Resolves d values r := by
  have hlength := length_of_reset_eq hreset
  have hsome := isSome_receiver_of_reset_eq hreset
  refine ⟨?_, resolves_of_prepare hsome h⟩
  obtain ⟨hparams, hreceiver, -, -⟩ := prepare_eq_ok h
  have hreset' : ts'.reset = .ofDescription d site' checked := by
    have hprepare := ts.reset_prepare d site
    rw [h] at hprepare
    exact hprepare.trans hreset
  refine ⟨hparams.holds hlength hplain.params, fun u hu => ?_⟩
  have hp : d.receiver.isSome := by rw [← isSome_receiver_of_reset_eq hreset', hu]; rfl
  obtain ⟨p, hp⟩ := Option.isSome_iff_exists.1 hp
  rw [hp] at hsome
  obtain ⟨t, ht⟩ := Option.isSome_iff_exists.1 hsome
  obtain ⟨t', ht', hprepared⟩ := hreceiver p t hp ht
  obtain rfl := Option.some.inj (ht'.symm.trans hu)
  exact Terminal.holds_of_prepareOne (hplain.receiver t ht) hprepared

/-! ### The same inputs at another site -/

/-- Inputs resolve to the same values at every site. -/
theorem resolves_relocate_iff :
    (ts.relocate site).Resolves d values r ↔ ts.Resolves d values r := by
  have hparams : ResolveTo d.params (ts.relocate site).params values ↔
      ResolveTo d.params ts.params values := by
    rw [ResolveTo, relocate, List.zip_map_right, List.forall₂_map_left_iff]
    rfl
  have hreceiver : (ts.relocate site).receiverValue? d = ts.receiverValue? d := by
    unfold receiverValue? relocate
    cases d.receiver with
    | none => rfl
    | some p => cases ts.receiver <;> rfl
  exact ⟨fun h => ⟨hparams.1 h.params, hreceiver ▸ h.receiver⟩,
    fun h => ⟨hparams.2 h.params, hreceiver ▸ h.receiver⟩⟩

theorem takes_relocate_iff {v : Value} {receiver : Option Value} :
    (ts.relocate site).Takes v receiver ↔ ts.Takes v receiver := by
  constructor
  · intro h
    refine ⟨Terminal.check_relocate_iff.1 h.output, fun t ht => ?_⟩
    exact Terminal.check_relocate_iff.1 (h.selfOutput (t.relocate site) (by simp [relocate, ht]))
  · intro h
    refine ⟨Terminal.check_relocate_iff.2 h.output, fun t ht => ?_⟩
    obtain ⟨u, hu, rfl⟩ := Option.map_eq_some_iff.1 ht
    exact Terminal.check_relocate_iff.2 (h.selfOutput u hu)

theorem answered_relocate (site : Site) (ts : Terminals) (v : Value) (receiver : Option Value) :
    (ts.relocate site).answered v receiver = (ts.answered v receiver).relocate site := by
  simp only [answered, relocate, Option.map_map]
  rfl

end Terminals

/-- An implementation answers to the values of its inputs, wherever they come from. -/
theorem Context.Gives.congr {ctx : Context} {d : Description} {ts ts' : Terminals} {v : Value}
    {receiver : Option Value} (hgives : ctx.Gives d ts v receiver)
    (hlength : ts'.params.length = ts.params.length)
    (hvalues : ∀ values r, ts.Resolves d values r → ts'.Resolves d values r) :
    ctx.Gives d ts' v receiver := by
  obtain ⟨values, r, sorted, f, hresolves, hsorted, hf, hsend⟩ := hgives
  refine ⟨values, r, sorted, f, hvalues values r hresolves, ?_, hf, hsend⟩
  rwa [Sorted.toOption_addAll hlength]

theorem Context.gives_relocate_iff {ctx : Context} {d : Description} {ts : Terminals}
    {site : Site} {v : Value}
    {receiver : Option Value} :
    ctx.Gives d (ts.relocate site) v receiver ↔ ctx.Gives d ts v receiver := by
  have hlength : (ts.relocate site).params.length = ts.params.length := by
    rw [Terminals.relocate, List.length_map]
  exact ⟨fun h => h.congr hlength.symm fun _ _ => Terminals.resolves_relocate_iff.1,
    fun h => h.congr hlength fun _ _ => Terminals.resolves_relocate_iff.2⟩

/-- The results of a function do not depend on its site. -/
theorem Engine.outputsOf_relocate (site : Site) (ts : Terminals) :
    outputsOf (ts.relocate site) = outputsOf ts := by
  unfold outputsOf Terminals.relocate
  have hshown : ∀ t : Terminal, shown (t.relocate site) = shown t := fun _ => rfl
  cases ts.selfOutput <;> simp [hshown]

end CallFlow
