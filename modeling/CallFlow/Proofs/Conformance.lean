import CallFlow.Proofs.Assoc
import CallFlow.Proofs.Stages

/-!
# Values conform to declared types

In an engine that checks types, every terminal is unwritten or shows a value that its type
accepts, at every stage of an execution (`Terminal.invariant_conforms`).  The type is the one that
the graph declares (`Stage.declared_of_passes`).

So implementations are called with accepted values, or with defaults (`Active.Sends.suppliedBy`),
and functions have results of the declared types (`Engine.yields_of_executeWithin`).  A write that
a check rejects changes nothing (`Scene.write_eq_error`).  `Engine.typeSafe_of_checked` puts this
together.
-/

namespace CallFlow

/-! ## Accepted values -/

/-- The parts of a value to which the type of a variadic parameter applies: the elements of a list
or a map, and any other value itself. -/
def Value.parts : Value → List Value
  | .list items => items
  | .map entries => Assoc.values entries
  | v => [v]

/-- The container into which a strategy writes an element. -/
def Strategy.container : Strategy → ValueType
  | .index _ | .append => .list
  | .key _ => .map

namespace Terminal

/-- The type of the terminal accepts the value, or every part of it where it is the type of each
element. -/
def Accepts (t : Terminal) (v : Value) : Prop :=
  if t.elementwise then ∀ u ∈ v.parts, t.valueType.accepts u.valueType = true
  else t.valueType.accepts v.valueType = true

/-- The terminal is checked, or has no type to check, and its type accepts what it shows. -/
structure Conforms (t : Terminal) : Prop where
  guarded : t.checked = true ∨ t.valueType = .any
  accepts : ∀ v, t.peek = some v → t.Accepts v

end Terminal

theorem ValueType.accepts_self (type : ValueType) : type.accepts type = true := by
  cases type <;> rfl

namespace Terminal

variable {t t' : Terminal} {v : Value} {strategy : Option Strategy}

theorem accepts_of_expect (h : t.expect v = .ok ()) : t.valueType.accepts v.valueType = true := by
  unfold expect at h
  split at h
  · assumption
  · exact absurd h (by simp)

theorem accepts_of_forM {vs : List Value} (h : vs.forM t.expect = .ok ()) :
    ∀ v ∈ vs, t.valueType.accepts v.valueType = true := by
  induction vs with
  | nil => exact fun v hv => absurd hv (by simp)
  | cons u rest ih =>
      obtain ⟨_, hu, hrest⟩ := bind_eq_ok h
      intro v hv
      rcases List.mem_cons.1 hv with rfl | hv
      · exact accepts_of_expect hu
      · exact ih hrest v hv

theorem accepts_of_any (h : t.valueType = .any) (v : Value) : t.Accepts v := by
  simp only [Accepts, h, ValueType.accepts]
  split <;> simp

/-- A whole value that passes the check is accepted. -/
theorem accepts_of_check (hguarded : t.checked = true ∨ t.valueType = .any)
    (h : t.check none v = .ok ()) :
    t.Accepts v := by
  by_cases hany : t.valueType = .any
  · exact accepts_of_any hany v
  have hchecked : t.checked = true := hguarded.resolve_right hany
  unfold check at h
  rw [if_neg (by simp [hchecked, hany])] at h
  unfold Accepts
  split at h
  · rename_i helementwise
    rw [if_pos helementwise]
    intro u hu
    cases v with
    | list items => exact accepts_of_forM h u hu
    | map entries => exact accepts_of_forM h u hu
    | none | bool _ | int _ | float _ | str _ | iterator _ _ =>
        obtain rfl := List.mem_singleton.1 hu
        exact accepts_of_expect h
  · rename_i helementwise
    rw [if_neg helementwise]
    exact accepts_of_expect h

/-- An element that passes the check is accepted itself, or its container is. -/
theorem allows_of_check {s : Strategy} (hguarded : t.checked = true ∨ t.valueType = .any)
    (h : t.check (some s) v = .ok ()) :
    if t.elementwise then t.valueType.accepts v.valueType = true
    else t.valueType.accepts s.container = true := by
  by_cases hany : t.valueType = .any
  · simp [hany, ValueType.accepts]
  have hchecked : t.checked = true := hguarded.resolve_right hany
  have hcontainer : ∀ {container}, t.expectContainer container v = .ok () →
      t.valueType.accepts container = true := fun {container} h => by
    unfold expectContainer at h
    split at h
    · rename_i heq
      rw [heq]
      exact container.accepts_self
    · exact absurd h (by simp)
  unfold check at h
  rw [if_neg (by simp [hchecked, hany])] at h
  split at h
  · rename_i helementwise
    rw [if_pos helementwise]
    exact accepts_of_expect h
  · rename_i helementwise
    rw [if_neg helementwise]
    cases s with
    | index _ | append | key _ => exact hcontainer h

end Terminal

/-! ## Elements of a cell -/

namespace Cell

/-- What the next write adds to is what the cell holds. -/
theorem contents_of_base {c : Cell} {contents : Contents} (h : c.base = contents)
    (hne : contents ≠ .empty) : c.contents = contents := by
  unfold base at h
  split at h
  · exact absurd h.symm hne
  · exact h

/-- A list that is put together shows the element that was written, and others that were there. -/
theorem exists_peek_writeIndex (c : Cell) (position : Nat) (v : Value) :
    ∃ us, (c.writeIndex position v).peek = some (.list us) ∧
      ∀ u ∈ us, u = v ∨ ∃ old, c.peek = some old ∧ u ∈ old.parts := by
  unfold writeIndex
  cases hbase : c.base with
  | list items =>
      refine ⟨_, rfl, fun u hu => ?_⟩
      obtain ⟨⟨k, w⟩, hentry, rfl⟩ := List.mem_map.1 (List.mem_reverse.1 hu)
      rcases Assoc.mem_insertSorted hentry with heq | hold
      · exact .inl (Prod.mk.inj heq).2
      · refine .inr ⟨.list (Assoc.values items).reverse, ?_,
          List.mem_reverse.2 (List.mem_map_of_mem (f := (·.2)) hold)⟩
        simp [peek, contents_of_base hbase (by simp)]
  | empty | scalar _ | map _ => exact ⟨[v], rfl, fun u hu => .inl (List.mem_singleton.1 hu)⟩

theorem exists_peek_writeKey (c : Cell) (key : String) (v : Value) :
    ∃ entries, (c.writeKey key v).peek = some (.map entries) ∧
      ∀ u ∈ Assoc.values entries, u = v ∨ ∃ old, c.peek = some old ∧ u ∈ old.parts := by
  unfold writeKey
  cases hbase : c.base with
  | map entries =>
      refine ⟨_, rfl, fun u hu => ?_⟩
      obtain ⟨⟨k, w⟩, hentry, rfl⟩ := List.mem_map.1 hu
      rcases Assoc.mem_insert hentry with heq | hold
      · exact .inl (Prod.mk.inj heq).2
      · refine .inr ⟨.map entries, ?_, List.mem_map_of_mem (f := (·.2)) hold⟩
        simp [peek, contents_of_base hbase (by simp)]
  | empty | scalar _ | list _ => exact ⟨[(key, v)], rfl, fun u hu => .inl (List.mem_singleton.1 hu)⟩

/-- **Writing an element gives a container of it and of parts that were there.** -/
theorem exists_peek_writeBy (c : Cell) (s : Strategy) (v : Value) :
    ∃ shown, (c.writeBy (some s) v).peek = some shown ∧ shown.valueType = s.container ∧
      ∀ u ∈ shown.parts, u = v ∨ ∃ old, c.peek = some old ∧ u ∈ old.parts := by
  cases s with
  | index i =>
      obtain ⟨us, hus, hparts⟩ := c.exists_peek_writeIndex i v
      exact ⟨_, hus, rfl, hparts⟩
  | append =>
      obtain ⟨us, hus, hparts⟩ := c.exists_peek_writeIndex (nextPosition c.base) v
      exact ⟨_, hus, rfl, hparts⟩
  | key k =>
      obtain ⟨entries, hentries, hparts⟩ := c.exists_peek_writeKey k v
      exact ⟨_, hentries, rfl, hparts⟩

end Cell

/-! ## Conformity is an invariant -/

namespace Terminal

/-- A write keeps conformity. -/
theorem Conforms.write {t t' : Terminal} {strategy : Option Strategy} {v : Value} (h : t.Conforms)
    (hwrite : t.write strategy v = .ok t') : t'.Conforms := by
  have hcheck : t.check strategy v = .ok () := by
    unfold Terminal.write at hwrite
    split at hwrite
    · assumption
    · exact absurd hwrite (by simp)
  rw [write_eq_ok hwrite]
  refine ⟨h.guarded, fun shown hshown => ?_⟩
  change (t.cell.writeBy strategy v).peek = some shown at hshown
  change t.Accepts shown
  cases strategy with
  | none =>
      obtain rfl := Option.some.inj hshown
      exact accepts_of_check h.guarded hcheck
  | some s =>
      obtain ⟨shown', hshown', htype, hparts⟩ := t.cell.exists_peek_writeBy s v
      obtain rfl := Option.some.inj (hshown'.symm.trans hshown)
      have hallows := allows_of_check h.guarded hcheck
      unfold Accepts
      split at hallows
      · rename_i helementwise
        rw [if_pos helementwise]
        intro u hu
        rcases hparts u hu with rfl | ⟨old, hold, hu⟩
        · exact hallows
        · have haccepts := h.accepts old hold
          rw [Accepts, if_pos helementwise] at haccepts
          exact haccepts u hu
      · rename_i helementwise
        rw [if_neg helementwise, htype]
        exact hallows

/-- **Conformity is an invariant of checked terminals.** -/
theorem invariant_conforms : Invariant true Conforms where
  ofPort _ _ _ _ _ := ⟨.inl rfl, fun v hv => absurd hv (by simp [ofPort, peek, Cell.peek])⟩
  ofVariable _ := ⟨.inr rfl, fun v hv => absurd hv (by simp [ofVariable, peek, Cell.peek])⟩
  reset h := ⟨h.guarded, fun v hv => absurd hv (by simp [reset, Cell.clear, peek, Cell.peek])⟩
  consume h := ⟨h.guarded, h.accepts⟩
  write h hwrite := h.write hwrite

end Terminal

/-! ## Writes that are rejected -/

/-- Writes that fail do so at one of them, and leave what those before it have written. -/
theorem Terminal.exists_rejected {t : Terminal} {writes : List (Option Strategy × Value)}
    {fault : RunFault} (h : (t.writeAll writes).1 = .error fault) :
    ∃ done rejected rest, writes = done ++ rejected :: rest ∧
      t.writeAll done = (.ok (), (t.writeAll writes).2) ∧
      (t.writeAll writes).2.write rejected.1 rejected.2 = .error fault := by
  induction writes generalizing t with
  | nil => exact absurd h (by simp [writeAll])
  | cons w rest ih =>
      obtain ⟨strategy, v⟩ := w
      cases hwrite : t.write strategy v with
      | ok t' =>
          simp only [writeAll, hwrite] at h ⊢
          obtain ⟨done, rejected, later, rfl, hdone, hrejected⟩ := ih h
          exact ⟨(strategy, v) :: done, rejected, later,
            rfl, by simp only [writeAll, hwrite, hdone], hrejected⟩
      | error fault' =>
          simp only [writeAll, hwrite] at h ⊢
          obtain rfl := Except.error.inj h
          exact ⟨[], (strategy, v), rest, rfl, rfl, hwrite⟩

/-- **A write that is rejected changes nothing**: the scene is as the writes before it have left
it. -/
theorem Scene.write_eq_error {s s' : Scene} {slot : Slot} {writes : List (Option Strategy × Value)}
    {fault : RunFault} (h : s.write slot writes = (.error fault, s')) :
    ∃ done rejected rest b s'', writes = done ++ rejected :: rest ∧
      s.write slot done = (.ok b, s'') ∧ ∀ slot', s'.terminal? slot' = s''.terminal? slot' := by
  cases writes with
  | nil => exact absurd h (by simp [write])
  | cons w rest =>
      unfold write at h
      cases ht : s.terminal? slot with
      | none =>
          simp only [ht, Prod.mk.injEq] at h
          obtain ⟨-, rfl⟩ := h
          exact ⟨[], w, rest, false, s, rfl, rfl, fun _ => rfl⟩
      | some t =>
          simp only [ht, Prod.mk.injEq] at h
          obtain ⟨hresult, rfl⟩ := h
          obtain ⟨done, rejected, later, hwrites, hdone, -⟩ :=
            Terminal.exists_rejected (map_eq_error hresult)
          cases done with
          | nil =>
              refine ⟨[], rejected, later, false, s, hwrites, rfl, fun slot' => ?_⟩
              obtain ⟨-, hsame⟩ := Prod.mk.inj hdone
              rw [terminal?_put ht, ← hsame]
              split
              · rename_i heq
                rw [← heq, ht]
              · rfl
          | cons w' done =>
              refine ⟨w' :: done, rejected, later, true, s.put slot (t.writeAll (w :: rest)).2,
                hwrites, ?_, fun _ => rfl⟩
              simp only [write, ht, hdone]
              rfl

/-- An answer that is rejected leaves all terminals as they were, or all but the output if it is the
self-output that does not take what it is given. -/
theorem Terminals.publish_eq_error {ts ts' : Terminals} {v : Value} {receiver : Option Value}
    {fault : RunFault} (h : ts.publish v receiver = (.error fault, ts')) :
    ts' = ts ∨ ∃ output, ts.output.write none v = .ok output ∧ ts' = { ts with output } := by
  unfold publish at h
  split at h
  · exact .inl (Prod.mk.inj h).2.symm
  · rename_i output houtput
    simp only [] at h
    split at h
    · exact absurd h (by simp)
    · split at h
      · exact .inr ⟨output, houtput, (Prod.mk.inj h).2.symm⟩
      · exact absurd h (by simp)

/-! ## Arguments -/

/-- What an input can give: what its terminal shows, if it was written since the call last read it,
which its type accepts; and else the default of the parameter, or an empty aggregate. -/
inductive Terminal.Supplies (t : Terminal) (p : Param) : Value → Prop where
  | ingested {v : Value} (fresh : t.isFresh = true) (shown : t.peek = some v)
      (accepted : t.Accepts v) :
      Supplies t p v
  | standIn {v : Value} (stale : t.isFresh = false) (fallback : p.fallback? = some v) :
      Supplies t p v

/-- What an implementation is called with comes from the inputs of a call: from parameters by the
way they are passed, from the elements of aggregates, and from the receiver. -/
structure Invocation.SuppliedBy (inv : Invocation) (d : Description) (ts : Terminals) : Prop where
  args : ∀ v ∈ inv.args, ∃ p t u, (p, t) ∈ d.params.zip ts.params ∧ t.Supplies p u ∧
    ((∃ i, p.kind = .positional i ∧ v = u) ∨
      p.kind = .varPositional ∧ ∃ items, u = .list items ∧ v ∈ items)
  kwargs : ∀ name v, (name, v) ∈ inv.kwargs → ∃ p t u, (p, t) ∈ d.params.zip ts.params ∧
    t.Supplies p u ∧
    (p.kind = .keyword name ∧ v = u ∨
      p.kind = .varKeyword ∧ ∃ entries, u = .map entries ∧ (name, v) ∈ entries)
  receiver : ∀ v, inv.receiver = some v →
    ∃ p t, d.receiver = some p ∧ ts.receiver = some t ∧ t.Supplies p v

/-- The implementation of the call is called so: the call has no body, and these are its
arguments. -/
def Active.Sends (ctx : Context) (a : Active) (d : Description) (inv : Invocation) : Prop :=
  ctx.graph.function a.call.function = .ok d ∧ d.body = none ∧
    ∃ args ts, a.call.terminals.assemble d a.call.site = (.ok args, ts) ∧
      inv = ⟨args.positional, args.keyword, args.receiver⟩

/-- What was sorted comes from the list of values, each by the kind of its parameter. -/
structure Sorted.From (values : List ((Param × Terminal) × Value)) (s : Sorted) : Prop where
  positional : ∀ i v, (i, v) ∈ s.positional → ∃ p t, ((p, t), v) ∈ values ∧ p.kind = .positional i
  keyword : ∀ name v, (name, v) ∈ s.keyword → ∃ p t, ((p, t), v) ∈ values ∧ p.kind = .keyword name
  items : ∀ v ∈ s.items,
    ∃ p t items, ((p, t), .list items) ∈ values ∧ p.kind = .varPositional ∧ v ∈ items
  entries : ∀ e ∈ s.entries, ∃ p t entries, ((p, t), .map entries) ∈ values ∧ p.kind = .varKeyword ∧
    e ∈ entries

theorem Sorted.From.add {values : List ((Param × Terminal) × Value)} {s s' : Sorted} {p : Param}
    {t : Terminal} {v : Value} (h : s.From values) (hmem : ((p, t), v) ∈ values)
    (hadd : s.add p t v = .ok s') : s'.From values := by
  unfold Sorted.add at hadd
  split at hadd
  · rename_i i hkind
    obtain rfl := Except.ok.inj hadd
    refine { h with positional := fun i' v' hv' => ?_ }
    rcases List.mem_append.1 hv' with hv' | hv'
    · exact h.positional i' v' hv'
    · obtain ⟨rfl, rfl⟩ := Prod.mk.inj (List.mem_singleton.1 hv')
      exact ⟨p, t, hmem, hkind⟩
  · rename_i name hkind
    obtain rfl := Except.ok.inj hadd
    refine { h with keyword := fun name' v' hv' => ?_ }
    rcases Assoc.mem_insert hv' with heq | hv'
    · obtain ⟨rfl, rfl⟩ := Prod.mk.inj heq
      exact ⟨p, t, hmem, hkind⟩
    · exact h.keyword name' v' hv'
  · rename_i hkind
    split at hadd
    · rename_i items
      obtain rfl := Except.ok.inj hadd
      exact { h with items := fun v hv => ⟨p, t, items, hmem, hkind, hv⟩ }
    · exact absurd hadd (by simp)
  · rename_i hkind
    split at hadd
    · rename_i entries
      obtain rfl := Except.ok.inj hadd
      exact { h with entries := fun e he => ⟨p, t, entries, hmem, hkind, he⟩ }
    · exact absurd hadd (by simp)

theorem Sorted.From.addAll {values rest : List ((Param × Terminal) × Value)} {s s' : Sorted}
    (h : s.From values) (hrest : ∀ e ∈ rest, e ∈ values) (hadd : s.addAll rest = .ok s') :
    s'.From values := by
  induction rest generalizing s with
  | nil => exact Except.ok.inj hadd ▸ h
  | cons entry rest ih =>
      obtain ⟨⟨p, t⟩, v⟩ := entry
      rw [Sorted.addAll] at hadd
      split at hadd
      · rename_i s₁ hs₁
        exact ih (h.add (hrest _ (by simp)) hs₁)
          (fun e he => hrest e (List.mem_cons_of_mem _ he)) hadd
      · exact absurd hadd (by simp)

/-- An input that resolves gives what it can. -/
theorem Terminal.supplies_of_resolve {t : Terminal} {d : Description} {site : Site} {p : Param}
    {v : Value} (ht : t.Conforms) (h : t.resolve d site p = .ok v) : t.Supplies p v := by
  unfold resolve at h
  cases hfresh : t.isFresh with
  | true =>
      obtain ⟨u, hu⟩ := Cell.exists_peek_of_isFresh hfresh
      rw [hfresh, if_pos rfl, show t.peek = some u from hu] at h
      obtain rfl := Except.ok.inj h
      exact .ingested hfresh hu (ht.accepts u hu)
  | false =>
      rw [hfresh, if_neg (by simp)] at h
      split at h
      · rename_i heq
        exact absurd heq (by simp)
      · split at h
        · rename_i u hu
          obtain rfl := Except.ok.inj h
          exact .standIn hfresh hu
        · exact absurd h (by simp)

theorem Terminals.exists_receiver_of_resolve {ts : Terminals} {d : Description}
    {site : Site} {v : Value}
    (h : ts.resolveReceiver d site = .ok (some v)) :
    ∃ p t, d.receiver = some p ∧ ts.receiver = some t ∧ t.resolve d site p = .ok v := by
  unfold resolveReceiver at h
  split at h
  · rename_i p t hp ht
    obtain ⟨u, hresolve, hv⟩ := map_eq_ok h
    obtain rfl := Option.some.inj hv
    exact ⟨p, t, hp, ht, hresolve⟩
  · exact absurd h (by simp)

/-- **An implementation is called with accepted values, and with defaults and empty aggregates where
nothing was ingested.** -/
theorem Active.Sends.suppliedBy {ctx : Context} {a : Active} {d : Description} {inv : Invocation}
    (h : a.Sends ctx d inv) (ha : a.All Terminal.Conforms) : inv.SuppliedBy d a.call.terminals := by
  obtain ⟨-, -, args, ts, hassemble, rfl⟩ := h
  obtain ⟨-, resolved, sorted, hresolved, hsorted, rfl⟩ := Terminals.assemble_eq_ok hassemble
  obtain ⟨values, hvalues, hrest⟩ := bind_eq_ok hresolved
  obtain ⟨receiver, hreceiver, hpair⟩ := bind_eq_ok hrest
  obtain rfl := Except.ok.inj hpair
  have hsupplies : ∀ p t v, ((p, t), v) ∈ (d.params.zip a.call.terminals.params).zip values →
      (p, t) ∈ d.params.zip a.call.terminals.params ∧ t.Supplies p v := by
    intro p t v hmem
    obtain ⟨i, hi⟩ := List.mem_iff_getElem?.1 hmem
    obtain ⟨hinput, hv⟩ := List.getElem?_zip_eq_some.1 hi
    obtain ⟨u, hu, hvalue⟩ := getElem?_of_mapM_eq_ok hvalues hinput
    obtain rfl : u = v := Option.some.inj (hvalue.symm.trans hv)
    have hpt := List.mem_of_getElem? hinput
    exact ⟨hpt, Terminal.supplies_of_resolve (ha.terminals.params t (List.of_mem_zip hpt).2) hu⟩
  have hfrom : sorted.From ((d.params.zip a.call.terminals.params).zip values) :=
    Sorted.From.addAll ⟨fun _ _ h => absurd h (by simp), fun _ _ h => absurd h (by simp),
      fun _ h => absurd h (by simp), fun _ h => absurd h (by simp)⟩ (fun e he => he) hsorted
  refine ⟨fun v hv => ?_, fun name v hv => ?_, fun v hv => ?_⟩
  · rcases List.mem_append.1 hv with hv | hv
    · obtain ⟨⟨i, v'⟩, hmem, rfl⟩ := List.mem_map.1 hv
      obtain ⟨p, t, hvalue, hkind⟩ := hfrom.positional i v' (List.mem_mergeSort.1 hmem)
      obtain ⟨hpt, hsupplied⟩ := hsupplies p t _ hvalue
      exact ⟨p, t, _, hpt, hsupplied, .inl ⟨i, hkind, rfl⟩⟩
    · obtain ⟨p, t, items, hvalue, hkind, hin⟩ := hfrom.items v hv
      obtain ⟨hpt, hsupplied⟩ := hsupplies p t _ hvalue
      exact ⟨p, t, _, hpt, hsupplied, .inr ⟨hkind, items, rfl, hin⟩⟩
  · rcases Assoc.mem_insertAll hv with hv | hv
    · obtain ⟨p, t, hvalue, hkind⟩ := hfrom.keyword name v hv
      obtain ⟨hpt, hsupplied⟩ := hsupplies p t _ hvalue
      exact ⟨p, t, _, hpt, hsupplied, .inl ⟨hkind, rfl⟩⟩
    · obtain ⟨p, t, entries, hvalue, hkind, hin⟩ := hfrom.entries _ hv
      obtain ⟨hpt, hsupplied⟩ := hsupplies p t _ hvalue
      exact ⟨p, t, _, hpt, hsupplied, .inr ⟨hkind, entries, rfl, hin⟩⟩
  · obtain rfl : receiver = some v := hv
    obtain ⟨p, t, hp, ht, hresolve⟩ := Terminals.exists_receiver_of_resolve hreceiver
    exact ⟨p, t, hp, ht, Terminal.supplies_of_resolve (ha.terminals.receiver t ht) hresolve⟩

/-! ## Results -/

/-- The results of the function, by name: an output that its declared type accepts, and beside it a
self-output that its own declared type accepts, where the function has one. -/
def Description.Yields (d : Description) (outputs : List (String × Value)) : Prop :=
  ∃ v, d.output.valueType.accepts v.valueType = true ∧
    match d.selfOutput with
    | none => outputs = [(d.output.name, v)]
    | some o => ∃ u, o.valueType.accepts u.valueType = true ∧
        outputs = Assoc.insert [(d.output.name, v)] o.name u

namespace Engine

variable {e e' : Engine} {fuel : Nat} {target : RunTarget} {id : FunctionId}
  {inputs outputs : List (String × Value)}

/-- The call that the execution of a function leaves, if it succeeds. -/
theorem exists_left_of_executeWithin (htarget : e.functionOf? target = some id)
    (h : e.executeWithin fuel target inputs = some (.ok outputs, e')) :
    ∃ d a, e.context.graph.function id = .ok d ∧
      ({ e with log := Log.start e.tracing } : Engine).Passes target inputs (.left 0 (.ok ()) a) ∧
      a.call.terminals.Published ∧
      a.call.terminals.reset = .ofDescription d (.entry id) e.context.checked ∧
      outputs = outputsOf a.call.terminals := by
  rcases succeeds_of_executeWithin h with ⟨_, a, hopens, hexecute, houtputs, -⟩ | ⟨_, _, hopens, -⟩
  · have hfaithful := Walk.faithful_runner e.context fuel
    have hpasses : ({ e with log := Log.start e.tracing } : Engine).Passes target inputs
        (.left 0 (.ok ()) a) := ⟨_, hopens, .single (.executed hexecute)⟩
    have hreset := congrArg AppliedCall.terminals (Context.reset_execute hfaithful hexecute)
    cases hopens with
    | @function id' d ts htarget' hd hbind =>
        obtain rfl : id = id' := Option.some.inj (htarget.symm.trans htarget')
        have hleft : a.call.terminals.reset = ts.reset := hreset
        refine ⟨d, a, hd, hpasses, Context.published_execute hfaithful hexecute, ?_, houtputs⟩
        rw [hleft, reset_bindInputs hbind]
        exact Terminals.reset_ofDescription d _ _
  · cases hopens with
    | standalone heq hc hnone _ _ =>
        have hc' : e.context.graph.composition _ = .ok _ := hc
        exact absurd htarget (by simp [heq, functionOf?, hc', hnone])

/-- A written output of a call has the declared name and shows a value of the declared type. -/
theorem shown_of_published {ts : Terminals} (hpublished : ts.Published)
    (hconforms : ts.All Terminal.Conforms) {port : Port} (hport : port.isOutput = true)
    {t : Terminal}
    (ht : ts.get? port = some t) {site : Site} {name : String} {valueType : ValueType}
    {checked : Bool}
    (hreset : t.reset = .ofPort site port name valueType false checked) :
    t.name = name ∧ valueType.accepts (shown t).valueType = true := by
  obtain ⟨v, hv⟩ := Option.isSome_iff_exists.1 (t.isSome_peek.trans (hpublished port t hport ht))
  have haccepts := (hconforms.get? ht).accepts v hv
  have hplace : t.place = .port site port name := congrArg Terminal.place hreset
  have htype : t.valueType = valueType := congrArg Terminal.valueType hreset
  have hwhole : t.elementwise = false := congrArg Terminal.elementwise hreset
  rw [Terminal.Accepts, if_neg (by simp [hwhole]), htype] at haccepts
  refine ⟨by rw [Terminal.name, hplace]; rfl, ?_⟩
  rw [shown, hv]
  exact haccepts

/-- **A function that succeeds has results of its declared types.** -/
theorem yields_of_executeWithin (hchecked : e.context.checked = true)
    (htarget : e.functionOf? target = some id)
    (h : e.executeWithin fuel target inputs = some (.ok outputs, e')) :
    ∃ d, e.context.graph.function id = .ok d ∧ d.Yields outputs := by
  obtain ⟨d, a, hd, hpasses, hpublished, hreset, rfl⟩ := exists_left_of_executeWithin htarget h
  have hconforms : a.call.terminals.All Terminal.Conforms :=
    (Stage.all_of_passes (hchecked ▸ Terminal.invariant_conforms) hpasses).terminals
  have houtput : a.call.terminals.output.reset = (Terminals.ofDescription d (.entry id) _).output :=
    congrArg Terminals.output hreset
  have hself : a.call.terminals.selfOutput.map Terminal.reset
      = (Terminals.ofDescription d (.entry id) _).selfOutput := congrArg Terminals.selfOutput hreset
  have hget : a.call.terminals.get? .output = some a.call.terminals.output := rfl
  obtain ⟨hname, hshown⟩ := shown_of_published hpublished hconforms rfl hget houtput
  refine ⟨d, hd, shown a.call.terminals.output, hshown, ?_⟩
  cases ho : d.selfOutput with
  | none =>
      have hnone : a.call.terminals.selfOutput = none := by
        simpa [Terminals.ofDescription, ho] using hself
      simp [outputsOf, hnone, hname]
  | some o =>
      simp only [Terminals.ofDescription, ho, Option.map_some] at hself
      obtain ⟨t, ht, htreset⟩ := Option.map_eq_some_iff.1 hself
      have hgetSelf : a.call.terminals.get? .selfOutput = some t := ht
      obtain ⟨htname, htshown⟩ := shown_of_published hpublished hconforms rfl hgetSelf htreset
      exact ⟨shown t, htshown, by simp [outputsOf, ht, hname, htname]⟩

/-! ## Type safety -/

/-- What type checks guarantee for the execution of a target. -/
structure TypeSafe (e : Engine) (target : RunTarget) (inputs : List (String × Value)) : Prop where
  /-- At every stage and every depth, every terminal is unwritten or shows a value that its type
  accepts. -/
  terminals : ∀ stage, e.Passes target inputs stage → stage.All Terminal.Conforms
  /-- The types are those that the graph declares. -/
  declared : ∀ stage, e.Passes target inputs stage → stage.Declared e.context
  /-- Where descriptions stand under their own identities, the terminals of a call are those that
  the description declares by which it is executed. -/
  executed : (∀ key d, e.context.graph.function key = .ok d → d.id = key) →
    ∀ depth a d, e.Passes target inputs (.call depth a) →
      e.context.graph.function a.call.function = .ok d →
      a.call.terminals.reset = .ofDescription d a.call.site true
  /-- Implementations are called with accepted values, and with defaults and empty aggregates where
  nothing was ingested. -/
  arguments : ∀ depth a d inv, e.Passes target inputs (.call depth a) → a.Sends e.context d inv →
    inv.SuppliedBy d a.call.terminals
  /-- A function that succeeds has results of its declared types. -/
  results : ∀ fuel id outputs e', e.functionOf? target = some id →
    e.executeWithin fuel target inputs = some (.ok outputs, e') →
    ∃ d, e.context.graph.function id = .ok d ∧ d.Yields outputs

/-- **Checked executions are type safe**: at all stages terminals show accepted values only, so that
implementations receive and functions return nothing else.  Every single write between two stages
keeps it so.  A write that is rejected leaves the scene as the writes before it have left it, and an
answer that is rejected leaves the terminal that does not take it as it was. -/
theorem typeSafe_of_checked (hchecked : e.context.checked = true) (target : RunTarget)
    (inputs : List (String × Value)) :
    e.TypeSafe target inputs ∧
      (∀ (s : Scene) slot writes, s.All Terminal.Conforms →
        (s.write slot writes).2.All Terminal.Conforms) ∧
      (∀ (s s' : Scene) slot writes fault, s.write slot writes = (.error fault, s') →
        ∃ done rejected rest b s'',
          writes = done ++ rejected :: rest ∧ s.write slot done = (.ok b, s'') ∧
          ∀ slot', s'.terminal? slot' = s''.terminal? slot') ∧
      ∀ (ts ts' : Terminals) v receiver fault, ts.publish v receiver = (.error fault, ts') →
        ts' = ts ∨ ∃ output, ts.output.write none v = .ok output ∧ ts' = { ts with output } := by
  have hP : Terminal.Invariant e.context.checked Terminal.Conforms :=
    hchecked ▸ Terminal.invariant_conforms
  refine ⟨⟨fun stage => Stage.all_of_passes hP, fun stage => Stage.declared_of_passes, ?_, ?_, ?_⟩,
    fun s slot writes hs => hs.write Terminal.invariant_conforms slot writes,
    fun s s' slot writes fault => Scene.write_eq_error, fun ts ts' v receiver fault =>
      Terminals.publish_eq_error⟩
  · intro hkeys depth a d hpasses hd
    obtain ⟨key, declared, hdeclared, hfunction, hterminals⟩ := Stage.declared_of_passes hpasses
    rw [hfunction, hkeys key declared hdeclared, hdeclared] at hd
    rw [hterminals, hchecked, Except.ok.inj hd]
  · intro depth a d inv hpasses hsends
    exact hsends.suppliedBy (Stage.all_of_passes hP hpasses)
  · intro fuel id outputs e' htarget h
    exact yields_of_executeWithin hchecked htarget h

end Engine

/-! ### A function that counts -/

namespace Sample

/-- A function of a number and any more numbers, whose result is a number. -/
def counting : Description :=
  { Description.plain ⟨0⟩ "count"
      [⟨"first", .int, .positional 0, none⟩, ⟨"others", .int, .varPositional, none⟩] with
    output := ⟨"count", .int⟩
    implementation := some "count" }

/-- An engine that checks types and can count arguments. -/
def counter : Engine :=
  .new (.ofParts "counter" [counting] [])
    { resolve path :=
        if path = "count" then some (.reading fun inv => .ok (.int (.ofNat inv.args.length))) else
          none
      resolveMember _ _ := none }
    { checked := true }

end Sample

/-- The function that counts two numbers yields a number. -/
theorem Engine.typeSafe_of_checked_sample : Sample.counter.context.checked = true ∧
    (∃ outputs e', Sample.counter.executeWithin 1 (.function ⟨0⟩)
        [("first", .int 5), ("others", .list [.int 7])] = some (.ok outputs, e') ∧
      Sample.counting.Yields outputs) ∧
    Sample.counter.TypeSafe (.function ⟨0⟩) [("first", .int 5), ("others", .list [.int 7])] := by
  have hsafe := (typeSafe_of_checked (e := Sample.counter) rfl (.function ⟨0⟩)
    [("first", .int 5), ("others", .list [.int 7])]).1
  have hcheck : (Sample.counter.executeWithin 1 (.function ⟨0⟩)
      [("first", .int 5), ("others", .list [.int 7])]).any
      (fun ran => ran.1.toOption.isSome) = true := by
    decide +kernel
  obtain ⟨⟨r, e'⟩, hran, hr⟩ := (Option.any_eq_true ..).1 hcheck
  refine ⟨rfl, ?_, hsafe⟩
  cases r with
  | error fault => exact absurd hr (by simp [Except.toOption])
  | ok outputs =>
      obtain ⟨d, hd, hyields⟩ := hsafe.results 1 ⟨0⟩ outputs e' rfl hran
      obtain rfl := Except.ok.inj hd
      exact ⟨outputs, e', hran, hyields⟩

end CallFlow
