import Mathlib.Data.List.Basic
import CallFlow.Proofs.Authority
import CallFlow.Proofs.Inputs
import CallFlow.Proofs.Positions

/-!
# Accumulated values are delivered once

A slot into which all mappings accumulate is a queue: completions push values into it, and each
visit of its call takes all of them as one list.  From the history of a run alone it can be said
what was pushed (`Walk.pushed`), what each visit of the call was given (`Walk.deliveries`) and
what still waits (`Walk.pending`); nothing is lost, given twice or reordered between them
(`Walk.pushed_eq`).

The invariant of a run is that the cell of the slot holds what waits (`Walk.collects_of_reaches`).
So at every visit the input resolves to just that (`Walk.delivers_of_reaches`).
-/

namespace CallFlow

/-! ## Cells that collect -/

namespace Cell

/-- What was appended to the cell since it was last read: nothing, or the values, each after the one
before it. -/
inductive Collects (c : Cell) : List Value → Prop where
  | nothing (fresh : c.isFresh = false) : Collects c []
  | list {items : List (Nat × Value)} (contents : c.contents = .list items)
      (consumed : c.consumed = false) (nonempty : items ≠ [])
      (dense : Assoc.keys items = (List.range items.length).reverse) :
      Collects c (Assoc.values items).reverse

/-- Contents that are missing or read are not added to. -/
theorem base_of_not_isFresh {c : Cell} (h : c.isFresh = false) : c.base = .empty := by
  unfold base
  split
  · rfl
  · rename_i hconsumed
    have hwritten : c.isWritten = false := by simpa [isFresh, hconsumed] using h
    revert hwritten
    unfold isWritten
    cases c.contents <;> simp

theorem Collects.append {c : Cell} {vs : List Value} (h : c.Collects vs) (v : Value) :
    (c.append v).Collects (vs ++ [v]) := by
  cases h with
  | nothing hfresh =>
      have happend : c.append v = ⟨.list [(0, v)], false⟩ := by
        simp [Cell.append, writeIndex, nextPosition, base_of_not_isFresh hfresh]
      rw [happend]
      have hlist : (⟨.list [(0, v)], false⟩ : Cell).Collects (Assoc.values [(0, v)]).reverse :=
        .list rfl rfl (by simp) rfl
      exact hlist
  | @list items hcontents hconsumed hne hdense =>
      have hbase : c.base = .list items := by simp [base, hconsumed, hcontents]
      have hdecreasing : (Assoc.keys items).Pairwise (· > ·) := by
        rw [hdense]
        exact List.pairwise_reverse.2 List.pairwise_lt_range
      have hnext : nextPosition (.list items) = items.length := by
        rw [nextPosition_list hdecreasing, hdense, Positions.next_range]
      have hlater : ∀ i ∈ Assoc.keys items, i < items.length := by simp [hdense]
      -- the next position is beyond the last one, so that the element comes first in the items
      have hinsert :
          Assoc.insertSorted isLater items items.length v = (items.length, v) :: items := by
        obtain ⟨⟨last, u⟩, rest, rfl⟩ := List.exists_cons_of_ne_nil hne
        have hlast := hlater last (by simp [Assoc.keys])
        rw [Assoc.insertSorted, if_neg (Nat.ne_of_lt hlast),
          if_pos (by simpa [isLater] using hlast)]
      have happend : c.append v = ⟨.list ((items.length, v) :: items), false⟩ := by
        rw [Cell.append, hbase, hnext, writeIndex, hbase]
        simp only [hinsert]
      have hvalues : (Assoc.values items).reverse ++ [v]
          = (Assoc.values ((items.length, v) :: items)).reverse := by
        simp [Assoc.values]
      have hkeys : Assoc.keys ((items.length, v) :: items)
          = (List.range ((items.length, v) :: items).length).reverse := by
        rw [List.length_cons, List.range_succ, List.reverse_append, ← hdense]
        rfl
      rw [happend, hvalues]
      exact .list rfl rfl (by simp) hkeys

end Cell

/-- What an input resolves to that has collected the values: the list of them, or without any its
default or an empty aggregate, if it has one of these. -/
def Param.collected (p : Param) (d : Description) (site : Site) (vs : List Value) :
    Except RunFault Value :=
  if vs.isEmpty then
    match p.fallback? with
    | some v => .ok v
    | none => .error (.unresolvedInput site d.name p.name)
  else .ok (.list vs)

theorem Terminal.resolve_of_collects {t : Terminal} {vs : List Value} (h : t.cell.Collects vs)
    (d : Description) (site : Site) (p : Param) : t.resolve d site p = p.collected d site vs := by
  cases h with
  | nothing hfresh =>
      have hnone : t.isFresh = false := hfresh
      simp only [resolve, hnone, Param.collected, List.isEmpty_nil, if_true]
      rfl
  | @list items hcontents hconsumed hne _ =>
      have hfresh : t.isFresh = true := by
        simp [isFresh, Cell.isFresh, Cell.isWritten, hcontents, hconsumed]
      have hpeek : t.peek = some (.list (Assoc.values items).reverse) := by
        simp [peek, Cell.peek, hcontents]
      have hvalues : (Assoc.values items).reverse.isEmpty = false := by
        cases items with
        | nil => exact absurd rfl hne
        | cons _ _ => simp [Assoc.values]
      rw [resolve, if_pos hfresh, hpeek, Param.collected, hvalues]
      rfl

/-! ## What a completion pushes -/

/-- What the mapping makes of the value that its source shows. -/
def Mapping.pick? (m : Mapping) (shown : Option Value) : Option Value :=
  shown.bind fun v =>
    match m.sourceStrategy with
    | none => some v
    | some strategy => (v.item strategy).toOption

theorem Scene.pick?_of_read {s : Scene} {m : Mapping} {v : Option Value} (h : s.read m = .ok v) :
    m.pick? (s.peek m.source) = v := by
  unfold read at h
  split at h
  · rename_i u strategy hpeek hstrategy
    split at h
    · rename_i item hitem
      obtain rfl := Except.ok.inj h
      simp [Mapping.pick?, hpeek, hstrategy, hitem, Except.toOption]
    · exact absurd h (by simp)
  · rename_i hother
    obtain rfl := Except.ok.inj h
    cases hpeek : s.peek m.source with
    | none => rfl
    | some u =>
        cases hstrategy : m.sourceStrategy with
        | none => simp [Mapping.pick?, hstrategy]
        | some strategy => exact absurd hstrategy (hother u strategy hpeek)

/-- The values among those pushed that are for the slot, in order. -/
def valuesFor (slot : Slot) (pushed : List (Slot × Value)) : List Value :=
  pushed.filterMap fun entry => if entry.1 = slot then some entry.2 else none

namespace Flow

/-- Of every mapping into the slot whose source is written, what it picks is pushed there, in order
of the mappings. -/
theorem valuesFor_pushes {s : Scene} {ms : List Mapping} {pushed : List (Slot × Value)}
    (h : pushes s ms = .ok pushed) (slot : Slot) :
    valuesFor slot pushed = ms.filterMap fun m =>
      if Slot.of? m.target = some slot then m.pick? (s.peek m.source) else none := by
  induction ms generalizing pushed with
  | nil =>
      cases h
      rfl
  | cons m rest ih =>
      rw [pushes] at h
      obtain ⟨value, hread, h⟩ := bind_eq_ok h
      obtain ⟨others, hrest, h⟩ := bind_eq_ok h
      rw [List.filterMap_cons, Scene.pick?_of_read hread, ← ih hrest]
      cases value with
      | none =>
          obtain rfl := Except.ok.inj h
          simp
      | some v =>
          cases htarget : Slot.of? m.target with
          | none =>
              rw [htarget] at h
              obtain rfl := Except.ok.inj h
              simp
          | some slot' =>
              rw [htarget] at h
              obtain rfl := Except.ok.inj h
              by_cases hslot : slot' = slot <;> simp [valuesFor, hslot]

end Flow

/-- The terminal in the slot, if there is one, has collected the values. -/
def Scene.Collects (s : Scene) (slot : Slot) (vs : List Value) : Prop :=
  ∀ t, s.terminal? slot = some t → t.cell.Collects vs

namespace Flow

variable {s s' : Scene} {slot : Slot} {vs : List Value}

theorem collects_push {slot' : Slot} {v : Value} {b : Bool} (hs : s.Collects slot vs)
    (h : s.write slot' [(some .append, v)] = (.ok b, s')) :
    s'.Collects slot (vs ++ if slot' = slot then [v] else []) := by
  rcases Scene.write_eq_ok h with ⟨hnil, -⟩ | ⟨-, -, t₀, t', ht₀, hwrite, -, rfl⟩
  · exact absurd hnil (by simp)
  · intro t ht
    rw [Scene.terminal?_put ht₀] at ht
    split at ht
    · rename_i hslot
      subst hslot
      obtain rfl := Option.some.inj ht
      rw [Terminal.writeAll] at hwrite
      split at hwrite
      · rename_i t'' ht''
        obtain rfl : t'' = t' := congrArg Prod.snd hwrite
        rw [Terminal.write_eq_ok ht'', if_pos rfl]
        exact (hs t₀ ht₀).append v
      · exact absurd hwrite (by simp)
    · rename_i hslot
      rw [if_neg hslot, List.append_nil]
      exact hs t ht

/-- Pushing appends to the slot what is for it. -/
theorem collects_pushAll {pushed : List (Slot × Value)} {names : List String}
    (hs : s.Collects slot vs) (h : (pushAll pushed).run s = (.ok names, s')) :
    s'.Collects slot (vs ++ valuesFor slot pushed) := by
  induction pushed generalizing s vs names with
  | nil =>
      obtain ⟨-, rfl⟩ := Prod.mk.inj h
      simpa [valuesFor] using hs
  | cons entry rest ih =>
      obtain ⟨slot', v⟩ := entry
      obtain ⟨written, s₁, hwrite, h⟩ := run_bind_eq_ok h
      obtain ⟨others, s₂, hrest, h⟩ := run_bind_eq_ok h
      have hs₂ : s₂ = s' := by
        cases slot' <;> exact congrArg Prod.snd h
      subst hs₂
      have hcollects := ih (collects_push hs hwrite) hrest
      rw [List.append_assoc] at hcollects
      have hvalues : valuesFor slot ((slot', v) :: rest)
          = (if slot' = slot then [v] else []) ++ valuesFor slot rest := by
        by_cases hslot : slot' = slot <;> simp [valuesFor, hslot]
      rwa [hvalues]

/-- **A completion appends to a slot what its accumulating mappings push there**, and does nothing
else to it, unless it is a variable. -/
theorem collects_settle {call : CallId} {order : List String}
    (hslot : ∀ name, slot ≠ .variable name)
    (hs : s.Collects slot vs) (h : (settle call).run s = (.ok order, s')) :
    s'.Collects slot (vs ++ (s.frame.wiring.accumulatingFrom call).filterMap fun m =>
      if Slot.of? m.target = some slot then m.pick? (s.peek m.source) else none) := by
  obtain ⟨values, pushed, s₁, fed, s₂, refreshed, hvalues, hpushed, hfed, hrefreshed, -⟩ :=
    settle_eq_ok h
  have hcollects : s₁.Collects slot (vs ++ valuesFor slot values) :=
    collects_pushAll (s := s.complete call) hs hpushed
  have hfeed := evolves_feed s₁ (s₁.frame.wiring.fedBy call)
  rw [hfed] at hfeed
  have hpropagate := evolves_propagate s₂ (pushed ++ fed)
  rw [hrefreshed] at hpropagate
  have hsame : s'.terminal? slot = s₁.terminal? slot := by
    rw [hpropagate.others _ (fun ⟨name, _, hc, _⟩ => hslot name hc),
      hfeed.others _ (fun ⟨name, _, hc⟩ => hslot name hc)]
  intro t ht
  rw [hsame] at ht
  rw [valuesFor_pushes hvalues] at hcollects
  exact hcollects t ht

end Flow

/-! ## What is pushed and delivered in a run -/

namespace Walk

/-- What the visit pushes into the slot if it completes: one value for each accumulating mapping
from its call whose source terminal is written, in order of declaration. -/
def Visit.pushes (w : Wiring) (slot : Slot) (v : Visit) : List Value :=
  if v.outcome = .completed then
    (w.accumulatingFrom v.call).filterMap fun m =>
      match m.source with
      | .call _ port =>
          if Slot.of? m.target = some slot then
            m.pick? ((v.terminals.get? port).bind Terminal.peek)
          else none
      | _ => none
  else []

/-- All that was pushed into the slot, in order.  The last visit of a history stands first. -/
def pushed (w : Wiring) (slot : Slot) : List Visit → List Value
  | [] => []
  | v :: earlier => pushed w slot earlier ++ v.pushes w slot

/-- What was pushed into the slot since the last visit of the call, or since the start.  What a
visit of the call itself pushes comes after it. -/
def pending (w : Wiring) (slot : Slot) (call : CallId) : List Visit → List Value
  | [] => []
  | v :: earlier => (if v.call = call then [] else pending w slot call earlier) ++ v.pushes w slot

/-- What the visits of the call found pending, one list for each visit, in order. -/
def deliveries (w : Wiring) (slot : Slot) (call : CallId) : List Visit → List (List Value)
  | [] => []
  | v :: earlier =>
      if v.call = call then deliveries w slot call earlier ++ [pending w slot call earlier]
      else deliveries w slot call earlier

/-- **Nothing is lost, delivered twice or reordered**: all that was pushed is what was delivered, in
this order, and then what is pending. -/
theorem pushed_eq (w : Wiring) (slot : Slot) (call : CallId) (history : List Visit) :
    pushed w slot history
      = (deliveries w slot call history).flatten ++ pending w slot call history := by
  induction history with
  | nil => rfl
  | cons v earlier ih =>
      by_cases hcall : v.call = call
      · simp [pushed, deliveries, pending, hcall, ih]
      · simp [pushed, deliveries, pending, hcall, ih]

end Walk

/-! ## Slots that collect -/

/-- Do all mappings into the slot accumulate? -/
def Wiring.Accumulates (w : Wiring) (slot : Slot) : Prop :=
  ∀ m ∈ w.mappings, Slot.of? m.target = some slot → m.isAccumulating = true

namespace Wiring

/-- A slot is ingested only if a mapping of one of its groups writes it. -/
theorem Built.exists_mapping_of_mem_inputSlots {w : Wiring} (h : w.Built) {slot : Slot}
    {call : CallId}
    (hmem : slot ∈ w.inputSlots call) :
    ∃ m ∈ w.mappings, m.isAccumulating = false ∧ Slot.of? m.target = some slot := by
  rw [inputSlots_eq] at hmem
  have hkeys : slot ∈ Assoc.keys w.targets := (List.mem_filter.1 hmem).1
  cases ht : Assoc.find? w.targets slot with
  | none => exact absurd hkeys (Assoc.find?_eq_none_iff.1 ht)
  | some t =>
      obtain ⟨priority, hne⟩ := h.exists_group ht
      obtain ⟨m, hm⟩ := List.exists_mem_of_ne_nil _ hne
      obtain ⟨hm, hacc, htarget, -⟩ := mem_group.1 hm
      exact ⟨m, hm, hacc, htarget⟩

/-- No visit ingests a slot into which all mappings accumulate. -/
theorem Built.not_mem_inputSlots {w : Wiring} (h : w.Built) {slot : Slot}
    (hslot : w.Accumulates slot)
    (call : CallId) : slot ∉ w.inputSlots call := by
  intro hmem
  obtain ⟨m, hm, hacc, htarget⟩ := h.exists_mapping_of_mem_inputSlots hmem
  exact absurd (hslot m hm htarget) (by simp [hacc])

end Wiring

namespace Walk

variable {ctx : Context} {id target : CallId} {depth : Nat} {w₀ w w' : Walk}
  {v : Visit} {port : Port}
  {history : List Visit} {vs : List Value}

/-- A visit of the call finds it so, once the inputs are ingested. -/
def Enters (w : Walk) (id : CallId) (call : AppliedCall) : Prop :=
  ∃ s, (Flow.ingestAll (w.scene.frame.wiring.inputSlots id)).run w.scene = (.ok (), s) ∧
    Assoc.find? s.frame.calls id = some call

/-- What a slot has collected is there when its call is entered. -/
theorem Enters.collects {call : AppliedCall} (h : w.Enters id call)
    (hbuilt : w.scene.frame.wiring.Built)
    (hslot : w.scene.frame.wiring.Accumulates (.call id port))
    (hw : w.scene.Collects (.call id port) vs) {t : Terminal}
    (ht : call.terminals.get? port = some t) : t.cell.Collects vs := by
  obtain ⟨s, hingest, hfound⟩ := h
  have hevolves := Flow.evolves_ingestAll w.scene (w.scene.frame.wiring.inputSlots id)
  rw [hingest] at hevolves
  refine hw t ?_
  rw [← hevolves.others _ (hbuilt.not_mem_inputSlots hslot id), Scene.terminal?]
  simp [hfound, ht]

/-- After a visit of a call that has no body, or that has completed, all its inputs are read. -/
theorem Executes.inputsRead {run : Runner} {next : Option CallId}
    (h : Executes ctx run depth w v (.ok next) w') (hclosed : w.scene.frame.Closed)
    (hcall : ∀ d, w.scene.frame.Describes ctx.graph v.call d →
      d.body = none ∨ v.outcome = .completed) : v.terminals.InputsRead := by
  obtain ⟨hingest, hfound, hexecute, houtcome, hterminals, hafter⟩ := h
  rename_i s call result a
  rw [hterminals]
  rcases afterCall_eq_ok hafter with ⟨rfl, -⟩ | ⟨site, iterate, rfl, hloop⟩
  · exact Context.read_of_completed hexecute
  · obtain ⟨d, hd, ⟨-, hread⟩ | ⟨bodyId, body, ts, ran, hbody, -⟩⟩ :=
      Context.execute_exhausted hexecute
    · rw [hread]
      exact call.terminals.inputsRead_consumeInputs
    · -- a body that has signalled exhaustion is excluded
      have hdescribes : s.frame.Describes ctx.graph v.call d := ⟨call, hfound, hd⟩
      have hkeeps := (evolves_ingestAll hingest).keeps
      rcases hcall d (hdescribes.of_reset_eq (hkeeps.frame hclosed)) with hnone | hcompleted
      · exact absurd (hnone.symm.trans hbody) (by simp)
      · rw [hcompleted, hloop] at houtcome
        exact absurd houtcome (by simp [outcomeOf])

/-- What a completion pushes from the scene that the execution leaves is what the visit pushes. -/
theorem Visit.pushes_of_completed {s : Scene} (hcompleted : v.outcome = .completed)
    (hs : ∀ port, s.terminal? (.call v.call port) = v.terminals.get? port) (slot : Slot) :
    ((s.frame.wiring.accumulatingFrom v.call).filterMap fun m =>
        if Slot.of? m.target = some slot then m.pick? (s.peek m.source) else none)
      = v.pushes s.frame.wiring slot := by
  rw [Visit.pushes, if_pos hcompleted]
  apply List.filterMap_congr
  intro m hm
  obtain ⟨-, -, hsource⟩ := Wiring.mem_accumulatingFrom.1 hm
  cases hm : m.source with
  | constant _ | boundary _ | «variable» _ => simp [Mapping.sourceCall?, hm] at hsource
  | call id' port' =>
      obtain rfl : id' = v.call := by simpa [Mapping.sourceCall?, hm] using hsource
      have hpeek : s.peek (.call v.call port') = (v.terminals.get? port').bind Terminal.peek := by
        rw [← hs]
        exact s.peek_of_slot rfl
      rw [hpeek]

theorem Visit.pushes_of_mappings {wiring wiring' : Wiring} (h : wiring'.mappings = wiring.mappings)
    (slot : Slot) (v : Visit) : v.pushes wiring' slot = v.pushes wiring slot := by
  rw [Visit.pushes, Visit.pushes, Wiring.accumulatingFrom_eq, Wiring.accumulatingFrom_eq, h]

/-- **A visit takes what its call has collected, and appends what it pushes.** -/
theorem collects_of_executes {run : Runner} {next : Option CallId}
    (hexecutes : Executes ctx run depth w v (.ok next) w') (hclosed : w.scene.frame.Closed)
    (hport : port.isOutput = false)
    (htarget : v.call = target → ∀ d, w.scene.frame.Describes ctx.graph target d →
      d.body = none ∨ v.outcome = .completed)
    (hw : w.scene.Collects (.call target port) vs) :
    w'.scene.Collects (.call target port) ((if v.call = target then [] else vs)
      ++ v.pushes w.scene.frame.wiring (.call target port)) := by
  obtain ⟨s, hwiring, hothers, hinside, hend⟩ := hexecutes.leaves
  have htaken : s.Collects (.call target port) (if v.call = target then [] else vs) := by
    intro t ht
    split
    · rename_i hcall
      subst hcall
      rw [hinside] at ht
      exact .nothing ((hexecutes.inputsRead hclosed (htarget rfl)).isFresh hport ht)
    · rename_i hcall
      rw [hothers _ fun ⟨_, hc⟩ => hcall (by simp at hc; exact hc.1.symm)] at ht
      exact hw t ht
  rcases hend with ⟨hcompleted, settled, hsettle, next', hr⟩ | ⟨hne, hw'⟩
  · cases settled with
    | error fault => exact absurd hr (by simp [Except.map])
    | ok order =>
        have hcollects := Flow.collects_settle (by simp) htaken hsettle
        rw [Visit.pushes_of_completed hcompleted hinside, hwiring] at hcollects
        exact hcollects
  · rw [hw', Visit.pushes, if_neg hne, List.append_nil]
    exact htaken

/-! ## Runs -/

variable {compositionId : CompositionId} {inputs : List (String × Value)}

/-- In the beginning nothing has been collected. -/
theorem Begins.collects (h : w₀.Begins ctx compositionId inputs) (call : CallId) (port : Port) :
    w₀.scene.Collects (.call call port) [] := by
  intro t ht
  obtain ⟨f, hf, hbind⟩ := h.exists_frame
  have hcalls : w₀.scene.frame.calls = Assoc.mapValues AppliedCall.reset f.calls := by
    rw [Frame.eq_of_bindVariables hbind]
    exact (congrArg Frame.calls (Frame.reset_of_ofGraph hf)).symm
  simp only [Scene.terminal?, hcalls, Assoc.find?_mapValues] at ht
  obtain ⟨c, hc, ht⟩ := Option.bind_eq_some_iff.1 ht
  obtain ⟨c', -, rfl⟩ := Option.map_eq_some_iff.1 hc
  simp only [AppliedCall.reset, Terminals.get?_reset] at ht
  obtain ⟨u, -, rfl⟩ := Option.map_eq_some_iff.1 ht
  exact .nothing u.cell.isFresh_clear

/-- **The run invariant: the slot holds what is pending.**  Seeding does not touch it, and every
visit takes what its own call has collected and appends what it pushes. -/
theorem collects_of_reaches {r : Except RunFault (Option CallId)}
    (hbegins : w₀.Begins ctx compositionId inputs) (hreaches : Reaches ctx depth w₀ history r w)
    (hport : port.isOutput = false)
    (hvisits : ∀ d, w₀.scene.frame.Describes ctx.graph target d →
      d.body = none ∨ ∀ v ∈ history, v.call = target → v.outcome = .completed)
    {next : Option CallId} (hr : r = .ok next) :
    w.scene.Collects (.call target port)
      (pending w₀.scene.frame.wiring (.call target port) target history) := by
  induction hreaches generalizing next with
  | @seeded s hseed =>
      have hseeded := Flow.evolves_seed w₀.scene
      rw [hseed] at hseeded
      intro t ht
      refine hbegins.collects target port t ?_
      rwa [← hseeded.others _ fun ⟨_, hc⟩ => absurd hc (by simp)]
  | refused _ _ _ => exact absurd hr (by simp)
  | @executed history fuel v w w' r hbefore hexecutes ih =>
      subst hr
      have hearlier := ih (fun d hd => (hvisits d hd).imp_right fun hall u hu =>
        hall u (List.mem_cons_of_mem _ hu)) rfl
      have hclosed := hbefore.keeps.closed hbegins.closed
      have htarget : v.call = target → ∀ d, w.scene.frame.Describes ctx.graph target d →
          d.body = none ∨ v.outcome = .completed := by
        intro hcall d hd
        have hbegin := hd.of_reset_eq (hbefore.keeps.frame hbegins.closed)
        exact (hvisits d hbegin).imp_right fun hall => hall v (by simp) hcall
      have hcollects := collects_of_executes hexecutes hclosed hport htarget hearlier
      have hmappings : w.scene.frame.wiring.mappings = w₀.scene.frame.wiring.mappings := by
        rw [hbefore.wiring, Wiring.mappings_completeAll]
      rw [Visit.pushes_of_mappings hmappings] at hcollects
      exact hcollects

/-- How the input at a port is delivered: it resolves to the list of the values, or without any to
what stands in for them; with this value the implementation is called, and a body finds it in its
boundary. -/
structure Delivered (ts : Terminals) (d : Description) (site : Site) (port : Port) (p : Param)
    (t : Terminal) (vs : List Value) : Prop where
  resolves : t.resolve d site p = p.collected d site vs
  called : ∀ resolved, ts.resolveAll d site = .ok resolved →
    ∃ v, p.collected d site vs = .ok v ∧ Terminals.valueAt? resolved port = some v
  prepared : ∀ ts', ts.prepare d site = (.ok (), ts') →
    ∃ t' v, p.collected d site vs = .ok v ∧ ts'.get? port = some t' ∧ t'.isFresh = true ∧
      t'.peek = some v

/-- **Accumulated values are delivered once and in order.**  Let all mappings into an input
accumulate, and let its call have no body, or a body whose visits have completed.  Then every visit
of the call is given the list of the values that were pushed since the visit before, in the order of
the pushes, and without any the default, an empty aggregate or nothing.  What was pushed in a run is
what was delivered and then what is pending. -/
theorem delivers_of_reaches (hbegins : w₀.Begins ctx compositionId inputs)
    (hreaches : Reaches ctx depth w₀ history (.ok (some target)) w)
    (hslot : w₀.scene.frame.wiring.Accumulates (.call target port))
    (hvisits : ∀ d, w₀.scene.frame.Describes ctx.graph target d →
      d.body = none ∨ ∀ v ∈ history, v.call = target → v.outcome = .completed) :
    pushed w₀.scene.frame.wiring (.call target port) history
        = (deliveries w₀.scene.frame.wiring (.call target port) target history).flatten
          ++ pending w₀.scene.frame.wiring (.call target port) target history ∧
      ∀ call d p t, w.Enters target call → call.terminals.input? d port = some (p, t) →
        Delivered call.terminals d call.site port p t
          (pending w₀.scene.frame.wiring (.call target port) target history) := by
  refine ⟨pushed_eq _ _ _ _, ?_⟩
  intro call d p t henters hinput
  have hmappings : w.scene.frame.wiring.mappings = w₀.scene.frame.wiring.mappings := by
    rw [hreaches.wiring, Wiring.mappings_completeAll]
  have hcollects := collects_of_reaches hbegins hreaches (Terminals.isOutput_of_input? hinput)
    hvisits rfl
  have ht : t.cell.Collects (pending w₀.scene.frame.wiring (.call target port) target history) :=
    henters.collects (built_of_reaches hbegins hreaches)
      (fun m hm => hslot m (by rwa [hmappings] at hm)) hcollects (Terminals.get?_of_input? hinput)
  have hresolves := Terminal.resolve_of_collects ht d call.site p
  refine ⟨hresolves, fun resolved hresolved => ?_, fun ts' hprepare => ?_⟩
  · obtain ⟨v, hv, hvalue⟩ := Terminals.exists_resolved hresolved hinput
    exact ⟨v, hresolves.symm.trans hv, hvalue⟩
  · obtain ⟨t', v, ht', hfresh, hv, hpeek⟩ := Terminals.exists_prepared hprepare hinput
    exact ⟨t', v, hresolves.symm.trans hv, ht', hfresh, hpeek⟩

end Walk

/-! ### A call that feeds itself -/

namespace Sample

/-- Whether there are no arguments. -/
def emptiness : Description :=
  { Description.plain ⟨0⟩ "isEmpty" [⟨"xs", .any, .varPositional, none⟩] with
    implementation := some "isEmpty" }

/-- The call pushes its output to itself and is visited again while that is true. -/
def feedback : Context where
  graph := .ofParts "feedback" [emptiness] [{
    id := ⟨0⟩, name := "feedback", represents := none, starts := [⟨0⟩]
    calls := [⟨⟨0⟩, ⟨0⟩, .branch (some ⟨0⟩) none, none⟩]
    mappings := [⟨.call ⟨0⟩ .output, none, .call ⟨0⟩ (.param 0), some .append, none⟩] }]
  host :=
    { resolve path :=
        if path = "isEmpty" then some (.reading fun inv => .ok (.bool inv.args.isEmpty)) else none
      resolveMember _ _ := none }
  checked := true

/-- Does the terminal show truth as the only item of a list? -/
def showsTruth (t : Terminal) : Bool :=
  match t.peek with
  | some (.list [.bool true]) => true
  | _ => false

theorem peek_of_showsTruth {t : Terminal} (h : showsTruth t = true) :
    t.peek = some (.list [.bool true]) := by
  unfold showsTruth at h
  split at h
  · assumption
  · exact absurd h (by simp)

end Sample

/-- The second visit of the call that feeds itself is given what the first one has pushed. -/
theorem Walk.delivers_of_reaches_sample : ∃ v w call p t,
    Walk.Reaches Sample.feedback 0 (Sample.startOf Sample.feedback) [v] (.ok (some ⟨0⟩)) w ∧
      v.call = ⟨0⟩ ∧ w.Enters ⟨0⟩ call ∧
      call.terminals.input? Sample.emptiness (.param 0) = some (p, t) ∧
      t.peek = some (.list [.bool true]) ∧
      Delivered call.terminals Sample.emptiness call.site (.param 0) p t
        (pending (Sample.startOf Sample.feedback).scene.frame.wiring (.call ⟨0⟩ (.param 0))
          ⟨0⟩ [v]) := by
  have hcheck : (Walk.visit Sample.feedback (runner (steps Sample.feedback 0)) 0 ⟨0⟩
      (Sample.startOf Sample.feedback)).any (fun ran => ran.1.toOption == some (some ⟨0⟩) &&
        (let ingested := (Flow.ingestAll (ran.2.scene.frame.wiring.inputSlots ⟨0⟩)).run ran.2.scene
        ingested.1.toOption.isSome && (Assoc.find? ingested.2.frame.calls ⟨0⟩).any fun call =>
          (call.terminals.input? Sample.emptiness (.param 0)).any fun input =>
            Sample.showsTruth input.2)) = true := by decide +kernel
  obtain ⟨⟨r, w⟩, hvisit, hcheck⟩ := (Option.any_eq_true ..).1 hcheck
  rw [Bool.and_eq_true] at hcheck
  obtain ⟨hr, henter⟩ := hcheck
  cases r with
  | error fault => exact absurd hr (by simp [Except.toOption])
  | ok next =>
    obtain rfl : next = some ⟨0⟩ := by simpa [Except.toOption] using hr
    rw [Bool.and_eq_true] at henter
    obtain ⟨hingested, henter⟩ := henter
    cases hingest : (Flow.ingestAll (w.scene.frame.wiring.inputSlots ⟨0⟩)).run w.scene with
    | mk result s =>
      simp only [hingest] at hingested henter
      cases result with
      | error fault => exact absurd hingested (by simp [Except.toOption])
      | ok _ =>
        obtain ⟨call, hcall, henter⟩ := (Option.any_eq_true ..).1 henter
        obtain ⟨⟨p, t⟩, hinput, hshown⟩ := (Option.any_eq_true ..).1 henter
        rcases visit_cases hvisit with ⟨fault, hfault, -⟩ | ⟨v, hv, hexecutes⟩
        · exact absurd hfault (by simp)
        · have hbegins : (Sample.startOf Sample.feedback).Begins Sample.feedback ⟨0⟩ [] :=
            Sample.begins_startOf rfl
          have hreaches : Walk.Reaches Sample.feedback 0 (Sample.startOf Sample.feedback) [v]
              (.ok (some ⟨0⟩)) w :=
            .executed (hv ▸ .seeded (s := (Sample.startOf Sample.feedback).scene) rfl) hexecutes
          have henters : w.Enters ⟨0⟩ call := ⟨s, hingest, hcall⟩
          have hslot : (Sample.startOf Sample.feedback).scene.frame.wiring.Accumulates
              (.call ⟨0⟩ (.param 0)) := by
            intro m hm _
            obtain rfl := List.mem_singleton.1 hm
            rfl
          have hvisits : ∀ d, (Sample.startOf Sample.feedback).scene.frame.Describes
              Sample.feedback.graph ⟨0⟩ d →
              d.body = none ∨ ∀ u ∈ [v], u.call = ⟨0⟩ → u.outcome = .completed := by
            rintro d ⟨applied, happlied, hd⟩
            obtain rfl := Option.some.inj happlied
            obtain rfl := Except.ok.inj hd
            exact .inl rfl
          exact ⟨v, w, call, p, t, hreaches, hv, henters, hinput, Sample.peek_of_showsTruth hshown,
            (delivers_of_reaches hbegins hreaches hslot hvisits).2 call _ p t henters hinput⟩

end CallFlow
