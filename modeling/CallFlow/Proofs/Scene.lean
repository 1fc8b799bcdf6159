import CallFlow.Instance.Frame
import CallFlow.Proofs.Wiring

/-!
# What a step may change

Every step of a run writes terminals of a scene, and only through slots.  This file says what that
can change: the terminals in the slots that the step may write, while everything that was declared
stays as it is (`Scene.Evolves`).  A frame is closed if the variables that its mappings write are
there, so that no write adds one (`Frame.Closed`).

The main statement is that a write evolves a scene in its own slot (`Scene.evolves_write`).
Evolutions compose, so that all other steps follow from it.  Over the visits of a run, where calls
are replaced and authority is switched, a scene at least keeps what it declares (`Scene.Keeps`).
-/

namespace CallFlow

/-! ## Frames -/

@[simp] theorem AppliedCall.reset_reset (c : AppliedCall) : c.reset.reset = c.reset := by
  simp [AppliedCall.reset]

namespace Frame

/-- The variables that mappings write are there. -/
def Closed (f : Frame) : Prop :=
  ∀ name, f.wiring.Writes (.variable name) → Assoc.contains f.vars name = true

/-- Has the frame the variable, if the slot is one? -/
def Declares (f : Frame) (slot : Slot) : Prop :=
  ∀ name, slot = .variable name → Assoc.contains f.vars name = true

theorem declares_boundary (f : Frame) (port : Port) : f.Declares (.boundary port) :=
  fun _ h => absurd h (by simp)

theorem Closed.declares {f : Frame} (hf : f.Closed) {slot : Slot} (h : f.wiring.Writes slot) :
    f.Declares slot := by
  rintro name rfl
  exact hf name h

@[simp] theorem reset_reset (f : Frame) : f.reset.reset = f.reset := by
  simp [reset, Assoc.mapValues_mapValues]

theorem contains_vars_of_reset_eq {f f' : Frame} (h : f'.reset = f.reset) (name : String) :
    Assoc.contains f'.vars name = Assoc.contains f.vars name := by
  have hvars : Assoc.mapValues Terminal.reset f'.vars = Assoc.mapValues Terminal.reset f.vars :=
    congrArg vars h
  have hfind := congrArg (fun m => (Assoc.find? m name).isSome) hvars
  simpa [Assoc.contains] using hfind

/-- Whether a frame is closed depends on what it declares. -/
theorem Closed.of_reset_eq {f f' : Frame} (hf : f.Closed) (h : f'.reset = f.reset) :
    f'.Closed := by
  intro name hname
  rw [contains_vars_of_reset_eq h]
  have hwiring : f'.wiring.reset = f.wiring.reset := congrArg wiring h
  exact hf name ((Wiring.writes_congr hwiring _).1 hname)

end Frame

/-- The endpoint of a variable is the only one in its slot. -/
theorem Slot.eq_of_of? {e : Endpoint} {name : String} (h : Slot.of? e = some (.variable name)) :
    e = .variable name :=
  Slot.of?_eq_variable_iff.1 h

namespace Scene

/-! ## Slots and endpoints -/

/-- What an endpoint shows is what the terminal in its slot shows. -/
theorem peek_of_slot (s : Scene) {e : Endpoint} {slot : Slot} (h : Slot.of? e = some slot) :
    s.peek e = (s.terminal? slot).bind Terminal.peek := by
  cases e with
  | constant c => exact absurd h (by simp [Slot.of?])
  | call id port =>
      cases h
      simp [peek, terminal?, Option.bind_assoc]
  | boundary port =>
      cases h
      simp [peek, terminal?, Option.bind_assoc]
  | «variable» name =>
      cases h
      cases hv : Assoc.find? s.frame.vars name with
      | none => simp [peek, terminal?, hv, Terminal.ofVariable, Terminal.peek, Cell.peek]
      | some t => simp [peek, terminal?, hv]

theorem peek_variable (s : Scene) (name : String) :
    s.peek (.variable name) = (s.terminal? (.variable name)).bind Terminal.peek :=
  s.peek_of_slot rfl

/-- The terminals after one was replaced that was there. -/
theorem terminal?_put {s : Scene} {slot : Slot} {t₀ : Terminal} (h : s.terminal? slot = some t₀)
    (t : Terminal) (slot' : Slot) :
    (s.put slot t).terminal? slot' = if slot = slot' then some t else s.terminal? slot' := by
  cases slot with
  | call id port =>
      obtain ⟨c, hc, hport⟩ := Option.bind_eq_some_iff.1 h
      cases slot' with
      | call id' port' =>
          by_cases hid : id = id'
          · subst hid
            simp [put, terminal?, Assoc.find?_modify, hc, Terminals.get?_set hport]
          · simp [put, terminal?, Assoc.find?_modify, hid]
      | boundary _ | «variable» _ => simp [put, terminal?]
  | boundary port =>
      obtain ⟨ts, hts, hport⟩ := Option.bind_eq_some_iff.1 h
      cases slot' with
      | boundary port' => simp [put, terminal?, hts, Terminals.get?_set hport]
      | call _ _ | «variable» _ => simp [put, terminal?]
  | «variable» name =>
      cases slot' with
      | «variable» name' =>
          by_cases hname : name = name' <;> simp [put, terminal?, Assoc.find?_insert, hname]
      | call _ _ | boundary _ => simp [put, terminal?]

/-! ## Evolutions -/

/-- The second scene comes from the first one by writing terminals, where only the slots of `may`
can have changed.  Nothing declared is different, and nothing written is unwritten. -/
structure Evolves (may : Slot → Prop) (s s' : Scene) : Prop where
  frame : s'.frame = { s.frame with calls := s'.frame.calls, vars := s'.frame.vars }
  calls : Assoc.mapValues AppliedCall.reset s'.frame.calls
    = Assoc.mapValues AppliedCall.reset s.frame.calls
  vars : s.frame.Closed → Assoc.mapValues Terminal.reset s'.frame.vars
    = Assoc.mapValues Terminal.reset s.frame.vars
  boundary : s'.boundary.map Terminals.reset = s.boundary.map Terminals.reset
  others : ∀ slot, ¬ may slot → s'.terminal? slot = s.terminal? slot
  written : ∀ e, (s.peek e).isSome = true → (s'.peek e).isSome = true

namespace Evolves

variable {may may' : Slot → Prop} {s s' s'' : Scene}

theorem refl (may : Slot → Prop) (s : Scene) : s.Evolves may s :=
  ⟨rfl, rfl, fun _ => rfl, rfl, fun _ _ => rfl, fun _ h => h⟩

theorem mono (h : s.Evolves may s') (hmay : ∀ slot, may slot → may' slot) : s.Evolves may' s' :=
  { h with others := fun slot hslot => h.others slot fun hc => hslot (hmay slot hc) }

theorem wiring (h : s.Evolves may s') : s'.frame.wiring = s.frame.wiring := by
  rw [h.frame]

theorem id (h : s.Evolves may s') : s'.frame.id = s.frame.id := by
  rw [h.frame]

/-- A closed frame is the same without contents. -/
theorem reset_frame (h : s.Evolves may s') (hs : s.frame.Closed) :
    s'.frame.reset = s.frame.reset := by
  rw [h.frame]
  simp [Frame.reset, h.calls, h.vars hs]

theorem closed (h : s.Evolves may s') (hs : s.frame.Closed) : s'.frame.Closed :=
  hs.of_reset_eq (h.reset_frame hs)

theorem trans (h : s.Evolves may s') (h' : s'.Evolves may s'') : s.Evolves may s'' where
  frame := by rw [h'.frame, h.frame]
  calls := h'.calls.trans h.calls
  vars hs := (h'.vars (h.closed hs)).trans (h.vars hs)
  boundary := h'.boundary.trans h.boundary
  others slot hslot := (h'.others slot hslot).trans (h.others slot hslot)
  written e he := h'.written e (h.written e he)

/-- What an endpoint shows can only change if its slot can. -/
theorem peek_eq (h : s.Evolves may s') {e : Endpoint}
    (he : ∀ slot, Slot.of? e = some slot → ¬ may slot) : s'.peek e = s.peek e := by
  cases hslot : Slot.of? e with
  | none =>
      cases e with
      | constant c => rfl
      | call _ _ | boundary _ | «variable» _ => exact absurd hslot (by simp [Slot.of?])
  | some slot =>
      rw [peek_of_slot _ hslot, peek_of_slot _ hslot, h.others slot (he slot hslot)]

end Evolves

/-- What a mapping reads can only change if the slot of its source can. -/
theorem Evolves.read_eq {may : Slot → Prop} {s s' : Scene} (h : s.Evolves may s') {m : Mapping}
    (hm : ∀ slot, Slot.of? m.source = some slot → ¬ may slot) : s'.read m = s.read m := by
  rw [read, read, h.peek_eq hm]

/-- The second scene declares what the first one does, however the contents and the authority
differ. -/
structure Keeps (s s' : Scene) : Prop where
  boundary : s'.boundary.map Terminals.reset = s.boundary.map Terminals.reset
  frame : s.frame.Closed → s'.frame.reset = s.frame.reset

namespace Keeps

variable {s s' s'' : Scene}

theorem refl (s : Scene) : s.Keeps s := ⟨rfl, fun _ => rfl⟩

theorem closed (h : s.Keeps s') (hs : s.frame.Closed) : s'.frame.Closed :=
  hs.of_reset_eq (h.frame hs)

theorem trans (h : s.Keeps s') (h' : s'.Keeps s'') : s.Keeps s'' where
  boundary := h'.boundary.trans h.boundary
  frame hs := (h'.frame (h.closed hs)).trans (h.frame hs)

end Keeps

theorem Evolves.keeps {may : Slot → Prop} {s s' : Scene} (h : s.Evolves may s') : s.Keeps s' :=
  ⟨h.boundary, h.reset_frame⟩

/-! ## Writing -/

theorem evolves_put {s : Scene} {slot : Slot} {t₀ t : Terminal} (h : s.terminal? slot = some t₀)
    (hreset : t.reset = t₀.reset) (hwritten : t₀.isWritten = true → t.isWritten = true)
    (hslot : s.frame.Closed → s.frame.Declares slot) : s.Evolves (· = slot) (s.put slot t) where
  frame := by cases slot <;> rfl
  calls := by
    cases slot with
    | call id port =>
        obtain ⟨c, hc, hport⟩ := Option.bind_eq_some_iff.1 h
        apply Assoc.mapValues_modify
        intro c' hc'
        obtain rfl : c = c' := Option.some.inj (hc.symm.trans hc')
        simp [AppliedCall.reset, Terminals.reset_set hport hreset]
    | boundary port => rfl
    | «variable» name => rfl
  vars hs := by
    cases slot with
    | call id port => rfl
    | boundary port => rfl
    | «variable» name =>
        obtain ⟨t₁, ht₁⟩ := Option.isSome_iff_exists.1 (hslot hs name rfl)
        have : t₁ = t₀ := by simpa [terminal?, ht₁] using h
        exact Assoc.mapValues_insert_of_find? ht₁ (by rw [hreset, this])
  boundary := by
    cases slot with
    | call id port => rfl
    | boundary port =>
        obtain ⟨ts, hts, hport⟩ := Option.bind_eq_some_iff.1 h
        simp [put, hts, Terminals.reset_set hport hreset]
    | «variable» name => rfl
  others slot' hne := by rw [terminal?_put h, if_neg fun hc => hne hc.symm]
  written e he := by
    cases hslot' : Slot.of? e with
    | none =>
        cases e with
        | constant c => rfl
        | call _ _ | boundary _ | «variable» _ => exact absurd hslot' (by simp [Slot.of?])
    | some slot' =>
        rw [peek_of_slot _ hslot'] at he ⊢
        rw [terminal?_put h]
        split
        · rename_i heq
          subst heq
          simp only [h, Option.bind_some, Terminal.isSome_peek] at he ⊢
          exact hwritten he
        · exact he

/-- **A write changes nothing but its own slot**, whether or not it succeeds. -/
theorem evolves_write (s : Scene) (slot : Slot) (writes : List (Option Strategy × Value))
    (hslot : s.frame.Closed → s.frame.Declares slot) :
    s.Evolves (· = slot) (s.write slot writes).2 := by
  cases writes with
  | nil => exact .refl _ s
  | cons w rest =>
      unfold write
      cases ht : s.terminal? slot with
      | none => exact .refl _ s
      | some t =>
          exact evolves_put ht (t.reset_writeAll _) (fun h => Terminal.isWritten_writeAll h _) hslot

/-- What a write says: nothing was to be written, or the slot is written now. -/
theorem write_eq_ok {s s' : Scene} {slot : Slot}
    {writes : List (Option Strategy × Value)} {b : Bool}
    (h : s.write slot writes = (.ok b, s')) :
    (writes = [] ∧ b = false ∧ s' = s) ∨
    (writes ≠ [] ∧ b = true ∧ ∃ t t', s.terminal? slot = some t ∧
      t.writeAll writes = (.ok (), t') ∧ t'.isWritten = true ∧ s' = s.put slot t') := by
  cases writes with
  | nil =>
      simp only [write, Prod.mk.injEq, Except.ok.injEq] at h
      exact .inl ⟨rfl, h.1.symm, h.2.symm⟩
  | cons w rest =>
      unfold write at h
      cases ht : s.terminal? slot with
      | none => simp [ht] at h
      | some t =>
          simp only [ht, Prod.mk.injEq] at h
          obtain ⟨hresult, rfl⟩ := h
          cases hw : (t.writeAll (w :: rest)).1 with
          | error fault => simp [hw, Except.map] at hresult
          | ok u =>
              have hb : b = true := by simpa [hw, Except.map] using hresult.symm
              exact .inr ⟨by simp, hb, t, _, rfl, Prod.ext hw rfl,
                Terminal.isWritten_writeAll_of_ok (by simp) hw, rfl⟩

/-- A write that succeeds leaves every other slot alone. -/
theorem terminal?_of_write {s s' : Scene} {slot : Slot} {writes : List (Option Strategy × Value)}
    {b : Bool} (h : s.write slot writes = (.ok b, s')) {slot' : Slot} (hne : slot ≠ slot') :
    s'.terminal? slot' = s.terminal? slot' := by
  rcases write_eq_ok h with ⟨-, -, rfl⟩ | ⟨-, -, t, t', ht, -, -, rfl⟩
  · rfl
  · rw [terminal?_put ht, if_neg hne]

end Scene

end CallFlow
