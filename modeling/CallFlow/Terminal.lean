import CallFlow.Cell
import CallFlow.Description
import CallFlow.RunFault

/-!
# Terminals

A terminal is a cell with a declared type, at a port of a call or in a variable.  A write that the
type does not allow fails and leaves the cell alone.

`Terminals` are all terminals of one call, addressed by port.
-/

namespace CallFlow

/-- A cell with a type. -/
structure Terminal where
  place : Place
  valueType : ValueType
  /-- Is the type that of each element? -/
  elementwise : Bool
  /-- Are writes checked against the type? -/
  checked : Bool
  cell : Cell := {}

namespace Terminal

/-- The terminal of a port. -/
def ofPort (site : Site) (port : Port) (name : String) (valueType : ValueType)
    (elementwise checked : Bool) : Terminal :=
  { place := .port site port name, valueType, elementwise, checked }

/-- The terminal of a variable, which has no type. -/
def ofVariable (name : String) : Terminal :=
  { place := .variable name, valueType := .any, elementwise := false, checked := false }

/-- The name of the parameter, output or variable. -/
def name (t : Terminal) : String := t.place.name

/-- The value that the terminal shows. -/
def peek (t : Terminal) : Option Value := t.cell.peek

/-- Does the terminal hold anything? -/
def isWritten (t : Terminal) : Bool := t.cell.isWritten

/-- Was the terminal written since its owner last read it? -/
def isFresh (t : Terminal) : Bool := t.cell.isFresh

/-- Marks the contents as read. -/
def consume (t : Terminal) : Terminal := { t with cell := t.cell.consume }

/-- Reads the value, which works once after a write. -/
def take (t : Terminal) : Option Value × Terminal :=
  let (v, cell) := t.cell.take
  (v, { t with cell })

/-- The terminal without contents. -/
def reset (t : Terminal) : Terminal := { t with cell := t.cell.clear }

/-- Fails unless the type accepts the value. -/
def expect (t : Terminal) (v : Value) : Except RunFault Unit :=
  if t.valueType.accepts v.valueType then .ok ()
  else .error (.typeMismatch t.place t.valueType (.whole v))

/-- Fails unless the type is that of the container. -/
def expectContainer (t : Terminal) (container : ValueType) (v : Value) : Except RunFault Unit :=
  if t.valueType = container then .ok ()
  else .error (.typeMismatch t.place t.valueType (.element container v))

/-- Does the type allow the write?  Where it is that of each element, whole lists and maps are
checked element by element; elsewhere an element can only go into a container. -/
def check (t : Terminal) (strategy : Option Strategy) (v : Value) : Except RunFault Unit :=
  if !t.checked || t.valueType = .any then .ok ()
  else if t.elementwise then
    match strategy, v with
    | some _, v => t.expect v
    | none, .list items => items.forM t.expect
    | none, .map entries => (Assoc.values entries).forM t.expect
    | none, v => t.expect v
  else
    match strategy with
    | none => t.expect v
    | some (.key _) => t.expectContainer .map v
    | some (.index _) | some .append => t.expectContainer .list v

/-- Writes by a strategy, or the whole value without one. -/
def write (t : Terminal) (strategy : Option Strategy) (v : Value) : Except RunFault Terminal :=
  match t.check strategy v with
  | .ok () => .ok { t with cell := t.cell.writeBy strategy v }
  | .error fault => .error fault

/-- Writes one after the other, up to the first that fails. -/
def writeAll : Terminal → List (Option Strategy × Value) → Except RunFault Unit × Terminal
  | t, [] => (.ok (), t)
  | t, (strategy, v) :: rest =>
      match t.write strategy v with
      | .ok t' => writeAll t' rest
      | .error fault => (.error fault, t)

/-! ## What writing does to a terminal -/

theorem isSome_peek (t : Terminal) : t.peek.isSome = t.isWritten := t.cell.isSome_peek

@[simp] theorem reset_reset (t : Terminal) : t.reset.reset = t.reset := rfl

@[simp] theorem reset_consume (t : Terminal) : t.consume.reset = t.reset := rfl

@[simp] theorem reset_ofVariable (name : String) : (ofVariable name).reset = ofVariable name := rfl

theorem write_eq_ok {t t' : Terminal} {strategy : Option Strategy} {v : Value}
    (h : t.write strategy v = .ok t') : t' = { t with cell := t.cell.writeBy strategy v } := by
  unfold write at h
  split at h
  · exact (Except.ok.inj h).symm
  · exact absurd h (by simp)

theorem expect_eq_error {t : Terminal} {v : Value} {fault : RunFault}
    (h : t.expect v = .error fault) : fault = .typeMismatch t.place t.valueType (.whole v) := by
  unfold expect at h
  split at h
  · exact absurd h (by simp)
  · exact (Except.error.inj h).symm

theorem expectContainer_eq_error {t : Terminal} {container : ValueType} {v : Value}
    {fault : RunFault} (h : t.expectContainer container v = .error fault) :
    fault = .typeMismatch t.place t.valueType (.element container v) := by
  unfold expectContainer at h
  split at h
  · exact absurd h (by simp)
  · exact (Except.error.inj h).symm

theorem forM_expect_eq_error {t : Terminal} {vs : List Value} {fault : RunFault}
    (h : vs.forM t.expect = .error fault) :
    ∃ v ∈ vs, fault = .typeMismatch t.place t.valueType (.whole v) := by
  induction vs with
  | nil => exact absurd h (by simp [pure, Except.pure])
  | cons v rest ih =>
      change (t.expect v >>= fun _ => rest.forM t.expect) = .error fault at h
      cases hv : t.expect v with
      | error fault' =>
          rw [hv] at h
          obtain rfl := Except.error.inj h
          exact ⟨v, by simp, expect_eq_error hv⟩
      | ok _ =>
          rw [hv] at h
          obtain ⟨u, hu, hfault⟩ := ih h
          exact ⟨u, List.mem_cons_of_mem _ hu, hfault⟩

/-- A check that fails says which terminal does not take what. -/
theorem check_eq_error {t : Terminal} {strategy : Option Strategy} {v : Value} {fault : RunFault}
    (h : t.check strategy v = .error fault) :
    ∃ written, fault = .typeMismatch t.place t.valueType written := by
  have hexpect : ∀ {u}, t.expect u = .error fault →
      ∃ written, fault = .typeMismatch t.place t.valueType written :=
    fun h => ⟨_, expect_eq_error h⟩
  have hforM : ∀ {us : List Value}, us.forM t.expect = .error fault →
      ∃ written, fault = .typeMismatch t.place t.valueType written := fun h => by
    obtain ⟨u, -, hfault⟩ := forM_expect_eq_error h
    exact ⟨_, hfault⟩
  unfold check at h
  split at h
  · exact absurd h (by simp)
  · split at h
    · split at h
      · exact hexpect h
      · exact hforM h
      · exact hforM h
      · exact hexpect h
    · split at h
      · exact hexpect h
      · exact ⟨_, expectContainer_eq_error h⟩
      · exact ⟨_, expectContainer_eq_error h⟩
      · exact ⟨_, expectContainer_eq_error h⟩

/-- A write fails only in the check. -/
theorem write_eq_error {t : Terminal} {strategy : Option Strategy} {v : Value} {fault : RunFault}
    (h : t.write strategy v = .error fault) :
    ∃ written, fault = .typeMismatch t.place t.valueType written := by
  unfold write at h
  split at h
  · exact absurd h (by simp)
  · rename_i fault' hcheck
    obtain rfl := Except.error.inj h
    exact check_eq_error hcheck

theorem reset_write {t t' : Terminal} {strategy : Option Strategy} {v : Value}
    (h : t.write strategy v = .ok t') : t'.reset = t.reset := by
  rw [write_eq_ok h]
  rfl

theorem isWritten_write {t t' : Terminal} {strategy : Option Strategy} {v : Value}
    (h : t.write strategy v = .ok t') : t'.isWritten = true := by
  rw [write_eq_ok h]
  exact t.cell.isWritten_writeBy strategy v

theorem isFresh_write {t t' : Terminal} {strategy : Option Strategy} {v : Value}
    (h : t.write strategy v = .ok t') : t'.isFresh = true := by
  rw [write_eq_ok h]
  exact t.cell.isFresh_writeBy strategy v

/-- A whole value that was written is what the terminal shows. -/
theorem peek_write_none {t t' : Terminal} {v : Value} (h : t.write none v = .ok t') :
    t'.peek = some v := by
  rw [write_eq_ok h]
  rfl

/-- The same for a list of one write. -/
theorem peek_writeAll_one {t t' : Terminal} {v : Value}
    (h : t.writeAll [(none, v)] = (.ok (), t')) :
    t'.peek = some v := by
  rw [writeAll] at h
  split at h
  · rename_i t'' ht
    obtain rfl : t'' = t' := congrArg Prod.snd h
    exact peek_write_none ht
  · exact absurd h (by simp)

theorem reset_writeAll (t : Terminal) (writes : List (Option Strategy × Value)) :
    (t.writeAll writes).2.reset = t.reset := by
  induction writes generalizing t with
  | nil => rfl
  | cons w rest ih =>
    obtain ⟨strategy, v⟩ := w
    unfold writeAll
    split
    · rename_i t' h
      rw [ih t', reset_write h]
    · rfl

/-- Writes fail only in the check of one of them. -/
theorem writeAll_eq_error {t : Terminal} {writes : List (Option Strategy × Value)}
    {fault : RunFault}
    (h : (t.writeAll writes).1 = .error fault) :
    ∃ written, fault = .typeMismatch t.place t.valueType written := by
  induction writes generalizing t with
  | nil => exact absurd h (by simp [writeAll])
  | cons w rest ih =>
    obtain ⟨strategy, v⟩ := w
    unfold writeAll at h
    split at h
    · rename_i t' ht
      obtain ⟨written, hfault⟩ := ih h
      rw [write_eq_ok ht] at hfault
      exact ⟨written, hfault⟩
    · rename_i fault' ht
      obtain rfl := Except.error.inj h
      exact write_eq_error ht

/-- Writing never leaves a written terminal unwritten. -/
theorem isWritten_writeAll {t : Terminal} (h : t.isWritten = true)
    (writes : List (Option Strategy × Value)) : (t.writeAll writes).2.isWritten = true := by
  induction writes generalizing t with
  | nil => exact h
  | cons w rest ih =>
    obtain ⟨strategy, v⟩ := w
    unfold writeAll
    split
    · rename_i t' ht
      exact ih (isWritten_write ht)
    · exact h

theorem isWritten_writeAll_of_ok {t : Terminal} {writes : List (Option Strategy × Value)}
    (hne : writes ≠ []) (h : (t.writeAll writes).1 = .ok ()) :
    (t.writeAll writes).2.isWritten = true := by
  obtain ⟨⟨strategy, v⟩, rest, rfl⟩ := List.exists_cons_of_ne_nil hne
  cases ht : t.write strategy v with
  | ok t' =>
      rw [writeAll, ht]
      exact isWritten_writeAll (isWritten_write ht) rest
  | error fault =>
      rw [writeAll, ht] at h
      exact absurd h (by simp)

end Terminal

/-- The terminals of one call. -/
structure Terminals where
  params : List Terminal
  receiver : Option Terminal
  output : Terminal
  selfOutput : Option Terminal

namespace Terminals

/-- The terminals of the parameters, from a position on. -/
def ofParams (site : Site) (checked : Bool) : (position : Nat) → List Param → List Terminal
  | _, [] => []
  | i, p :: rest =>
      Terminal.ofPort site (.ofPosition i) p.name p.valueType p.isVariadic checked
        :: ofParams site checked (i + 1) rest

/-- The unwritten terminals that a description declares. -/
def ofDescription (d : Description) (site : Site) (checked : Bool) : Terminals :=
  { params := ofParams site checked 0 d.params
    receiver := d.receiver.map fun r =>
      Terminal.ofPort site .receiver r.name r.valueType false checked
    output := Terminal.ofPort site .output d.output.name d.output.valueType false checked
    selfOutput := d.selfOutput.map fun o =>
      Terminal.ofPort site .selfOutput o.name o.valueType false checked }

/-- The terminal at a port. -/
def get? (ts : Terminals) : Port → Option Terminal
  | .param i => ts.params[i.toNat]?
  | .receiver => ts.receiver
  | .output => some ts.output
  | .selfOutput => ts.selfOutput

/-- Replaces the terminal at a port, which has to be there. -/
def set (ts : Terminals) (port : Port) (t : Terminal) : Terminals :=
  match port with
  | .param i => { ts with params := ts.params.set i.toNat t }
  | .receiver => { ts with receiver := some t }
  | .output => { ts with output := t }
  | .selfOutput => { ts with selfOutput := some t }

/-- Parameters, receiver, output and self-output, in this order. -/
def toList (ts : Terminals) : List Terminal :=
  ts.params ++ ts.receiver.toList ++ [ts.output] ++ ts.selfOutput.toList

/-- Changes the terminals that the call reads. -/
def mapInputs (f : Terminal → Terminal) (ts : Terminals) : Terminals :=
  { ts with params := ts.params.map f, receiver := ts.receiver.map f }

/-- Marks all inputs as read. -/
def consumeInputs (ts : Terminals) : Terminals := ts.mapInputs Terminal.consume

/-- The terminals with unwritten outputs. -/
def resetOutputs (ts : Terminals) : Terminals :=
  { ts with output := ts.output.reset, selfOutput := ts.selfOutput.map Terminal.reset }

/-- The terminals without contents. -/
def reset (ts : Terminals) : Terminals := (ts.mapInputs Terminal.reset).resetOutputs

/-- Writes the terminal of the first parameter, else of the receiver, that has the name; nothing if
none has it. -/
def writeInput? (ts : Terminals) (name : String) (v : Value) : Option (Except RunFault Terminals) :=
  match ts.params.findIdx? fun t => t.name == name with
  | some i =>
      ts.params[i]?.map fun t =>
        (t.write none v).map fun t' => { ts with params := ts.params.set i t' }
  | none =>
      match ts.receiver with
      | some r =>
          if r.name == name then
            some ((r.write none v).map fun r' => { ts with receiver := some r' })
          else none
      | none => none

/-! ## Terminals by port -/

theorem reset_eq (ts : Terminals) :
    ts.reset = ⟨ts.params.map Terminal.reset, ts.receiver.map Terminal.reset, ts.output.reset,
      ts.selfOutput.map Terminal.reset⟩ := rfl

@[simp] theorem reset_reset (ts : Terminals) : ts.reset.reset = ts.reset := by
  simp [reset_eq, Function.comp_def]

@[simp] theorem reset_resetOutputs (ts : Terminals) : ts.resetOutputs.reset = ts.reset := by
  simp [reset_eq, resetOutputs, Function.comp_def]

@[simp] theorem reset_consumeInputs (ts : Terminals) : ts.consumeInputs.reset = ts.reset := by
  simp [reset_eq, consumeInputs, mapInputs, Function.comp_def]

theorem get?_reset (ts : Terminals) (port : Port) :
    ts.reset.get? port = (ts.get? port).map Terminal.reset := by
  cases port <;> simp [reset_eq, get?]

/-- The terminal at a port after one was replaced that was there. -/
theorem get?_set {ts : Terminals} {port : Port} {t₀ : Terminal} (h : ts.get? port = some t₀)
    (t : Terminal) (port' : Port) :
    (ts.set port t).get? port' = if port = port' then some t else ts.get? port' := by
  cases port with
  | param i =>
      have hi : i.toNat < ts.params.length := (List.getElem?_eq_some_iff.1 h).1
      cases port' with
      | param j =>
          by_cases hij : i = j
          · subst hij
            simp [set, get?, hi]
          · have hne : i.toNat ≠ j.toNat := fun hc => hij (UInt16.toNat_inj.1 hc)
            simp [set, get?, hij, List.getElem?_set_ne hne]
      | receiver | output | selfOutput => rfl
  | receiver | output | selfOutput => cases port' <;> simp [set, get?]

theorem reset_set {ts : Terminals} {port : Port} {t₀ t : Terminal} (h : ts.get? port = some t₀)
    (ht : t.reset = t₀.reset) : (ts.set port t).reset = ts.reset := by
  cases port with
  | param i =>
      obtain ⟨hi, hget⟩ := List.getElem?_eq_some_iff.1 h
      have hparams :
          (ts.params.set i.toNat t).map Terminal.reset = ts.params.map Terminal.reset := by
        rw [List.map_set, ht, ← hget, ← List.getElem_map Terminal.reset (h := by simpa using hi)]
        exact List.set_getElem_self _
      simp [reset_eq, set, hparams]
  | receiver => simp_all [reset_eq, set, get?]
  | output => simp_all [reset_eq, set, get?]
  | selfOutput => simp_all [reset_eq, set, get?]

/-- An input that was written by name is one of the parameters or the receiver. -/
theorem writeInput?_eq_ok {ts ts' : Terminals} {name : String} {v : Value}
    (h : ts.writeInput? name v = some (.ok ts')) :
    (∃ i t t', ts.params[i]? = some t ∧ t.write none v = .ok t' ∧
      ts' = { ts with params := ts.params.set i t' }) ∨
    ∃ t t', ts.receiver = some t ∧ t.write none v = .ok t' ∧
      ts' = { ts with receiver := some t' } := by
  -- both ways write one terminal and put it where it was
  have hmap : ∀ {t : Terminal} {f : Terminal → Terminals}, (t.write none v).map f = .ok ts' →
      ∃ t', t.write none v = .ok t' ∧ ts' = f t' := fun {t f} h => by
    cases hw : t.write none v with
    | error fault =>
        rw [hw] at h
        exact absurd h (by simp [Except.map])
    | ok t' =>
        rw [hw] at h
        exact ⟨t', rfl, (Except.ok.inj h).symm⟩
  unfold writeInput? at h
  split at h
  · rename_i i _
    obtain ⟨t, ht, h⟩ := Option.map_eq_some_iff.1 h
    obtain ⟨t', ht', rfl⟩ := hmap h
    exact .inl ⟨i, t, t', ht, ht', rfl⟩
  · split at h
    · rename_i t ht
      split at h
      · obtain ⟨t', ht', rfl⟩ := hmap (Option.some.inj h)
        exact .inr ⟨t, t', ht, ht', rfl⟩
      · exact absurd h (by simp)
    · exact absurd h (by simp)

theorem reset_writeInput? {ts ts' : Terminals} {name : String} {v : Value}
    (h : ts.writeInput? name v = some (.ok ts')) : ts'.reset = ts.reset := by
  rcases writeInput?_eq_ok h with ⟨i, t, t', ht, ht', rfl⟩ | ⟨t, t', ht, ht', rfl⟩
  · obtain ⟨hi, rfl⟩ := List.getElem?_eq_some_iff.1 ht
    have hparams : (ts.params.set i t').map Terminal.reset = ts.params.map Terminal.reset := by
      rw [List.map_set, Terminal.reset_write ht',
        ← List.getElem_map Terminal.reset (h := by simpa using hi)]
      exact List.set_getElem_self _
    simp [reset_eq, hparams]
  · simp [reset_eq, ht, Terminal.reset_write ht']

end Terminals

end CallFlow
