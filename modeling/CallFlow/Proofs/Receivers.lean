import CallFlow.Host.Standard
import CallFlow.Proofs.Effects

/-!
# Receivers

What the methods of the standard registry reply, and what their receivers are then
(`Registry.reply?`).

A method works on its receiver in place (`Work`).  That it only looks, or is atomic, is shown step
by step and passed on to the callable (`Callable.isReading_working`, `Callable.isAtomic_working`).
-/

namespace CallFlow

namespace Work

variable {α β : Type} {as : Value → Except HostFault α} {f : α → Work β}

theorem receiver_bind (f : Value → Work α) (v : Value) :
    (receiver >>= f) (some v) = f v (some v) := by
  rw [bind_apply]
  rfl

theorem looks_receiver : Looks receiver :=
  looks_get.bind fun receiver => by
    cases receiver with
    | some v => exact looks_pure v
    | none => exact looks_throw _

theorem looks_onCopy (v : Value) (x : Work α) : Looks (onCopy v x) := fun _ => rfl

theorem view_bind {v : Value} {a : α} (h : as v = .ok a) (f : α → Work β) :
    (do f (← as (← receiver)) : Work β) (some v) = f a (some v) := by
  rw [receiver_bind, lift_bind_of_ok h]

/-- To see the receiver as what it should be is only to look. -/
theorem looks_view (hf : ∀ a, Looks (f a)) : Looks (do f (← as (← receiver))) :=
  looks_receiver.bind fun _ => (looks_lift _).bind hf

theorem atomic_view (hf : ∀ a, Atomic (f a)) : Atomic (do f (← as (← receiver))) :=
  looks_receiver.bind_atomic fun _ => (looks_lift _).bind_atomic hf

/-- To write is the last thing that can be done, if it is not to fail any more. -/
theorem atomic_write (v : Value) (a : α) : Atomic (do write v; return a) :=
  atomic_of_succeeds fun _ => ⟨a, _, rfl⟩

end Work

namespace Callable

/-- The callable leaves every receiver as it is. -/
def IsReading (f : Callable) : Prop := ∀ inv, (Invocation.send inv f).receiver = inv.receiver

/-- If the callable fails, it leaves the receiver as it was. -/
def IsAtomic (f : Callable) : Prop :=
  ∀ inv fault, (Invocation.send inv f).result = .error fault →
    (Invocation.send inv f).receiver = inv.receiver

theorem IsReading.isAtomic {f : Callable} (h : IsReading f) : IsAtomic f := fun inv _ _ => h inv

/-- A receiver is kept where the callable itself says that it is as it was. -/
theorem receiver_send {f : Callable} {inv : Invocation} (h : (f inv).receiver = inv.receiver) :
    (Invocation.send inv f).receiver = inv.receiver := by
  show (inv.receiver.map fun old => (f inv).receiver.getD old) = inv.receiver
  rw [h]
  cases inv.receiver <;> rfl

theorem isReading_reading (f : Invocation → Except HostFault Value) : IsReading (reading f) :=
  fun _ => receiver_send rfl

theorem isReading_unary (f : Value → Except HostFault Value) : IsReading (unary f) :=
  isReading_reading _

theorem isReading_binary (f : Value → Value → Except HostFault Value) : IsReading (binary f) :=
  isReading_reading _

theorem isReading_working {f : Invocation → Work Value} (h : ∀ inv, Looks (f inv)) :
    IsReading (working f) :=
  fun inv => receiver_send (h inv inv.receiver)

theorem isAtomic_working {f : Invocation → Work Value} (h : ∀ inv, Atomic (f inv)) :
    IsAtomic (working f) :=
  fun inv fault hresult => receiver_send (h inv inv.receiver fault _ (Prod.ext hresult rfl))

end Callable

namespace Invocation

variable {f : Invocation → Work Value} {args : List Value} {kwargs : List (String × Value)}
  {receiver : Value}

theorem single_singleton (v : Value) (kwargs : List (String × Value)) (receiver : Option Value) :
    single ⟨[v], kwargs, receiver⟩ = .ok v := rfl

/-- The reply of a method is what its work comes to. -/
theorem send_working {result : Except HostFault Value} {left : Value}
    (h : f ⟨args, kwargs, some receiver⟩ (some receiver) = (result, some left)) :
    send ⟨args, kwargs, some receiver⟩ (.working f) = ⟨result, some left⟩ := by
  rw [send, Callable.working]
  simp only [h]
  rfl

end Invocation

namespace Host

theorem asList_list (items : List Value) : asList (.list items) = .ok items := rfl

/-! ## Cursors -/

variable {items : List Value} {position : Nat} {v : Value} {args : List Value}
  {kwargs : List (String × Value)}

theorem advance_of_getElem? (h : items[position]? = some v) :
    advance (some (.iterator items position)) = (.ok v, some (.iterator items (position + 1))) := by
  rw [advance, Work.receiver_bind]
  simp only [h]
  rfl

theorem advance_of_none (h : items[position]? = none) :
    advance (some (.iterator items position)) =
      (.error .exhausted, some (.iterator items position)) := by
  rw [advance, Work.receiver_bind]
  simp only [h]
  rfl

/-- A cursor gives the item at its position, and moves on. -/
theorem send_next (h : items[position]? = some v) :
    Invocation.send ⟨args, kwargs, some (.iterator items position)⟩ (.working next)
      = ⟨.ok v, some (.iterator items (position + 1))⟩ :=
  Invocation.send_working (advance_of_getElem? h)

/-- A cursor behind its items stays there. -/
theorem send_next_of_none (h : items[position]? = none) :
    Invocation.send ⟨args, kwargs, some (.iterator items position)⟩ (.working next)
      = ⟨.error .exhausted, some (.iterator items position)⟩ :=
  Invocation.send_working (advance_of_none h)

end Host

namespace Registry

/-- What the member of a receiver replies, if the receiver has one of the name. -/
def reply? (r : Registry) (receiver : Value) (member : String) (args : List Value)
    (kwargs : List (String × Value)) :
    Option Reply :=
  (r.resolveMember receiver member).map (Invocation.send ⟨args, kwargs, some receiver⟩)

end Registry

end CallFlow
