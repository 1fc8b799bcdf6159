import Mathlib.Logic.Basic

/-!
# Programs that fail

A program on a state that fails leaves the state as far as it came (`bind_apply`).  It leaves it
as it was if all that it does before the failure is to look (`Looks`), so a program is atomic
(`Atomic`) that looks first and cannot fail any more once it has written (`Looks.bind_atomic`,
`Atomic.bind`).
-/

namespace CallFlow

variable {ε σ α β : Type} {x : ExceptT ε (StateM σ) α} {f : α → ExceptT ε (StateM σ) β}

theorem bind_apply (x : ExceptT ε (StateM σ) α) (f : α → ExceptT ε (StateM σ) β) (s : σ) :
    (x >>= f) s =
      match x s with
      | (.ok a, s') => f a s'
      | (.error fault, s') => (.error fault, s') := by
  change (ExceptT.bind x f) s = _
  simp only [ExceptT.bind, ExceptT.mk, bind, StateT.bind]
  rcases x s with ⟨_ | _, _⟩ <;> rfl

theorem lift_bind_of_ok {r : Except ε α} {a : α} (h : r = .ok a)
    (f : α → ExceptT ε (StateM σ) β) (s : σ) :
    (liftM r >>= f) s = f a s := by
  rw [h, bind_apply]
  rfl

theorem lift_bind_of_error {r : Except ε α} {fault : ε} (h : r = .error fault)
    (f : α → ExceptT ε (StateM σ) β)
    (s : σ) : (liftM r >>= f) s = (.error fault, s) := by
  rw [h, bind_apply]
  rfl

/-- The program leaves every state as it is. -/
def Looks (x : ExceptT ε (StateM σ) α) : Prop := ∀ s, (x s).2 = s

/-- If the program fails, it leaves the state as it was. -/
def Atomic (x : ExceptT ε (StateM σ) α) : Prop := ∀ s fault s', x s = (.error fault, s') → s' = s

theorem Looks.atomic (h : Looks x) : Atomic x := fun s fault s' hrun => by
  have hsame := h s
  rwa [hrun] at hsame

theorem Looks.bind (hx : Looks x) (hf : ∀ a, Looks (f a)) : Looks (x >>= f) := fun s => by
  have hsame := hx s
  rw [bind_apply]
  split
  · rename_i a s' hrun
    rw [hrun] at hsame
    obtain rfl : s' = s := hsame
    exact hf a s'
  · rename_i fault s' hrun
    rwa [hrun] at hsame

/-- A program that only looks can stand before one that is atomic. -/
theorem Looks.bind_atomic (hx : Looks x) (hf : ∀ a, Atomic (f a)) :
    Atomic (x >>= f) := fun s fault s' hrun => by
  have hsame := hx s
  rw [bind_apply] at hrun
  split at hrun
  · rename_i a s'' hfirst
    rw [hfirst] at hsame
    obtain rfl : s'' = s := hsame
    exact hf a _ _ _ hrun
  · rename_i fault' s'' hfirst
    rw [hfirst] at hsame
    obtain ⟨-, rfl⟩ := Prod.mk.inj hrun
    exact hsame

/-- A program that succeeds where it is made can stand behind one that is atomic. -/
theorem Atomic.bind (hx : Atomic x)
    (hf : ∀ {s a s'}, x s = (.ok a, s') → ∃ b s'', f a s' = (.ok b, s'')) : Atomic (x >>= f) :=
  fun s fault s' hrun => by
    rw [bind_apply] at hrun
    split at hrun
    · rename_i a s'' hfirst
      obtain ⟨b, s₃, hlater⟩ := hf hfirst
      exact absurd (congrArg Prod.fst (hlater.symm.trans hrun)) (by simp)
    · rename_i fault' s'' hfirst
      obtain ⟨-, rfl⟩ := Prod.mk.inj hrun
      exact hx _ _ _ hfirst

theorem Atomic.discard (h : Atomic x) : Atomic (discard x : ExceptT ε (StateM σ) Unit) :=
  Atomic.bind h fun _ => ⟨_, _, rfl⟩

theorem atomic_of_succeeds (h : ∀ s, ∃ a s', x s = (.ok a, s')) :
    Atomic x := fun s fault s' hrun => by
  obtain ⟨a, s'', hok⟩ := h s
  exact absurd (congrArg Prod.fst (hok.symm.trans hrun)) (by simp)

theorem looks_pure (a : α) : Looks (pure a : ExceptT ε (StateM σ) α) := fun _ => rfl

theorem looks_throw (fault : ε) : Looks (throw fault : ExceptT ε (StateM σ) α) := fun _ => rfl

theorem looks_get : Looks (get : ExceptT ε (StateM σ) σ) := fun _ => rfl

/-- The outcome of a computation without a state does not depend on one. -/
theorem looks_lift (r : Except ε α) : Looks (liftM r : ExceptT ε (StateM σ) α) := fun _ => rfl

end CallFlow
