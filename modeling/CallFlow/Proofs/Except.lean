/-!
# Computations that can fail

What a computation made of parts says about them: if it succeeds they have succeeded, and if it
fails the first of them that fails says why.
-/

namespace CallFlow

variable {ε ε' α β : Type} {x : Except ε α}

/-- The parts of a computation that has succeeded. -/
theorem bind_eq_ok {f : α → Except ε β} {b : β} (h : (x >>= f) = .ok b) :
    ∃ a, x = .ok a ∧ f a = .ok b := by
  cases x with
  | error fault => cases h
  | ok a => exact ⟨a, rfl, h⟩

/-- A computation fails in its first part or in the rest. -/
theorem bind_eq_error {f : α → Except ε β} {fault : ε} (h : (x >>= f) = .error fault) :
    x = .error fault ∨ ∃ a, x = .ok a ∧ f a = .error fault := by
  cases x with
  | error fault' =>
      obtain rfl := Except.error.inj h
      exact .inl rfl
  | ok a => exact .inr ⟨a, rfl, h⟩

/-- A computation whose result is changed succeeds as it does without. -/
theorem map_eq_ok {f : α → β} {b : β} (h : x.map f = .ok b) : ∃ a, x = .ok a ∧ b = f a := by
  cases x with
  | error fault => cases h
  | ok a => exact ⟨a, rfl, (Except.ok.inj h).symm⟩

/-- A computation whose result is changed fails as it does without. -/
theorem map_eq_error {f : α → β} {fault : ε} (h : x.map f = .error fault) : x = .error fault := by
  cases x with
  | error fault' =>
      obtain rfl : fault' = fault := Except.error.inj h
      rfl
  | ok a => cases h

/-- A computation that has succeeded does so whatever its faults are called. -/
theorem mapError_eq_ok {f : ε → ε'} {a : α} (h : x.mapError f = .ok a) : x = .ok a := by
  cases x with
  | error fault => cases h
  | ok b =>
      obtain rfl : b = a := Except.ok.inj h
      rfl

/-- A computation with renamed faults fails as it does without. -/
theorem mapError_eq_error {f : ε → ε'} {fault : ε'} (h : x.mapError f = .error fault) :
    ∃ e, x = .error e ∧ fault = f e := by
  cases x with
  | error e => exact ⟨e, rfl, (Except.error.inj h).symm⟩
  | ok a => cases h

/-- A computation over a list that has succeeded has done so at every position. -/
theorem getElem?_of_mapM_eq_ok {f : α → Except ε β} {as : List α} {bs : List β}
    (h : as.mapM f = .ok bs) {i : Nat} {a : α} (ha : as[i]? = some a) :
    ∃ b, f a = .ok b ∧ bs[i]? = some b := by
  induction as generalizing bs i with
  | nil => exact absurd ha (by simp)
  | cons first rest ih =>
      rw [List.mapM_cons] at h
      obtain ⟨b, hb, h⟩ := bind_eq_ok h
      obtain ⟨others, hothers, h⟩ := bind_eq_ok h
      obtain rfl := Except.ok.inj h
      cases i with
      | zero =>
          obtain rfl : first = a := by simpa using ha
          exact ⟨b, hb, rfl⟩
      | succ i =>
          obtain ⟨b', hb', hi⟩ := ih hothers (by simpa using ha)
          exact ⟨b', hb', by simpa using hi⟩

/-- A computation over a list fails as it does at the first element where it does. -/
theorem mapM_eq_error_iff {f : α → Except ε β} {as : List α} {fault : ε} :
    as.mapM f = .error fault ↔
      ∃ before a after, as = before ++ a :: after ∧ (∀ a ∈ before, ∃ b, f a = .ok b) ∧
        f a = .error fault := by
  induction as with
  | nil => exact iff_of_false (by simp [pure, Except.pure]) (by simp)
  | cons first rest ih =>
      rw [List.mapM_cons]
      constructor
      · intro h
        rcases bind_eq_error h with hfirst | ⟨b, hb, h⟩
        · exact ⟨[], first, rest, rfl, by simp, hfirst⟩
        · rcases bind_eq_error h with hrest | ⟨others, -, h⟩
          · obtain ⟨before, a, after, rfl, hbefore, ha⟩ := ih.1 hrest
            exact ⟨first :: before, a, after, rfl, List.forall_mem_cons.2 ⟨⟨b, hb⟩, hbefore⟩, ha⟩
          · cases h
      · rintro ⟨before, a, after, hsplit, hbefore, ha⟩
        cases before with
        | nil =>
            obtain ⟨rfl, rfl⟩ := List.cons.inj hsplit
            rw [ha]
            rfl
        | cons first' before =>
            obtain ⟨rfl, hrest⟩ := List.cons.inj hsplit
            obtain ⟨⟨b, hb⟩, hbefore⟩ := List.forall_mem_cons.1 hbefore
            rw [hb, ih.2 ⟨before, a, after, hrest, hbefore, ha⟩]
            rfl

/-- A computation over a list succeeds where it does at every element. -/
theorem exists_mapM_eq_ok_iff {f : α → Except ε β} {as : List α} :
    (∃ bs, as.mapM f = .ok bs) ↔ ∀ a ∈ as, ∃ b, f a = .ok b := by
  constructor
  · rintro ⟨bs, h⟩ a ha
    obtain ⟨i, hi⟩ := List.mem_iff_getElem?.1 ha
    obtain ⟨b, hb, -⟩ := getElem?_of_mapM_eq_ok h hi
    exact ⟨b, hb⟩
  · intro h
    cases hm : as.mapM f with
    | ok bs => exact ⟨bs, rfl⟩
    | error fault =>
        obtain ⟨before, a, after, rfl, -, ha⟩ := mapM_eq_error_iff.1 hm
        obtain ⟨b, hb⟩ := h a (by simp)
        exact absurd (ha.symm.trans hb) (by simp)

/-- A computation over a list that has failed has done so at an element. -/
theorem exists_of_mapM_eq_error {f : α → Except ε β} {as : List α} {fault : ε}
    (h : as.mapM f = .error fault) : ∃ a ∈ as, f a = .error fault := by
  obtain ⟨before, a, after, rfl, -, ha⟩ := mapM_eq_error_iff.1 h
  exact ⟨a, by simp, ha⟩

/-- A check of a list succeeds where it does at every element. -/
theorem forM_eq_ok {f : α → Except ε Unit} {as : List α} (h : ∀ a ∈ as, f a = .ok ()) :
    as.forM f = .ok () := by
  induction as with
  | nil => rfl
  | cons first rest ih =>
      have hfirst : f first = .ok () := h first (by simp)
      show (do f first; rest.forM f) = .ok ()
      rw [hfirst]
      exact ih fun a ha => h a (List.mem_cons_of_mem _ ha)

/-- A check of a list that has succeeded has done so at every element. -/
theorem of_forM_eq_ok {f : α → Except ε Unit} {as : List α} (h : as.forM f = .ok ()) :
    ∀ a ∈ as, f a = .ok () := by
  induction as with
  | nil => exact fun a ha => absurd ha (by simp)
  | cons first rest ih =>
      obtain ⟨_, hfirst, hrest⟩ := bind_eq_ok (f := fun _ => rest.forM f) h
      intro a ha
      rcases List.mem_cons.1 ha with rfl | ha
      · exact hfirst
      · exact ih hrest a ha

end CallFlow
