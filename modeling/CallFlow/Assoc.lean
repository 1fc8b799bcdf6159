/-!
# Association lists

A finite map kept as a list of pairs.  Two disciplines share the type: `insert` keeps the order in
which keys first arrived, and `insertSorted` keeps keys in increasing order.  Both give a key that
is already present its new value in the place it has.

The lemmas at the end say what a lookup finds after either kind of insertion.
-/

namespace CallFlow

/-- A finite map, as the list of its entries. -/
abbrev Assoc (κ α : Type) := List (κ × α)

namespace Assoc

variable {κ α β : Type}

/-- The keys, in the order of the entries. -/
def keys (m : Assoc κ α) : List κ := m.map (·.1)

/-- The values, in the order of the entries. -/
def values (m : Assoc κ α) : List α := m.map (·.2)

/-- The same keys, with every value changed. -/
def mapValues (f : α → β) : Assoc κ α → Assoc κ β
  | [] => []
  | (k, v) :: rest => (k, f v) :: mapValues f rest

section Lookup

variable [DecidableEq κ]

/-- The value of the first entry with the key. -/
def find? : Assoc κ α → κ → Option α
  | [], _ => none
  | (k', v) :: rest, k => if k' = k then some v else find? rest k

/-- Is there an entry with the key? -/
def contains (m : Assoc κ α) (k : κ) : Bool := (find? m k).isSome

/-- Gives the key a value: in the place of the key if it is there, else at the end. -/
def insert : Assoc κ α → κ → α → Assoc κ α
  | [], k, v => [(k, v)]
  | (k', v') :: rest, k, v => if k' = k then (k', v) :: rest else (k', v') :: insert rest k v

/-- Changes the value of the first entry with the key, if there is one. -/
def modify : Assoc κ α → κ → (α → α) → Assoc κ α
  | [], _, _ => []
  | (k', v) :: rest, k, f => if k' = k then (k', f v) :: rest else (k', v) :: modify rest k f

/-- Removes every entry with the key. -/
def erase (m : Assoc κ α) (k : κ) : Assoc κ α := m.filter fun entry => decide (entry.1 ≠ k)

/-- Inserts all entries of the second map, one after the other. -/
def insertAll : Assoc κ α → List (κ × α) → Assoc κ α
  | m, [] => m
  | m, (k, v) :: rest => insertAll (insert m k v) rest

/-- The map that arises from the empty one by inserting the pairs in turn. -/
def ofList (entries : List (κ × α)) : Assoc κ α := insertAll [] entries

/-- Gives the key a value, at the place where `before` puts it among the keys. -/
def insertSorted (before : κ → κ → Bool) : Assoc κ α → κ → α → Assoc κ α
  | [], k, v => [(k, v)]
  | (k', v') :: rest, k, v =>
      if k' = k then (k', v) :: rest
      else if before k k' then (k, v) :: (k', v') :: rest
      else (k', v') :: insertSorted before rest k v

/-- The sorted map that arises by inserting the pairs in turn. -/
def sortedOfList (before : κ → κ → Bool) (entries : List (κ × α)) : Assoc κ α :=
  entries.foldl (fun m entry => insertSorted before m entry.1 entry.2) []

/-- The list under a key of a map with lists; without an entry it is empty. -/
def getAll (m : Assoc κ (List α)) (k : κ) : List α := (find? m k).getD []

/-- Adds to the end of the list under a key. -/
def push (m : Assoc κ (List α)) (k : κ) (v : α) : Assoc κ (List α) :=
  insert m k (getAll m k ++ [v])

/-- Adds to the end of the list under a key, unless the value is there. -/
def pushNew [DecidableEq α] (m : Assoc κ (List α)) (k : κ) (v : α) : Assoc κ (List α) :=
  if v ∈ getAll m k then m else push m k v

end Lookup

/-! ## Lookups after an insertion -/

variable [DecidableEq κ]

@[simp] theorem find?_nil (k : κ) : find? ([] : Assoc κ α) k = none := rfl

theorem find?_insert (m : Assoc κ α) (k k' : κ) (v : α) :
    find? (insert m k v) k' = if k = k' then some v else find? m k' := by
  induction m with
  | nil => simp [insert, find?]
  | cons entry rest ih =>
    obtain ⟨a, w⟩ := entry
    by_cases h : a = k
    · subst h
      by_cases h' : a = k' <;> simp [insert, find?, h']
    · by_cases h' : a = k'
      · subst h'
        simp [insert, find?, h, Ne.symm h]
      · simp [insert, find?, h, h', ih]

theorem find?_insert_self (m : Assoc κ α) (k : κ) (v : α) : find? (insert m k v) k = some v := by
  simp [find?_insert]

theorem getAll_push (m : Assoc κ (List α)) (k k' : κ) (v : α) :
    getAll (push m k v) k' = if k = k' then getAll m k' ++ [v] else getAll m k' := by
  rw [push, getAll, find?_insert]
  split
  · rename_i h
    rw [h, Option.getD_some]
  · rfl

theorem getAll_pushNew [DecidableEq α] (m : Assoc κ (List α)) (k k' : κ) (v : α) :
    getAll (pushNew m k v) k' = if k = k' ∧ v ∉ getAll m k' then getAll m k' ++ [v]
      else getAll m k' := by
  by_cases hk : k = k'
  · subst hk
    by_cases hv : v ∈ getAll m k
    · rw [pushNew, if_pos hv, if_neg fun h => h.2 hv]
    · rw [pushNew, if_neg hv, getAll_push, if_pos rfl, if_pos ⟨rfl, hv⟩]
  · rw [if_neg fun h => hk h.1, pushNew]
    split
    · rfl
    · rw [getAll_push, if_neg hk]

theorem find?_insertSorted (before : κ → κ → Bool) (m : Assoc κ α) (k k' : κ) (v : α) :
    find? (insertSorted before m k v) k' = if k = k' then some v else find? m k' := by
  induction m with
  | nil => simp [insertSorted, find?]
  | cons entry rest ih =>
    obtain ⟨a, w⟩ := entry
    by_cases h : a = k
    · subst h
      by_cases h' : a = k' <;> simp [insertSorted, find?, h']
    · rw [insertSorted, if_neg h]
      split
      · simp [find?]
      · by_cases h' : a = k'
        · subst h'
          simp [find?, Ne.symm h]
        · simp [find?, h', ih]

theorem find?_modify (m : Assoc κ α) (k k' : κ) (f : α → α) :
    find? (modify m k f) k' = if k = k' then (find? m k').map f else find? m k' := by
  induction m with
  | nil => simp [modify, find?]
  | cons entry rest ih =>
    obtain ⟨a, w⟩ := entry
    by_cases h : a = k
    · subst h
      by_cases h' : a = k' <;> simp [modify, find?, h']
    · by_cases h' : a = k'
      · subst h'
        simp [modify, find?, h, Ne.symm h]
      · simp [modify, find?, h, h', ih]

theorem find?_eq_none_iff {m : Assoc κ α} {k : κ} : find? m k = none ↔ k ∉ keys m := by
  induction m with
  | nil => simp [keys]
  | cons entry rest ih =>
    obtain ⟨a, w⟩ := entry
    by_cases h : a = k
    · simp [find?, keys, h]
    · simpa [find?, keys, h, Ne.symm h] using ih

theorem mem_of_find?_eq_some {m : Assoc κ α} {k : κ} {v : α} (h : find? m k = some v) :
    (k, v) ∈ m := by
  induction m with
  | nil => simp at h
  | cons entry rest ih =>
    obtain ⟨a, w⟩ := entry
    by_cases hk : a = k
    · simp_all [find?]
    · exact List.mem_cons_of_mem _ (ih (by simpa [find?, hk] using h))

theorem find?_of_mem {m : Assoc κ α} (hnodup : (keys m).Nodup) {k : κ} {v : α} (h : (k, v) ∈ m) :
    find? m k = some v := by
  induction m with
  | nil => simp at h
  | cons entry rest ih =>
    obtain ⟨a, w⟩ := entry
    obtain ⟨hfresh, hrest⟩ := List.nodup_cons.1 hnodup
    rcases List.mem_cons.1 h with h | h
    · simp_all [find?]
    · have hk : a ≠ k := fun hk => hfresh (List.mem_map.2 ⟨(k, v), h, hk.symm⟩)
      simpa [find?, hk] using ih hrest h

theorem nodup_keys_insert {m : Assoc κ α} (h : (keys m).Nodup) (k : κ) (v : α) :
    (keys (insert m k v)).Nodup := by
  induction m with
  | nil => simp [insert, keys]
  | cons entry rest ih =>
    obtain ⟨a, w⟩ := entry
    obtain ⟨hfresh, hrest⟩ := List.nodup_cons.1 h
    rw [insert]
    split
    · exact h
    · rename_i hk
      refine List.nodup_cons.2 ⟨fun hmem => ?_, ih hrest⟩
      have hfind : (find? (insert rest k v) a).isSome = true := by
        cases hnone : find? (insert rest k v) a with
        | none => exact absurd hmem (find?_eq_none_iff.1 hnone)
        | some _ => rfl
      rw [find?_insert, if_neg (Ne.symm hk)] at hfind
      cases hsome : find? rest a with
      | none => simp [hsome] at hfind
      | some u => exact hfresh (List.mem_map_of_mem (f := (·.1)) (mem_of_find?_eq_some hsome))

theorem find?_append (m m' : Assoc κ α) (k : κ) :
    find? (m ++ m') k = (find? m k).or (find? m' k) := by
  induction m with
  | nil => rfl
  | cons entry rest ih =>
    obtain ⟨a, w⟩ := entry
    by_cases h : a = k <;> simp [find?, h, ih]

/-- Giving a key the value that it has changes nothing. -/
theorem insert_of_find? {m : Assoc κ α} {k : κ} {v : α} (h : find? m k = some v) :
    insert m k v = m := by
  induction m with
  | nil => simp at h
  | cons entry rest ih =>
    obtain ⟨a, w⟩ := entry
    by_cases hk : a = k
    · simp_all [find?, insert]
    · simp only [find?, hk, if_false] at h
      simp [insert, hk, ih h]

theorem mem_insert {m : Assoc κ α} {k : κ} {v : α} {entry : κ × α} (h : entry ∈ insert m k v) :
    entry = (k, v) ∨ entry ∈ m := by
  induction m with
  | nil => exact .inl (by simpa [insert] using h)
  | cons entry' rest ih =>
    obtain ⟨a, w⟩ := entry'
    rw [insert] at h
    split at h
    · rename_i ha
      subst ha
      rcases List.mem_cons.1 h with h | h
      · exact .inl h
      · exact .inr (List.mem_cons_of_mem _ h)
    · rcases List.mem_cons.1 h with h | h
      · exact .inr (by simp [h])
      · exact (ih h).imp_right (List.mem_cons_of_mem _)

/-! ## Changing every value -/

omit [DecidableEq κ] in
@[simp] theorem keys_mapValues (f : α → β) (m : Assoc κ α) : keys (mapValues f m) = keys m := by
  induction m with
  | nil => rfl
  | cons entry rest ih => simpa [mapValues, keys] using ih

omit [DecidableEq κ] in
theorem mapValues_mapValues {γ : Type} (g : β → γ) (f : α → β) (m : Assoc κ α) :
    mapValues g (mapValues f m) = mapValues (fun v => g (f v)) m := by
  induction m with
  | nil => rfl
  | cons entry rest ih => simp [mapValues, ih]

omit [DecidableEq κ] in
theorem mapValues_eq_self {f : α → α} {m : Assoc κ α} (h : ∀ k v, (k, v) ∈ m → f v = v) :
    mapValues f m = m := by
  induction m with
  | nil => rfl
  | cons entry rest ih =>
    obtain ⟨a, w⟩ := entry
    rw [mapValues, h a w (by simp), ih fun k v hkv => h k v (List.mem_cons_of_mem _ hkv)]

@[simp] theorem find?_mapValues (f : α → β) (m : Assoc κ α) (k : κ) :
    find? (mapValues f m) k = (find? m k).map f := by
  induction m with
  | nil => rfl
  | cons entry rest ih =>
    obtain ⟨a, w⟩ := entry
    by_cases h : a = k <;> simp [mapValues, find?, h, ih]

theorem mapValues_insert (f : α → β) (m : Assoc κ α) (k : κ) (v : α) :
    mapValues f (insert m k v) = insert (mapValues f m) k (f v) := by
  induction m with
  | nil => rfl
  | cons entry rest ih =>
    obtain ⟨a, w⟩ := entry
    by_cases h : a = k <;> simp [mapValues, insert, h, ih]

/-- A new value that looks like the old one under `f` cannot be told from it under `f`. -/
theorem mapValues_insert_of_find? {f : α → β} {m : Assoc κ α} {k : κ} {v v' : α}
    (h : find? m k = some v') (hv : f v = f v') : mapValues f (insert m k v) = mapValues f m := by
  rw [mapValues_insert, hv]
  exact insert_of_find? (by simp [h])

/-- A change that keeps what `f` shows of a value cannot be told under `f`. -/
theorem mapValues_modify {f : α → β} {g : α → α} {m : Assoc κ α} {k : κ}
    (h : ∀ v, find? m k = some v → f (g v) = f v) : mapValues f (modify m k g) = mapValues f m := by
  induction m with
  | nil => rfl
  | cons entry rest ih =>
    obtain ⟨a, w⟩ := entry
    by_cases hk : a = k
    · simp [modify, mapValues, hk, h w (by simp [find?, hk])]
    · simp [modify, mapValues, hk, ih fun v hv => h v (by simpa [find?, hk] using hv)]

end Assoc

end CallFlow
