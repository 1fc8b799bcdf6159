import CallFlow.Assoc
import Mathlib.Data.List.Nodup
import Mathlib.Data.List.Sort

/-!
# Keys of finite maps

What insertions, changes and removals do to the keys of a map, and when sorting entries leaves
them as they are.
-/

namespace CallFlow.Assoc

variable {κ α : Type} [DecidableEq κ]

theorem isSome_find?_iff {m : Assoc κ α} {k : κ} : (find? m k).isSome = true ↔ k ∈ keys m := by
  rw [Option.isSome_iff_ne_none, ne_eq, find?_eq_none_iff, Classical.not_not]

/-- Where keys are different, their order does not matter to a lookup. -/
theorem find?_of_perm {m m' : Assoc κ α} (h : m.Perm m') (hnodup : (keys m).Nodup) (k : κ) :
    find? m k = find? m' k := by
  have hnodup' : (keys m').Nodup := (h.map _).nodup_iff.1 hnodup
  cases hfind : find? m' k with
  | some v => exact find?_of_mem hnodup (h.mem_iff.2 (mem_of_find?_eq_some hfind))
  | none =>
      rw [find?_eq_none_iff] at hfind ⊢
      exact fun hmem => hfind ((h.map _).mem_iff.1 hmem)

omit [DecidableEq κ] in
theorem mapValues_eq_map {β : Type} (f : α → β) (m : Assoc κ α) :
    mapValues f m = m.map fun entry => (entry.1, f entry.2) := by
  induction m with
  | nil => rfl
  | cons entry rest ih => rw [mapValues, ih, List.map_cons]

/-! ## Insertions where a key first arrived -/

/-- A key that is not there comes to the end. -/
theorem insert_of_not_mem {m : Assoc κ α} {k : κ} (h : k ∉ keys m) (v : α) :
    insert m k v = m ++ [(k, v)] := by
  induction m with
  | nil => rfl
  | cons entry rest ih =>
      obtain ⟨k', v'⟩ := entry
      have hne : k' ≠ k := fun heq => h (by simp [keys, heq])
      have hrest : k ∉ keys rest := fun hmem => h (List.mem_cons_of_mem _ hmem)
      simp [insert, hne, ih hrest]

theorem perm_insert {m : Assoc κ α} {k : κ} (h : k ∉ keys m) (v : α) :
    (insert m k v).Perm ((k, v) :: m) := by
  rw [insert_of_not_mem h]
  exact List.perm_append_singleton _ _

/-- A key that is there keeps its place. -/
theorem keys_insert_of_mem {m : Assoc κ α} {k : κ} (h : k ∈ keys m) (v : α) :
    keys (insert m k v) = keys m := by
  induction m with
  | nil => exact absurd h (by simp [keys])
  | cons entry rest ih =>
      obtain ⟨a, w⟩ := entry
      rw [insert]
      split
      · rfl
      · rename_i hne
        have hrest : k ∈ keys rest := by simpa [keys, Ne.symm hne] using h
        simpa [keys] using ih hrest

theorem length_insert_of_mem {m : Assoc κ α} {k : κ} (h : k ∈ keys m) (v : α) :
    (insert m k v).length = m.length := by
  simpa [keys] using congrArg List.length (keys_insert_of_mem h v)

/-! ## Changes and removals at a key -/

@[simp] theorem keys_modify (m : Assoc κ α) (k : κ) (f : α → α) : keys (modify m k f) = keys m := by
  induction m with
  | nil => rfl
  | cons entry rest ih =>
      rw [modify]
      split
      · rfl
      · simpa [keys] using ih

theorem modify_modify (m : Assoc κ α) (k : κ) (f f' : α → α) :
    modify (modify m k f) k f' = modify m k fun v => f' (f v) := by
  induction m with
  | nil => rfl
  | cons entry rest ih =>
      obtain ⟨k', v⟩ := entry
      by_cases hk : k' = k <;> simp [modify, hk, ih]

/-- A change that does nothing to the value of the key does nothing. -/
theorem modify_of_find? {m : Assoc κ α} {k : κ} {v : α} (h : find? m k = some v) {f : α → α}
    (hf : f v = v) :
    modify m k f = m := by
  induction m with
  | nil => rfl
  | cons entry rest ih =>
      obtain ⟨k', v'⟩ := entry
      rw [find?] at h
      rw [modify]
      split at h
      · rename_i hk
        obtain rfl := Option.some.inj h
        rw [if_pos hk, hf]
      · rename_i hk
        rw [if_neg hk, ih h]

/-- A change of a value is one at its place. -/
theorem exists_split_of_find? {m : Assoc κ α} {k : κ} {v : α} (h : find? m k = some v) :
    ∃ front back, m = front ++ (k, v) :: back ∧ ∀ f, modify m k f = front ++ (k, f v) :: back := by
  induction m with
  | nil => exact absurd h (by simp)
  | cons entry rest ih =>
      obtain ⟨a, w⟩ := entry
      by_cases hk : a = k
      · obtain rfl : w = v := by simpa [find?, hk] using h
        exact ⟨[], rest, by simp [hk], fun f => by simp [modify, hk]⟩
      · obtain ⟨front, back, hrest, hmodify⟩ := ih (by simpa [find?, hk] using h)
        refine ⟨(a, w) :: front, back, by simp [hrest], ?_⟩
        intro f
        simp [modify, hk, hmodify]

theorem keys_erase (m : Assoc κ α) (k : κ) :
    keys (erase m k) = (keys m).filter fun k' => k' != k := by
  rw [keys, keys, erase, List.filter_map]
  refine congrArg _ (List.filter_congr fun entry _ => ?_)
  by_cases hk : entry.1 = k <;> simp [hk]

theorem find?_erase (m : Assoc κ α) (k k' : κ) :
    find? (erase m k) k' = if k' = k then none else find? m k' := by
  induction m with
  | nil => simp [erase]
  | cons entry rest ih =>
      obtain ⟨a, w⟩ := entry
      rw [erase] at ih ⊢
      by_cases ha : a = k
      · subst ha
        by_cases hk : k' = a
        · simpa [hk] using ih
        · simpa [find?, hk, Ne.symm hk] using ih
      · by_cases hk : a = k'
        · subst hk
          simp [find?, ha]
        · simpa [find?, ha, hk] using ih

/-! ## Insertions in order -/

theorem mem_insertSorted {before : κ → κ → Bool} {m : Assoc κ α} {k : κ} {v : α} {entry : κ × α}
    (h : entry ∈ insertSorted before m k v) : entry = (k, v) ∨ entry ∈ m := by
  induction m with
  | nil => exact .inl (by simpa [insertSorted] using h)
  | cons first rest ih =>
      obtain ⟨a, w⟩ := first
      rw [insertSorted] at h
      split at h
      · rename_i hk
        subst hk
        exact (List.mem_cons.1 h).imp_right (List.mem_cons_of_mem _)
      · split at h
        · exact List.mem_cons.1 h
        · rcases List.mem_cons.1 h with h | h
          · exact .inr (by simp [h])
          · exact (ih h).imp_right (List.mem_cons_of_mem _)

/-- A key that is not there brings one more entry. -/
theorem perm_insertSorted {m : Assoc κ α} {k : κ} (h : k ∉ keys m) (before : κ → κ → Bool) (v : α) :
    (insertSorted before m k v).Perm ((k, v) :: m) := by
  induction m with
  | nil => rfl
  | cons entry rest ih =>
      obtain ⟨a, w⟩ := entry
      have hne : a ≠ k := fun hc => h (by simp [keys, hc])
      have hrest : k ∉ keys rest := fun hc => h (List.mem_cons_of_mem _ hc)
      rw [insertSorted, if_neg hne]
      split
      · rfl
      · exact ((ih hrest).cons _).trans (.swap ..)

/-- A key that is after all others comes to the end. -/
theorem insertSorted_of_last {before : κ → κ → Bool} {m : Assoc κ α} {k : κ}
    (h : ∀ k' ∈ keys m, k' ≠ k ∧ before k k' = false) (v : α) :
    insertSorted before m k v = m ++ [(k, v)] := by
  induction m with
  | nil => rfl
  | cons entry rest ih =>
      obtain ⟨hne, hafter⟩ := h entry.1 (by simp [keys])
      rw [insertSorted, if_neg hne, hafter, ih fun k' hk' => h k' (List.mem_cons_of_mem _ hk')]
      rfl

/-- A sorted map stays sorted. -/
theorem pairwise_insertSorted (before : κ → κ → Bool)
    (htotal : ∀ k k', k ≠ k' → before k k' = false → before k' k = true)
    (htrans : ∀ k k' k'', before k k' = true → before k' k'' = true → before k k'' = true)
    {m : Assoc κ α} (h : (keys m).Pairwise fun k k' => before k k' = true) (k : κ) (v : α) :
    (keys (insertSorted before m k v)).Pairwise fun k k' => before k k' = true := by
  induction m with
  | nil => simp [insertSorted, keys]
  | cons entry rest ih =>
      obtain ⟨a, w⟩ := entry
      obtain ⟨hhead, hrest⟩ := List.pairwise_cons.1 h
      rw [insertSorted]
      split
      · exact h
      · rename_i hne
        split
        · rename_i hbefore
          refine List.pairwise_cons.2 ⟨fun k' hk' => ?_, h⟩
          rcases List.mem_cons.1 hk' with rfl | hk'
          · exact hbefore
          · exact htrans _ _ _ hbefore (hhead k' hk')
        · rename_i hbefore
          refine List.pairwise_cons.2 ⟨fun k' hk' => ?_, ih hrest⟩
          obtain ⟨⟨k', u⟩, hentry, rfl⟩ := List.mem_map.1 hk'
          rcases mem_insertSorted hentry with heq | hold
          · obtain rfl : k' = k := (Prod.mk.inj heq).1
            exact htotal _ _ (Ne.symm hne) (by simpa using hbefore)
          · exact hhead k' (List.mem_map_of_mem (f := (·.1)) hold)

/-! ## Sorting entries -/

theorem perm_foldl_insertSorted {before : κ → κ → Bool} {m : Assoc κ α} {entries : List (κ × α)}
    (h : (keys (m ++ entries)).Nodup) :
    (entries.foldl (fun m entry => insertSorted before m entry.1 entry.2) m).Perm
      (m ++ entries) := by
  induction entries generalizing m with
  | nil => simp
  | cons entry rest ih =>
      have hmove : (insertSorted before m entry.1 entry.2 ++ rest).Perm (m ++ entry :: rest) := by
        have hnew : entry.1 ∉ keys m := by
          intro hmem
          rw [keys, List.map_append, List.nodup_append] at h
          exact h.2.2 entry.1 hmem entry.1 (by simp) rfl
        exact ((perm_insertSorted hnew before entry.2).append_right rest).trans
          List.perm_middle.symm
      rw [List.foldl_cons]
      refine (ih ?_).trans hmove
      exact ((hmove.map Prod.fst).nodup_iff).2 h

/-- Sorting entries with different keys leaves them all. -/
theorem perm_sortedOfList {before : κ → κ → Bool} {entries : List (κ × α)}
    (h : (entries.map (·.1)).Nodup) : (sortedOfList before entries).Perm entries :=
  perm_foldl_insertSorted (m := []) h

theorem foldl_insertSorted_of_pairwise {before : κ → κ → Bool} (front : Assoc κ α) {m : Assoc κ α}
    (h : (keys (front ++ m)).Pairwise fun k k' => k ≠ k' ∧ before k' k = false) :
    m.foldl (fun m entry => insertSorted before m entry.1 entry.2) front = front ++ m := by
  induction m generalizing front with
  | nil => simp
  | cons entry rest ih =>
      obtain ⟨k, v⟩ := entry
      have hlast : ∀ k' ∈ keys front, k' ≠ k ∧ before k k' = false := by
        intro k' hk'
        rw [keys, List.map_append] at h
        exact (List.pairwise_append.1 h).2.2 k' hk' k (by simp)
      rw [List.foldl_cons, insertSorted_of_last hlast, ih _ (by simpa using h)]
      simp

/-- Sorted entries are sorted. -/
theorem pairwise_sortedOfList (before : κ → κ → Bool)
    (htotal : ∀ k k', k ≠ k' → before k k' = false → before k' k = true)
    (htrans : ∀ k k' k'', before k k' = true → before k' k'' = true → before k k'' = true)
    (entries : List (κ × α)) :
    (keys (sortedOfList before entries)).Pairwise fun k k' => before k k' = true := by
  have hfold : ∀ (entries : List (κ × α)) (m : Assoc κ α),
    (keys m).Pairwise (fun k k' => before k k' = true) →
      (keys (entries.foldl (fun m entry => insertSorted before m entry.1 entry.2) m)).Pairwise
        fun k k' => before k k' = true := by
    intro entries
    induction entries with
    | nil => exact fun m hm => hm
    | cons entry rest ih =>
        exact fun m hm => ih _ (pairwise_insertSorted before htotal htrans hm _ _)
  exact hfold entries [] .nil

/-- Sorting brings in nothing. -/
theorem mem_of_mem_sortedOfList {before : κ → κ → Bool} {entries : List (κ × α)} {entry : κ × α}
    (h : entry ∈ sortedOfList before entries) : entry ∈ entries := by
  have hfold : ∀ (entries : List (κ × α)) (m : Assoc κ α),
      entry ∈ entries.foldl (fun m entry => insertSorted before m entry.1 entry.2) m →
      entry ∈ m ∨ entry ∈ entries := by
    intro entries
    induction entries with
    | nil => exact fun m hm => .inl hm
    | cons e rest ih =>
        intro m hm
        rcases ih _ hm with hmem | hmem
        · exact (mem_insertSorted hmem).symm.imp_right fun heq => by simp [heq]
        · exact .inr (List.mem_cons_of_mem _ hmem)
  exact (hfold entries [] h).resolve_left (by simp)

theorem insertSorted_mapValues {β : Type} (before : κ → κ → Bool) (f : α → β) (m : Assoc κ α)
    (k : κ) (v : α) :
    insertSorted before (mapValues f m) k (f v) = mapValues f (insertSorted before m k v) := by
  induction m with
  | nil => rfl
  | cons entry rest ih =>
      obtain ⟨a, w⟩ := entry
      simp only [mapValues, insertSorted, ih]
      split
      · rfl
      · split <;> rfl

/-- Sorting does not depend on the values. -/
theorem sortedOfList_mapValues {β : Type} (before : κ → κ → Bool) (f : α → β)
    (entries : List (κ × α)) :
    sortedOfList before (mapValues f entries) = mapValues f (sortedOfList before entries) := by
  have hfold : ∀ (entries : List (κ × α)) (m : Assoc κ α),
      (mapValues f entries).foldl (fun m entry => insertSorted before m entry.1 entry.2)
        (mapValues f m) =
        mapValues f (entries.foldl (fun m entry => insertSorted before m entry.1 entry.2) m) := by
    intro entries
    induction entries with
    | nil => exact fun m => rfl
    | cons entry rest ih =>
        intro m
        rw [mapValues, List.foldl_cons, List.foldl_cons, insertSorted_mapValues, ih]
  exact hfold entries []

/-- Entries with different keys are what is found of their keys. -/
theorem filterMap_keys {m : Assoc κ α} (h : (keys m).Nodup) :
    (keys m).filterMap (fun k => (find? m k).map fun v => (k, v)) = m := by
  have hentry : ∀ entry ∈ m, (find? m entry.1).map (fun v => (entry.1, v)) = some entry := fun entry
      hmem => by
    rw [find?_of_mem h hmem, Option.map_some]
  rw [keys, List.filterMap_map]
  exact (List.filterMap_congr hentry).trans List.filterMap_some

theorem values_eq_filterMap {m : Assoc κ α} (h : (keys m).Nodup) :
    values m = (keys m).filterMap (find? m) := by
  have hvalues := congrArg values (filterMap_keys h)
  rw [values, List.map_filterMap] at hvalues
  simpa [Function.comp_def] using hvalues.symm

/-! ## Inserting entries in turn -/

theorem mem_insertAll {m : Assoc κ α} {entries : List (κ × α)} {entry : κ × α}
    (h : entry ∈ insertAll m entries) :
    entry ∈ m ∨ entry ∈ entries := by
  induction entries generalizing m with
  | nil => exact .inl h
  | cons e entries ih =>
      rcases ih h with hmem | hmem
      · rcases mem_insert hmem with rfl | hmem
        · exact .inr (List.mem_cons_self ..)
        · exact .inl hmem
      · exact .inr (List.mem_cons_of_mem _ hmem)

theorem nodup_keys_insertAll {m : Assoc κ α} (h : (keys m).Nodup) (entries : List (κ × α)) :
    (keys (insertAll m entries)).Nodup := by
  induction entries generalizing m with
  | nil => exact h
  | cons entry rest ih => exact ih (nodup_keys_insert h _ _)

theorem nodup_keys_ofList (entries : List (κ × α)) : (keys (ofList entries)).Nodup :=
  nodup_keys_insertAll (m := []) List.nodup_nil entries

/-- Entries that are inserted replace those that are there. -/
theorem find?_insertAll (m : Assoc κ α) (entries : List (κ × α)) (k : κ) :
    find? (insertAll m entries) k = (find? (ofList entries) k).or (find? m k) := by
  induction entries generalizing m with
  | nil => rfl
  | cons entry rest ih =>
      have hone : find? [(entry.1, entry.2)] k = if entry.1 = k then some entry.2 else none := rfl
      rw [insertAll, ofList, insertAll, ih, ih, Option.or_assoc, insert, find?_insert, hone]
      split <;> rfl

/-- Entries with different keys are all there, in their order. -/
theorem ofList_of_nodup {m : Assoc κ α} (h : (keys m).Nodup) : ofList m = m := by
  have hinsert : ∀ (rest front : Assoc κ α),
      (keys (front ++ rest)).Nodup → insertAll front rest = front ++ rest := by
    intro rest
    induction rest with
    | nil => exact fun front _ => (List.append_nil front).symm
    | cons entry rest ih =>
        intro front hnodup
        have hnew : entry.1 ∉ keys front := by
          intro hmem
          rw [keys, List.map_append, List.nodup_append] at hnodup
          exact hnodup.2.2 entry.1 hmem entry.1 (by simp) rfl
        rw [insertAll, insert_of_not_mem hnew, ih _ (by simpa using hnodup), List.append_assoc,
          List.singleton_append]
  exact hinsert m [] h

/-- Entries that are in order are a sorted map as they are. -/
theorem sortedOfList_of_pairwise {before : κ → κ → Bool} {m : Assoc κ α}
    (h : (keys m).Pairwise fun k k' => k ≠ k' ∧ before k' k = false) : sortedOfList before m = m :=
  foldl_insertSorted_of_pairwise [] h

/-- Entries that are sorted by the rank of their keys are so. -/
theorem pairwise_rank_sortedOfList (before : κ → κ → Bool) {rank : κ → Nat}
    (hrank : Function.Injective rank)
    (hbefore : ∀ k k', before k k' = decide (rank k < rank k')) (entries : List (κ × α)) :
    (keys (sortedOfList before entries)).Pairwise fun k k' => rank k < rank k' := by
  refine (pairwise_sortedOfList before ?_ ?_ entries).imp
    fun {k k'} hless => by simpa [hbefore] using hless
  · intro k k' hne hfalse
    have hle : rank k' ≤ rank k := by simpa [hbefore] using hfalse
    have hneRank : rank k ≠ rank k' := fun heq => hne (hrank heq)
    simp only [hbefore, decide_eq_true_eq]
    omega
  · intro k k' k'' hless hless'
    simp only [hbefore, decide_eq_true_eq] at hless hless' ⊢
    omega

theorem sortedOfList_of_rank {before : κ → κ → Bool} {rank : κ → Nat}
    (hbefore : ∀ k k', before k k' = decide (rank k < rank k')) {m : Assoc κ α}
    (h : (keys m).Pairwise fun k k' => rank k < rank k') : sortedOfList before m = m := by
  refine sortedOfList_of_pairwise
    (h.imp fun {k k'} hless => ⟨fun heq => absurd hless (by simp [heq]), ?_⟩)
  simp [hbefore, Nat.le_of_lt hless]

/-- Entries with different keys come into the order of a sorted map that has them all. -/
theorem sortedOfList_of_perm (before : κ → κ → Bool) {rank : κ → Nat}
    (hrank : Function.Injective rank)
    (hbefore : ∀ k k', before k k' = decide (rank k < rank k')) {entries m : Assoc κ α}
    (h : entries.Perm m)
    (hsorted : (keys m).Pairwise fun k k' => rank k < rank k') :
    sortedOfList before entries = m := by
  have hnodup : (keys entries).Nodup := by
    refine (h.map Prod.fst).nodup_iff.2 (hsorted.imp fun {k k'} hless heq => ?_)
    subst heq
    exact absurd hless (Nat.lt_irrefl _)
  have hpairwise := pairwise_rank_sortedOfList before hrank hbefore entries
  rw [keys, List.pairwise_map] at hpairwise hsorted
  refine List.Perm.eq_of_pairwise (fun _ _ _ _ hless hless' => ?_) hpairwise hsorted
    ((perm_sortedOfList hnodup).trans h)
  exact absurd hless (Nat.lt_asymm hless')

omit [DecidableEq κ] in
/-- Entries are known by their values if these say their keys. -/
theorem map_values {m : Assoc κ α} (key : α → κ) (h : ∀ k v, (k, v) ∈ m → key v = k) :
    (values m).map (fun v => (key v, v)) = m := by
  induction m with
  | nil => rfl
  | cons entry rest ih =>
      obtain ⟨k, v⟩ := entry
      have hrest := ih fun k v hkv => h k v (List.mem_cons_of_mem _ hkv)
      simp only [values, List.map_cons, h k v (by simp)] at hrest ⊢
      rw [hrest]

theorem find?_values {m : Assoc κ α} {key : α → κ} (h : ∀ k v, (k, v) ∈ m → key v = k) (k : κ) :
    (values m).find? (fun v => key v == k) = find? m k := by
  induction m with
  | nil => rfl
  | cons entry rest ih =>
      obtain ⟨a, v⟩ := entry
      have hkey : key v = a := h a v (by simp)
      have hrest := ih fun k v hkv => h k v (List.mem_cons_of_mem _ hkv)
      by_cases hk : a = k
      · simp [values, find?, hkey, hk]
      · simpa [values, find?, hkey, hk] using hrest

omit [DecidableEq κ] in
/-- Sorted values are in order of their ranks. -/
theorem pairwise_mergeSort_rank (rank : α → Nat) (l : List α) :
    (l.mergeSort fun a b => decide (rank a ≤ rank b)).Pairwise fun a b => rank a ≤ rank b := by
  refine (List.pairwise_mergeSort ?_ ?_ l).imp fun hle => by simpa using hle
  · intro a b c hab hbc
    simp only [decide_eq_true_eq] at hab hbc ⊢
    omega
  · intro a b
    simp only [Bool.or_eq_true, decide_eq_true_eq]
    omega

/-- Sorting values by what they say of their keys. -/
theorem values_sortedOfList (before : κ → κ → Bool) (key : α → κ) {rank : κ → Nat}
    (hrank : Function.Injective rank) (hbefore : ∀ k k', before k k' = decide (rank k < rank k'))
    {l : List α} (h : (l.map key).Nodup) :
    values (sortedOfList before (l.map fun v => (key v, v)))
      = l.mergeSort fun v v' => decide (rank (key v) ≤ rank (key v')) := by
  have hperm : (sortedOfList before (l.map fun v => (key v, v))).Perm (l.map fun v => (key v, v)) :=
    perm_sortedOfList (by simpa [Function.comp_def] using h)
  have hvalues : (values (sortedOfList before (l.map fun v => (key v, v)))).Perm l := by
    simpa [values, Function.comp_def] using hperm.map Prod.snd
  have hkey : ∀ entry ∈ sortedOfList before (l.map fun v => (key v, v)), entry.1 = key entry.2 := by
    intro entry hentry
    obtain ⟨v, -, rfl⟩ := List.mem_map.1 (hperm.mem_iff.1 hentry)
    rfl
  have hsorted : (values (sortedOfList before (l.map fun v => (key v, v)))).Pairwise
      fun v v' => rank (key v) ≤ rank (key v') := by
    have hkeys := pairwise_rank_sortedOfList before hrank hbefore (l.map fun v => (key v, v))
    rw [keys, List.pairwise_map] at hkeys
    rw [values, List.pairwise_map]
    refine hkeys.imp_of_mem fun {a b} ha hb hless => ?_
    rw [← hkey a ha, ← hkey b hb]
    exact Nat.le_of_lt hless
  refine List.Perm.eq_of_pairwise ?_ hsorted ?_ (hvalues.trans (List.mergeSort_perm l _).symm)
  · intro v v' hv hv' hle hle'
    have hmem : v ∈ l := hvalues.mem_iff.1 hv
    have hmem' : v' ∈ l := (List.mergeSort_perm l _).mem_iff.1 hv'
    exact List.inj_on_of_nodup_map h hmem hmem' (hrank (Nat.le_antisymm hle hle'))
  · exact pairwise_mergeSort_rank (fun v => rank (key v)) l

end CallFlow.Assoc
