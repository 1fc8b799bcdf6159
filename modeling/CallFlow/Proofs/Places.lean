import CallFlow.Proofs.Conformance
import CallFlow.Proofs.Positions
import Mathlib.Data.List.Forall2

/-!
# Where the writes of a group go

A write goes to one spot of a cell: to the whole of it, to a position of a list, or to an entry of
a map (`Cell.contents_writeBy`).  It keeps what stands beside its spot in the same container, and
it drops all else (`Contents.at?_put`).  So a list of writes holds all its values in the end if
its spots lie side by side (`Contents.perm_elements_after`), and fewer values than there were
writes if they do not (`Contents.length_elements_after_lt`).

`Wiring.build` refuses a group of mappings for some of the conflicts among its spots only.  It
overlooks keys beside positions, an append whose position a later mapping names, and appends
behind the greatest position (`Mapping.conflicts_of_not_lossless`).  What then becomes of the
sources of a group is the main statement, `Wiring.placed_of_build`.
-/

namespace CallFlow

/-! ## Spots -/

/-- Where in a cell a write goes. -/
inductive Spot where
  | whole
  /-- A position of a list. -/
  | position (index : Nat)
  /-- An entry of a map. -/
  | entry (key : String)
  deriving DecidableEq, Repr

namespace Spot

/-- Are they different spots of one container?  Then neither is in the way of the other. -/
def Beside : Spot → Spot → Prop
  | .position i, .position j => i ≠ j
  | .entry k, .entry l => k ≠ l
  | _, _ => False

instance : DecidableRel Beside := fun p q => by
  cases p <;> cases q <;> unfold Beside <;> infer_instance

theorem Beside.symm {p q : Spot} (h : p.Beside q) : q.Beside p := by
  cases p <;> cases q <;> simp_all [Beside, eq_comm]

theorem not_beside_self (p : Spot) : ¬ p.Beside p := by
  cases p <;> simp [Beside]

/-- The spot of a strategy in a cell whose next free position is known. -/
def of (next : Nat) : Option Strategy → Spot
  | none => .whole
  | some (.index i) => .position i
  | some .append => .position next
  | some (.key k) => .entry k

/-- Only an append depends on what is there. -/
theorem of_eq_of_fixed {strategy : Option Strategy} (h : strategy ≠ some .append) (next : Nat) :
    of next strategy = of 0 strategy := by
  match strategy with
  | none | some (.index _) | some (.key _) => rfl
  | some .append => exact absurd rfl h

/-- The positions that are taken after a write to the spot.  Outside of a list there are none. -/
def takes (taken : List Nat) : Spot → List Nat
  | .position i => i :: taken
  | .whole | .entry _ => []

/-- The spots to which strategies write one after the other, where positions are taken already. -/
def ofAll : (taken : List Nat) → List (Option Strategy) → List Spot
  | _, [] => []
  | taken, strategy :: rest =>
      of (Positions.next taken) strategy
        :: ofAll ((of (Positions.next taken) strategy).takes taken) rest

/-- In which order positions were taken does not matter, nor how often. -/
theorem ofAll_congr {taken taken' : List Nat} (h : ∀ i, i ∈ taken ↔ i ∈ taken')
    (strategies : List (Option Strategy)) : ofAll taken strategies = ofAll taken' strategies := by
  induction strategies generalizing taken taken' with
  | nil => rfl
  | cons strategy rest ih =>
      have htakes : ∀ (p : Spot) i, i ∈ p.takes taken ↔ i ∈ p.takes taken' := by
        intro p i
        cases p with
        | position j => rw [takes, takes, List.mem_cons, List.mem_cons, h]
        | whole | entry _ => rfl
      rw [ofAll, ofAll, Positions.next_congr h, ih (htakes _)]

end Spot

/-! ## What contents hold -/

namespace Contents

/-- The values that are held, one for each spot. -/
def elements : Contents → List Value
  | .empty => []
  | .scalar v => [v]
  | .list items => Assoc.values items
  | .map entries => Assoc.values entries

/-- The value at a spot. -/
def at? : Contents → Spot → Option Value
  | .scalar v, .whole => some v
  | .list items, .position i => Assoc.find? items i
  | .map entries, .entry k => Assoc.find? entries k
  | _, _ => none

/-- Puts a value at a spot.  Contents of another kind are dropped. -/
def put : Contents → Spot → Value → Contents
  | .list items, .position i, v => .list (Assoc.insertSorted Cell.isLater items i v)
  | .map entries, .entry k, v => .map (Assoc.insert entries k v)
  | _, .whole, v => .scalar v
  | _, .position i, v => .list [(i, v)]
  | _, .entry k, v => .map [(k, v)]

/-- The contents after writes, one after the other. -/
def after : Contents → List (Option Strategy × Value) → Contents
  | c, [] => c
  | c, (strategy, v) :: rest => after (c.put (.of (Cell.nextPosition c) strategy) v) rest

/-- The positions of a list. -/
def positions : Contents → List Nat
  | .list items => Assoc.keys items
  | .empty | .scalar _ | .map _ => []

/-- Do positions decrease?  Then none is held twice. -/
def Tidy : Contents → Prop
  | .list items => (Assoc.keys items).Pairwise (· > ·)
  | .empty | .scalar _ | .map _ => True

/-- Is the spot beside all that are taken? -/
def Free (c : Contents) (p : Spot) : Prop := ∀ q, (c.at? q).isSome = true → q.Beside p

end Contents

/-- **Writing by a strategy puts the value at the spot of the strategy.** -/
theorem Cell.contents_writeBy (c : Cell) (strategy : Option Strategy) (v : Value) :
    (c.writeBy strategy v).contents = c.base.put (.of (nextPosition c.base) strategy) v := by
  match strategy with
  | none => cases hbase : c.base <;> rfl
  | some (.index i) =>
      cases hbase : c.base <;> simp [writeBy, writeIndex, Spot.of, hbase, Contents.put]
  | some .append =>
      cases hbase : c.base <;> simp [writeBy, append, writeIndex, Spot.of, hbase, Contents.put]
  | some (.key k) => cases hbase : c.base <;> simp [writeBy, writeKey, Spot.of, hbase, Contents.put]

namespace Contents

variable {c : Contents} {p q : Spot}

/-- **After a write its spot holds the value**, spots beside it hold what they held, and others hold
nothing. -/
theorem at?_put (c : Contents) (p q : Spot) (v : Value) :
    (c.put p v).at? q = if q = p then some v else if q.Beside p then c.at? q else none := by
  cases p with
  | whole => cases c <;> cases q <;> simp [put, at?, Spot.Beside]
  | position i =>
      cases q with
      | position j =>
          by_cases h : j = i
          · cases c <;> simp [put, at?, h, Assoc.find?_insertSorted, Assoc.find?]
          · cases c <;>
              simp [put, at?, h, Ne.symm h, Spot.Beside, Assoc.find?_insertSorted, Assoc.find?]
      | whole | entry _ => cases c <;> simp [put, at?, Spot.Beside]
  | entry k =>
      cases q with
      | entry l =>
          by_cases h : l = k
          · cases c <;> simp [put, at?, h, Assoc.find?_insert, Assoc.find?]
          · cases c <;> simp [put, at?, h, Ne.symm h, Spot.Beside, Assoc.find?_insert, Assoc.find?]
      | whole | position _ => cases c <;> simp [put, at?, Spot.Beside]

theorem at?_put_self (c : Contents) (p : Spot) (v : Value) : (c.put p v).at? p = some v := by
  simp [at?_put]

theorem at?_put_of_beside (h : q.Beside p) (v : Value) : (c.put p v).at? q = c.at? q := by
  have hne : q ≠ p := fun hc => p.not_beside_self (hc ▸ h)
  simp [at?_put, hne, h]

theorem nextPosition_eq (h : c.Tidy) : Cell.nextPosition c = Positions.next c.positions := by
  cases c with
  | empty | scalar _ | map _ => rfl
  | list items => exact Cell.nextPosition_list h

/-- A write takes its position and leaves others. -/
theorem mem_positions_put (c : Contents) (p : Spot) (v : Value) (i : Nat) :
    i ∈ (c.put p v).positions ↔ i ∈ p.takes c.positions := by
  cases p with
  | whole | entry _ => cases c <;> simp [put, positions, Spot.takes]
  | position j =>
      cases c with
      | empty | scalar _ | map _ => simp [put, positions, Spot.takes, Assoc.keys]
      | list items =>
          rw [put, positions, ← Assoc.isSome_find?_iff, Assoc.find?_insertSorted, Spot.takes,
            List.mem_cons, positions, ← Assoc.isSome_find?_iff]
          by_cases hj : j = i
          · simp [hj]
          · simp [hj, Ne.symm hj]

end Contents

namespace Contents

variable {c : Contents} {p : Spot}

/-! ### Positions decrease -/

/-- A position that is there keeps its place among decreasing positions. -/
theorem length_insertSorted_of_mem {items : List (Nat × Value)}
    (hitems : (Assoc.keys items).Pairwise (· > ·)) {i : Nat}
    (h : i ∈ Assoc.keys items) (v : Value) :
    (Assoc.insertSorted Cell.isLater items i v).length = items.length := by
  induction items with
  | nil => exact absurd h (by simp [Assoc.keys])
  | cons entry rest ih =>
      obtain ⟨j, w⟩ := entry
      obtain ⟨hhead, hrest⟩ := List.pairwise_cons.1 hitems
      rw [Assoc.insertSorted]
      split
      · rfl
      · rename_i hne
        have hmem : i ∈ Assoc.keys rest := by simpa [Assoc.keys, Ne.symm hne] using h
        have hless : i < j := hhead i hmem
        rw [if_neg (by simp [Cell.isLater, Nat.le_of_lt hless])]
        simpa using ih hrest hmem

theorem pairwise_insertSorted {items : List (Nat × Value)}
    (hitems : (Assoc.keys items).Pairwise (· > ·)) (i : Nat) (v : Value) :
    (Assoc.keys (Assoc.insertSorted Cell.isLater items i v)).Pairwise (· > ·) := by
  have hsorted := Assoc.pairwise_insertSorted Cell.isLater ?_ ?_
    (hitems.imp fun hlater => ?_) i v
  · exact hsorted.imp fun hlater => by simpa [Cell.isLater] using hlater
  · intro j k hne hlater
    simp [Cell.isLater] at hlater ⊢
    omega
  · intro j k l hjk hkl
    simp [Cell.isLater] at hjk hkl ⊢
    omega
  · simpa [Cell.isLater] using hlater

theorem tidy_put (h : c.Tidy) (p : Spot) (v : Value) : (c.put p v).Tidy := by
  cases p with
  | whole | entry _ => cases c <;> trivial
  | position i =>
      cases c with
      | empty | scalar _ | map _ => simp [put, Tidy, Assoc.keys]
      | list items => exact pairwise_insertSorted h i v

/-! ### Spots that are taken and spots that are free -/

theorem free_empty (p : Spot) : Free .empty p := by
  intro q hq
  cases q <;> exact absurd hq (by simp [at?])

/-- A write takes its spot, and those beside it stay taken. -/
theorem isSome_at?_put (c : Contents) (p q : Spot) (v : Value) :
    ((c.put p v).at? q).isSome = true ↔ q = p ∨ q.Beside p ∧ (c.at? q).isSome = true := by
  rw [at?_put]
  split
  · simp_all
  · split <;> simp_all

/-- A spot is free after a write if it is beside that and nothing that stays is in the way. -/
theorem free_put_iff (c : Contents) (p q : Spot) (v : Value) :
    (c.put p v).Free q ↔ p.Beside q ∧ ∀ r, r.Beside p → (c.at? r).isSome = true → r.Beside q := by
  constructor
  · intro h
    refine ⟨h p (by simp [at?_put_self]), fun r hr htaken => h r ?_⟩
    exact (isSome_at?_put c p r v).2 (.inr ⟨hr, htaken⟩)
  · rintro ⟨hp, hothers⟩ r hr
    rcases (isSome_at?_put c p r v).1 hr with rfl | ⟨hbeside, htaken⟩
    · exact hp
    · exact hothers r hbeside htaken

/-- A value at a free spot comes to those that are held. -/
theorem perm_elements_put (h : c.Free p) (v : Value) :
    (c.put p v).elements.Perm (v :: c.elements) := by
  cases c with
  | empty => cases p <;> rfl
  | scalar w => exact absurd (h .whole rfl) (by cases p <;> simp [Spot.Beside])
  | list items =>
      cases p with
      | position i =>
          have hnew : i ∉ Assoc.keys items := fun hc =>
            Spot.not_beside_self _ (h (.position i) (Assoc.isSome_find?_iff.2 hc))
          exact (Assoc.perm_insertSorted hnew Cell.isLater v).map (·.2)
      | whole | entry _ =>
          cases items with
          | nil => rfl
          | cons entry rest => exact absurd (h (.position entry.1) (by simp [at?, Assoc.find?])) id
  | map entries =>
      cases p with
      | entry k =>
          have hnew : k ∉ Assoc.keys entries := fun hc =>
            Spot.not_beside_self _ (h (.entry k) (Assoc.isSome_find?_iff.2 hc))
          exact (Assoc.perm_insert hnew v).map (·.2)
      | whole | position _ =>
          cases entries with
          | nil => rfl
          | cons entry rest => exact absurd (h (.entry entry.1) (by simp [at?, Assoc.find?])) id

/-- A value at a spot that is not free takes the place of another. -/
theorem length_elements_put_le (hc : c.Tidy) (h : ¬ c.Free p) (v : Value) :
    (c.put p v).elements.length ≤ c.elements.length := by
  simp only [Free, Classical.not_forall] at h
  obtain ⟨q, htaken, hq⟩ := h
  cases c with
  | empty => cases q <;> exact absurd htaken (by simp [at?])
  | scalar w => cases p <;> exact Nat.le_refl 1
  | list items =>
      cases q with
      | whole | entry _ => exact absurd htaken (by simp [at?])
      | position j =>
          have hmem : j ∈ Assoc.keys items := Assoc.isSome_find?_iff.1 htaken
          cases p with
          | position i =>
              obtain rfl : j = i := Classical.not_not.1 hq
              simp [put, elements, Assoc.values, length_insertSorted_of_mem hc hmem]
          | whole | entry _ =>
              have hpos : 0 < items.length := by
                simpa [Assoc.keys] using List.length_pos_of_mem hmem
              simpa [put, elements, Assoc.values, Nat.succ_le_iff] using hpos
  | map entries =>
      cases q with
      | whole | position _ => exact absurd htaken (by simp [at?])
      | entry l =>
          have hmem : l ∈ Assoc.keys entries := Assoc.isSome_find?_iff.1 htaken
          cases p with
          | entry k =>
              obtain rfl : l = k := Classical.not_not.1 hq
              simp [put, elements, Assoc.values, Assoc.length_insert_of_mem hmem]
          | whole | position _ =>
              have hpos : 0 < entries.length := by
                simpa [Assoc.keys] using List.length_pos_of_mem hmem
              simpa [put, elements, Assoc.values, Nat.succ_le_iff] using hpos

/-! ### Writes one after the other -/

variable {writes : List (Option Strategy × Value)}

/-- The spots that writes take when they start in given contents. -/
def spotsOf : Contents → List (Option Strategy × Value) → List Spot
  | _, [] => []
  | c, (strategy, v) :: rest =>
      .of (Cell.nextPosition c) strategy ::
        spotsOf (c.put (.of (Cell.nextPosition c) strategy) v) rest

/-- The spots depend on the strategies and on the positions that are taken. -/
theorem spotsOf_eq (hc : c.Tidy) (writes : List (Option Strategy × Value)) :
    c.spotsOf writes = Spot.ofAll c.positions (writes.map (·.1)) := by
  induction writes generalizing c with
  | nil => rfl
  | cons w rest ih =>
      obtain ⟨strategy, v⟩ := w
      rw [spotsOf, List.map_cons, Spot.ofAll, ih (tidy_put hc _ v), nextPosition_eq hc]
      exact congrArg _ (Spot.ofAll_congr (mem_positions_put c _ v) _)

theorem spotsOf_of_fixed (h : some .append ∉ writes.map (·.1)) :
    c.spotsOf writes = (writes.map (·.1)).map (.of 0) := by
  induction writes generalizing c with
  | nil => rfl
  | cons w rest ih =>
      obtain ⟨hfirst, hrest⟩ := not_or.1 (mt List.mem_cons.2 h)
      rw [spotsOf, ih hrest, Spot.of_eq_of_fixed (Ne.symm hfirst)]
      rfl

/-- Spots beside those of all writes hold what they held. -/
theorem at?_after_of_beside (h : ∀ p ∈ c.spotsOf writes, q.Beside p) :
    (c.after writes).at? q = c.at? q := by
  induction writes generalizing c with
  | nil => rfl
  | cons w rest ih =>
      obtain ⟨strategy, v⟩ := w
      rw [spotsOf] at h
      rw [after, ih fun p hp => h p (List.mem_cons_of_mem _ hp), at?_put_of_beside (h _ (by simp))]

/-- **Writes to spots that lie side by side are all found at their spots.** -/
theorem at?_after (h : (c.spotsOf writes).Pairwise Spot.Beside) :
    List.Forall₂ (fun p w => (c.after writes).at? p = some w.2) (c.spotsOf writes) writes := by
  induction writes generalizing c with
  | nil => exact .nil
  | cons w rest ih =>
      obtain ⟨strategy, v⟩ := w
      rw [spotsOf] at h ⊢
      obtain ⟨hfirst, hrest⟩ := List.pairwise_cons.1 h
      exact .cons (by rw [after, at?_after_of_beside hfirst, at?_put_self]) (ih hrest)

/-- **Writes to free spots that lie side by side come to the values that are held.** -/
theorem perm_elements_after (h : (c.spotsOf writes).Pairwise Spot.Beside)
    (hfree : ∀ p ∈ c.spotsOf writes, c.Free p) :
    (c.after writes).elements.Perm (writes.map (·.2) ++ c.elements) := by
  induction writes generalizing c with
  | nil => rfl
  | cons w rest ih =>
      obtain ⟨strategy, v⟩ := w
      rw [spotsOf] at h hfree
      obtain ⟨hfirst, hrest⟩ := List.pairwise_cons.1 h
      have hlater := ih hrest fun p hp => (free_put_iff ..).2
        ⟨hfirst p hp, fun r _ htaken => hfree p (List.mem_cons_of_mem _ hp) r htaken⟩
      calc (after _ rest).elements
        _ |>.Perm (rest.map (·.2) ++ (c.put _ v).elements) := hlater
        _ |>.Perm (rest.map (·.2) ++ v :: c.elements) :=
          (perm_elements_put (hfree _ (by simp)) v).append_left _
        _ |>.Perm _ := List.perm_middle

theorem length_elements_after_le (hc : c.Tidy) (writes : List (Option Strategy × Value)) :
    (c.after writes).elements.length ≤ c.elements.length + writes.length := by
  induction writes generalizing c with
  | nil => exact Nat.le_refl _
  | cons w rest ih =>
      obtain ⟨strategy, v⟩ := w
      have hlater := ih (tidy_put hc (.of (Cell.nextPosition c) strategy) v)
      have hfirst : (c.put (.of (Cell.nextPosition c) strategy) v).elements.length
          ≤ c.elements.length + 1 := by
        by_cases hfree : c.Free (.of (Cell.nextPosition c) strategy)
        · exact Nat.le_of_eq (perm_elements_put hfree v).length_eq
        · exact Nat.le_succ_of_le (length_elements_put_le hc hfree v)
      rw [after, List.length_cons]
      omega

/-- **Writes of which one is in the way of another, or of what is there, lose a value.** -/
theorem length_elements_after_lt (hc : c.Tidy)
    (h : ¬ ((c.spotsOf writes).Pairwise Spot.Beside ∧ ∀ p ∈ c.spotsOf writes, c.Free p)) :
    (c.after writes).elements.length < c.elements.length + writes.length := by
  induction writes generalizing c with
  | nil => exact absurd ⟨.nil, fun p hp => absurd hp (by simp [spotsOf])⟩ h
  | cons w rest ih =>
      obtain ⟨strategy, v⟩ := w
      have htidy := tidy_put hc (.of (Cell.nextPosition c) strategy) v
      rw [after, List.length_cons]
      by_cases hfree : c.Free (.of (Cell.nextPosition c) strategy)
      · -- the first write loses nothing, so that one of the others is in the way
        have hlater := ih htidy ?_
        · rw [(perm_elements_put hfree v).length_eq, List.length_cons] at hlater
          omega
        · rintro ⟨hrest, hothers⟩
          refine h ?_
          rw [spotsOf]
          refine ⟨List.pairwise_cons.2 ⟨?_, hrest⟩, ?_⟩
          · exact fun p hp => ((free_put_iff ..).1 (hothers p hp)).1
          · intro p hp
            rcases List.mem_cons.1 hp with rfl | hp
            · exact hfree
            · exact fun r htaken => ((free_put_iff ..).1 (hothers p hp)).2 r (hfree r htaken) htaken
      · have hfirst := length_elements_put_le hc hfree v
        have hlater := length_elements_after_le htidy rest
        omega

end Contents

namespace Terminal

variable {t t' : Terminal} {writes : List (Option Strategy × Value)}

/-- Writes that succeed add to what the terminal holds that was not read. -/
theorem contents_writeAll (hne : writes ≠ []) (h : t.writeAll writes = (.ok (), t')) :
    t'.cell.contents = t.cell.base.after writes := by
  induction writes generalizing t with
  | nil => exact absurd rfl hne
  | cons w rest ih =>
      obtain ⟨strategy, v⟩ := w
      rw [writeAll] at h
      split at h
      · rename_i t₁ ht₁
        have hfirst : t₁.cell = t.cell.writeBy strategy v := by rw [write_eq_ok ht₁]
        rw [Contents.after, ← Cell.contents_writeBy, ← hfirst]
        by_cases hrest : rest = []
        · subst hrest
          obtain rfl : t₁ = t' := congrArg Prod.snd h
          rfl
        · have hbase : t₁.cell.base = t₁.cell.contents := by
            simp [Cell.base, hfirst, Cell.consumed_writeBy]
          rw [ih hrest h, hbase]
      · exact absurd h (by simp)

/-- A terminal without a type takes all writes. -/
theorem writeAll_untyped (htype : t.valueType = .any) (writes : List (Option Strategy × Value)) :
    ∃ t', t.writeAll writes = (.ok (), t') := by
  induction writes generalizing t with
  | nil => exact ⟨t, rfl⟩
  | cons w rest ih =>
      obtain ⟨strategy, v⟩ := w
      have hwrite : t.write strategy v = .ok { t with cell := t.cell.writeBy strategy v } := by
        simp [write, check, htype]
      obtain ⟨t', ht'⟩ := ih (t := { t with cell := t.cell.writeBy strategy v }) htype
      exact ⟨t', by rw [writeAll, hwrite]; exact ht'⟩

end Terminal

/-! ## What groups read -/

namespace Scene

variable {s : Scene}

/-- A written source is read, or reading it fails. -/
theorem exists_read {m : Mapping} {v : Option Value} (hwritten : (s.peek m.source).isSome = true)
    (h : s.read m = .ok v) : ∃ u, v = some u := by
  obtain ⟨u, hu⟩ := Option.isSome_iff_exists.1 hwritten
  unfold read at h
  rw [hu] at h
  split at h
  · split at h
    · exact ⟨_, (Except.ok.inj h).symm⟩
    · exact absurd h (by simp)
  · exact ⟨u, (Except.ok.inj h).symm⟩

/-- A group whose sources are all written has a write for each of its mappings. -/
theorem forall₂_of_readGroup {group : List Mapping} {writes : List (Option Strategy × Value)}
    (hwritten : ∀ m ∈ group, (s.peek m.source).isSome = true) (h : s.readGroup group = .ok writes) :
    List.Forall₂ (fun m w => w.1 = m.targetStrategy ∧ s.read m = .ok (some w.2)) group writes := by
  induction group generalizing writes with
  | nil =>
      cases h
      exact .nil
  | cons m rest ih =>
      obtain ⟨v, hv, h⟩ := bind_eq_ok h
      obtain ⟨others, hrest, h⟩ := bind_eq_ok h
      obtain rfl := Except.ok.inj h
      obtain ⟨u, rfl⟩ := exists_read (hwritten m (by simp)) hv
      exact .cons ⟨rfl, hv⟩ (ih (fun m' hm' => hwritten m' (List.mem_cons_of_mem _ hm')) hrest)

end Scene

namespace Mapping

/-- The strategies by which mappings write. -/
def strategies (group : List Mapping) : List (Option Strategy) := group.map (·.targetStrategy)

/-- The writes of the mappings, if each has one, lie side by side. -/
def Lossless (group : List Mapping) : Prop :=
  (Spot.ofAll [] (strategies group)).Pairwise Spot.Beside

instance (group : List Mapping) : Decidable (Lossless group) :=
  inferInstanceAs (Decidable (List.Pairwise _ _))

/-- Are there writes of entries and writes of positions? -/
def Mixes (group : List Mapping) : Prop :=
  (∃ key, some (.key key) ∈ strategies group) ∧
    (some .append ∈ strategies group ∨ ∃ i, some (.index i) ∈ strategies group)

/-- Does a write of a fixed position come after an append? -/
def Overtakes (group : List Mapping) : Prop :=
  ∃ i, [some .append, some (.index i)].Sublist (strategies group)

/-- Do as many appends come after a write of a fixed position as there are words from there on?  The
last of them goes to the first position. -/
def ComesRound (group : List Mapping) : Prop :=
  ∃ i,
    (some (.index i) :: List.replicate (UInt64.size - i) (some .append)).Sublist (strategies group)

/-- Without a direct mapping there is a strategy for each. -/
theorem strategies_of_not_direct {group : List Mapping} (h : ∀ m ∈ group, m.isDirect = false) :
    strategies group = (group.filterMap (·.targetStrategy)).map some := by
  induction group with
  | nil => rfl
  | cons m rest ih =>
      obtain ⟨strategy, hstrategy⟩ : ∃ strategy, m.targetStrategy = some strategy := by
        simpa [isDirect, Option.isSome_iff_exists] using h m (by simp)
      have hrest := ih fun m' hm' => h m' (List.mem_cons_of_mem _ hm')
      rw [strategies] at hrest
      rw [strategies, List.map_cons, List.filterMap_cons, hstrategy, hrest, List.map_cons]

/-- Writes that are made for the mappings of a group have their strategies. -/
theorem map_fst_of_forall₂ {group : List Mapping} {writes : List (Option Strategy × Value)}
    (h : List.Forall₂ (fun m w => w.1 = m.targetStrategy) group writes) :
    writes.map (·.1) = strategies group := by
  induction h with
  | nil => rfl
  | cons hfirst _ ih => rw [List.map_cons, hfirst, ih, strategies, strategies, List.map_cons]

end Mapping

/-! ## What the check of a group finds -/

namespace Wiring

/-- What a group without faults has: one direct mapping, or strategies of which none is repeated. -/
theorem strategies_of_groupFault? {slot : Slot} {priority : Option CallId} {group : List Mapping}
    (h : groupFault? slot priority group = none) :
    (∃ m, group = [m]) ∨ ∃ strategies : List Strategy,
      Mapping.strategies group = strategies.map some ∧
        strategies.Pairwise fun a b => a ≠ .append → a ≠ b := by
  by_cases hdirect : ∃ m ∈ group, m.isDirect = true
  · obtain ⟨m, hm, hdirect⟩ := hdirect
    exact .inl ⟨m, eq_singleton_of_groupFault? h hm hdirect⟩
  · have hnone : ∀ m ∈ group, m.isDirect = false := by simpa using hdirect
    have hcount : (group.filter Mapping.isDirect).length = 0 := by
      simpa [List.filter_eq_nil_iff] using hnone
    have hrepeated : repeated? [] (group.filterMap (·.targetStrategy)) = none := by
      simpa [groupFault?, hcount] using h
    exact .inr ⟨_, Mapping.strategies_of_not_direct hnone, (repeated?_eq_none_iff.1 hrepeated).1⟩

end Wiring

namespace Spot

/-- Without appends the spots do not depend on what is there. -/
theorem ofAll_of_fixed {strategies : List (Option Strategy)} (h : some .append ∉ strategies)
    (taken : List Nat) : ofAll taken strategies = strategies.map (of 0) := by
  induction strategies generalizing taken with
  | nil => rfl
  | cons strategy rest ih =>
      obtain ⟨hfirst, hrest⟩ : some .append ≠ strategy ∧ some .append ∉ rest := by simpa using h
      rw [ofAll, ih hrest, List.map_cons, of_eq_of_fixed (Ne.symm hfirst)]

/-- Entries that are all different lie side by side. -/
theorem pairwise_ofAll_keys {strategies : List Strategy} (hkeys : ∀ a ∈ strategies, ∃ k, a = .key k)
    (h : strategies.Pairwise fun a b => a ≠ .append → a ≠ b) (taken : List Nat) :
    (ofAll taken (strategies.map some)).Pairwise Beside := by
  have hfixed : some .append ∉ strategies.map some := by
    intro happend
    obtain ⟨k, hk⟩ := hkeys .append (by simpa using happend)
    exact absurd hk (by simp)
  rw [ofAll_of_fixed hfixed, List.pairwise_map, List.pairwise_map]
  refine h.imp_of_mem ?_
  intro a b ha hb hne
  obtain ⟨k, rfl⟩ := hkeys a ha
  obtain ⟨l, rfl⟩ := hkeys b hb
  simpa [of, Beside] using hne

section Positions

variable {strategies : List Strategy} {taken : List Nat} {i : Nat} {a : Strategy} {p : Spot}

/-- There are no entries, and fewer appends after each position than words from there on. -/
structure Listed (strategies : List Strategy) : Prop where
  keys : ∀ k, .key k ∉ strategies
  words : ∀ i, ¬ (.index i :: List.replicate (UInt64.size - i) .append).Sublist strategies

theorem Listed.of_cons (h : Listed (a :: strategies)) : Listed strategies :=
  ⟨fun k hk => h.keys k (List.mem_cons_of_mem _ hk), fun i hi => h.words i (hi.cons _)⟩

/-- Behind a position there is room for the appends that follow. -/
theorem Listed.fits_index (h : Listed (.index i :: strategies))
    (hfits : Positions.Fits taken (strategies.count .append)) :
    Positions.Fits (i :: taken) (strategies.count .append) := by
  refine hfits.write ?_
  have hfew : strategies.count .append < UInt64.size - i := by
    refine Nat.lt_of_not_le fun hmany => h.words i ?_
    exact (List.replicate_sublist_iff.2 hmany).cons_cons _
  omega

/-- Writes of positions go to the positions that they name, or to such that were not reached
before. -/
theorem mem_ofAll_positions (h : Listed strategies)
    (hfits : Positions.Fits taken (strategies.count .append))
    (hp : p ∈ ofAll taken (strategies.map some)) :
    (∃ i, .index i ∈ strategies ∧ p = .position i) ∨
      .append ∈ strategies ∧ ∃ i, Positions.past taken ≤ i ∧ p = .position i := by
  induction strategies generalizing taken with
  | nil => exact absurd hp (by simp [ofAll])
  | cons a rest ih =>
      rw [List.map_cons, ofAll] at hp
      cases a with
      | key k => exact absurd (by simp) (h.keys k)
      | index i =>
          rw [List.count_cons_of_ne (by simp)] at hfits
          rcases List.mem_cons.1 hp with rfl | hp
          · exact .inl ⟨i, by simp, rfl⟩
          · refine (ih h.of_cons (h.fits_index hfits) hp).imp ?_ ?_
            · exact fun ⟨j, hj, hp⟩ => ⟨j, List.mem_cons_of_mem _ hj, hp⟩
            · exact fun ⟨happend, j, hle, hp⟩ =>
                ⟨List.mem_cons_of_mem _ happend, j, Nat.le_trans (Nat.le_max_right ..) hle, hp⟩
      | append =>
          rw [List.count_cons_self] at hfits
          rw [hfits.next_eq] at hp
          rcases List.mem_cons.1 hp with rfl | hp
          · exact .inr ⟨by simp, _, Nat.le_refl _, rfl⟩
          · refine (ih h.of_cons hfits.append hp).imp ?_ ?_
            · exact fun ⟨j, hj, hp⟩ => ⟨j, List.mem_cons_of_mem _ hj, hp⟩
            · exact fun ⟨happend, j, hle, hp⟩ =>
                ⟨by simp, j, Nat.le_trans (Nat.le_max_right ..) hle, hp⟩

/-- Positions that are all different lie side by side, with any appends after them. -/
theorem pairwise_ofAll_positions (h : Listed strategies)
    (hdistinct : strategies.Pairwise fun a b => a ≠ .append → a ≠ b)
    (hlast : ∀ i, ¬ [.append, .index i].Sublist strategies)
    (hfits : Positions.Fits taken (strategies.count .append)) :
    (ofAll taken (strategies.map some)).Pairwise Beside := by
  induction strategies generalizing taken with
  | nil => exact .nil
  | cons a rest ih =>
      obtain ⟨hfirst, hothers⟩ := List.pairwise_cons.1 hdistinct
      have hlast' : ∀ i, ¬ [.append, .index i].Sublist rest := fun i hi => hlast i (hi.cons _)
      rw [List.map_cons, ofAll]
      cases a with
      | key k => exact absurd (by simp) (h.keys k)
      | index i =>
          rw [List.count_cons_of_ne (by simp)] at hfits
          have hroom := h.fits_index hfits
          refine List.pairwise_cons.2 ⟨fun p hp => ?_, ih h.of_cons hothers hlast' hroom⟩
          rcases mem_ofAll_positions h.of_cons hroom hp with ⟨j, hj, rfl⟩ | ⟨-, j, hle, rfl⟩
          · have hne : i ≠ j := fun hc => hfirst (.index j) hj (by simp) (by rw [hc])
            exact hne
          · -- an append goes behind the position
            have hless : i + 1 ≤ j := Nat.le_trans (Nat.le_max_left ..) hle
            exact Nat.ne_of_lt hless
      | append =>
          rw [List.count_cons_self] at hfits
          rw [hfits.next_eq]
          refine List.pairwise_cons.2 ⟨fun p hp => ?_, ih h.of_cons hothers hlast' hfits.append⟩
          rcases mem_ofAll_positions h.of_cons hfits.append hp with ⟨j, hj, rfl⟩ | ⟨-, j, hle, rfl⟩
          · exact absurd ((List.singleton_sublist.2 hj).cons_cons _) (hlast j)
          · have hless : Positions.past taken + 1 ≤ j := Nat.le_trans (Nat.le_max_left ..) hle
            exact Nat.ne_of_lt hless

end Positions

end Spot

/-- **The conflicts that the check of a group overlooks**: entries beside positions, an append
before a write of a fixed position, and appends that come round to the first position. -/
theorem Mapping.conflicts_of_not_lossless {slot : Slot} {priority : Option CallId}
    {group : List Mapping} (h : Wiring.groupFault? slot priority group = none)
    (hlossy : ¬ Lossless group) : Mixes group ∨ Overtakes group ∨ ComesRound group := by
  rcases Wiring.strategies_of_groupFault? h with ⟨m, rfl⟩ | ⟨strategies, hmap, hpairwise⟩
  · exact absurd (List.pairwise_singleton ..) hlossy
  · rw [Lossless, hmap] at hlossy
    by_cases hkeys : ∃ k, .key k ∈ strategies
    · obtain ⟨k, hk⟩ := hkeys
      refine .inl ⟨⟨k, by simpa [hmap] using hk⟩, ?_⟩
      -- if there were no positions, then all would be entries, and these are all different
      apply Classical.byContradiction
      intro hpositions
      refine hlossy (Spot.pairwise_ofAll_keys ?_ hpairwise [])
      intro a ha
      cases a with
      | key l => exact ⟨l, rfl⟩
      | append => exact absurd (.inl (by simpa [hmap] using ha)) hpositions
      | index i => exact absurd (.inr ⟨i, by simpa [hmap] using ha⟩) hpositions
    · refine .inr (Classical.byContradiction fun hnone => ?_)
      obtain ⟨hlast, hwords⟩ := not_or.1 hnone
      have hlisted : Spot.Listed strategies := by
        refine ⟨fun k hk => hkeys ⟨k, hk⟩, fun i hi => hwords ⟨i, ?_⟩⟩
        simpa [hmap] using hi.map some
      refine hlossy (Spot.pairwise_ofAll_positions hlisted hpairwise ?_ (Positions.fits_nil _))
      intro i hi
      exact hlast ⟨i, by simpa [hmap] using hi.map some⟩

/-! ## What becomes of the sources of a group -/

namespace Contents

/-- Are they put together of elements? -/
def IsAggregate : Contents → Prop
  | .list _ | .map _ => True
  | .empty | .scalar _ => False

variable {c : Contents}

theorem isAggregate_put {p : Spot} (hp : p ≠ .whole) (c : Contents) (v : Value) :
    (c.put p v).IsAggregate := by
  cases p with
  | whole => exact absurd rfl hp
  | position _ | entry _ => cases c <;> trivial

theorem isAggregate_after {writes : List (Option Strategy × Value)}
    (hwrites : ∀ w ∈ writes, w.1 ≠ none)
    (h : c.IsAggregate ∨ writes ≠ []) : (c.after writes).IsAggregate := by
  induction writes generalizing c with
  | nil => exact h.resolve_right (by simp)
  | cons w rest ih =>
      obtain ⟨strategy, v⟩ := w
      refine ih (fun w hw => hwrites w (List.mem_cons_of_mem _ hw)) (.inl (isAggregate_put ?_ c v))
      match strategy, hwrites (strategy, v) (by simp) with
      | some (.index _), _ | some .append, _ | some (.key _), _ => simp [Spot.of]

end Contents

/-- An unwritten cell has nothing to add to. -/
theorem Cell.base_of_unwritten {c : Cell} (h : c.isWritten = false) : c.base = .empty := by
  unfold isWritten at h
  unfold base
  cases hc : c.contents <;> simp_all

/-- An aggregate shows the elements that it is put together of. -/
theorem Cell.exists_peek_of_isAggregate {c : Cell} (h : c.contents.IsAggregate) :
    ∃ shown, c.peek = some shown ∧ shown.parts.Perm c.contents.elements := by
  unfold peek
  cases hc : c.contents with
  | empty | scalar _ => exact absurd h (by simp [hc, Contents.IsAggregate])
  | list items => exact ⟨_, rfl, List.reverse_perm _⟩
  | map entries => exact ⟨_, rfl, .rfl⟩

/-- What becomes of the values that the mappings of a group read when they are written into an empty
terminal, which is the second one afterwards. -/
structure Mapping.Placed (s : Scene) (group : List Mapping)
    (writes : List (Option Strategy × Value))
    (t t' : Terminal) : Prop where
  /-- Each mapping has a write, by its strategy, of what it reads. -/
  reads : List.Forall₂ (fun m w => w.1 = m.targetStrategy ∧ s.read m = .ok (some w.2)) group writes
  /-- The writes succeed. -/
  succeeds : t.writeAll writes = (.ok (), t')
  /-- Several mappings make an aggregate. -/
  shown :
      1 < group.length → ∃ shown, t'.peek = some shown ∧ shown.parts.Perm t'.cell.contents.elements
  /-- Spots that lie side by side keep all values. -/
  kept : Lossless group → t'.cell.contents.elements.Perm (writes.map (·.2)) ∧
    List.Forall₂ (fun p w => t'.cell.contents.at? p = some w.2)
      (Spot.ofAll [] (strategies group)) writes
  /-- Otherwise a value is lost. -/
  lost : ¬ Lossless group → t'.cell.contents.elements.length < group.length
  /-- Which groups lose one. -/
  conflicts : ¬ Lossless group → Mixes group ∨ Overtakes group ∨ ComesRound group

namespace Wiring

/-- **What the groups of an accepted composition hold.**  When all sources of a group are written,
and what they show is written into an empty terminal without a type, then every value is there in
the end exactly if the writes lie side by side; the groups that are accepted though they do not are
among those that write entries beside positions, or a fixed position after an append, or after a
fixed position so many appends that these come round to the first one. -/
theorem placed_of_build {composition : CompositionId} {ms : List Mapping} {w : Wiring}
    (hbuild : build composition ms = .ok w) {slot : Slot} {priority : Option CallId}
    {group : List Mapping}
    (hgroup : ((Assoc.find? w.targets slot).bind fun t => Assoc.find? t.groups priority) =
      some group)
    {s : Scene} (hwritten : ∀ m ∈ group, (s.peek m.source).isSome = true)
    {writes : List (Option Strategy × Value)} (hread : s.readGroup group = .ok writes)
    {t : Terminal}
    (hempty : t.isWritten = false) (htype : t.valueType = .any) :
    ∃ t', Mapping.Placed s group writes t t' := by
  have hbuilt := built_of_build hbuild
  rw [hbuilt.find?_group] at hgroup
  obtain ⟨hne, rfl⟩ : w.group slot priority ≠ [] ∧ w.group slot priority = group := by
    split at hgroup
    · exact absurd hgroup (by simp)
    · exact ⟨‹_›, Option.some.inj hgroup⟩
  have hnone := (hbuilt.noFault hne).1
  have hreads := Scene.forall₂_of_readGroup hwritten hread
  have hlength : (w.group slot priority).length = writes.length := hreads.length_eq
  have hstrategies := Mapping.map_fst_of_forall₂ (hreads.imp fun _ _ h => h.1)
  have hwrites : writes ≠ [] := by
    rintro rfl
    exact hne (List.length_eq_zero_iff.1 hlength)
  obtain ⟨t', hwriteAll⟩ := Terminal.writeAll_untyped htype writes
  have hcontents := Terminal.contents_writeAll hwrites hwriteAll
  rw [Cell.base_of_unwritten hempty] at hcontents
  have hspots : Contents.spotsOf .empty writes
      = Spot.ofAll [] (Mapping.strategies (w.group slot priority)) := by
    rw [← hstrategies]
    have htidy : Contents.Tidy .empty := trivial
    exact Contents.spotsOf_eq htidy writes
  refine ⟨t', hreads, hwriteAll, ?_, ?_, ?_, Mapping.conflicts_of_not_lossless hnone⟩
  · intro hseveral
    refine Cell.exists_peek_of_isAggregate ?_
    rw [hcontents]
    refine Contents.isAggregate_after ?_ (.inr hwrites)
    intro u hu hdirect
    have hmem : none ∈ Mapping.strategies (w.group slot priority) := by
      rw [← hstrategies]
      exact List.mem_map.2 ⟨u, hu, hdirect⟩
    obtain ⟨m, hm, htarget⟩ := List.mem_map.1 hmem
    have hone := eq_singleton_of_groupFault? hnone hm (by simp [Mapping.isDirect, htarget])
    rw [hone] at hseveral
    exact absurd hseveral (by simp)
  · intro hlossless
    rw [Mapping.Lossless, ← hspots] at hlossless
    rw [hcontents, ← hspots]
    have hperm := Contents.perm_elements_after hlossless fun p _ => Contents.free_empty p
    exact ⟨by simpa [Contents.elements] using hperm, Contents.at?_after hlossless⟩
  · intro hlossy
    rw [Mapping.Lossless, ← hspots] at hlossy
    rw [hcontents, hlength]
    have hless := Contents.length_elements_after_lt (c := .empty) trivial fun h => hlossy h.1
    simpa [Contents.elements] using hless

/-- An append and a write of the position that it takes. -/
def Sample.overtaking : List Mapping := [
  ⟨.constant (.int 1), none, .variable "v", some .append, none⟩,
  ⟨.constant (.int 2), none, .variable "v", some (.index 0), none⟩]

/-- A scene in which there is nothing to read but constants. -/
def Sample.bare : Scene := ⟨⟨⟨0⟩, "", none, none, [], .empty ⟨0⟩, []⟩, none⟩

/-- Both constants are written in an accepted composition, and one of them is left. -/
theorem placed_of_build_overtaking : ∃ w writes t',
    build ⟨0⟩ Sample.overtaking = .ok w ∧
    ((Assoc.find? w.targets (.variable "v")).bind fun t => Assoc.find? t.groups none)
      = some Sample.overtaking ∧
    Sample.bare.readGroup Sample.overtaking = .ok writes ∧
    Mapping.Placed Sample.bare Sample.overtaking writes (.ofVariable "v") t' ∧
    ¬ Mapping.Lossless Sample.overtaking ∧ t'.peek = some (.list [.int 2]) := by
  obtain ⟨t', hplaced⟩ := @placed_of_build ⟨0⟩ Sample.overtaking _ rfl (.variable "v") none
    Sample.overtaking rfl Sample.bare (by decide) _ rfl (.ofVariable "v") rfl rfl
  have hpeek : t'.peek = some (.list [.int 2]) :=
    (congrArg (fun ran => ran.2.peek) hplaced.succeeds).symm
  exact ⟨_, _, t', rfl, rfl, rfl, hplaced, by decide, hpeek⟩

end Wiring

end CallFlow
