import CallFlow.Host.Arithmetic
import CallFlow.Proofs.RoundTrip
import CallFlow.Value.Json

/-!
# Plain JSON

Values and plain JSON, there and back (`Value.plain_json`).

A plain value, which has no iterators and no floats that are not finite, comes back with the
entries of its maps in order of their keys (`Value.ofJson_toJson`), and so is equal to what it was
(`Value.same_sorted`).  A tree of JSON whose numbers are in range comes back with the members of
its objects in order (`Value.toJson_ofJson`).  What is not plain has the JSON form of the plain
value that stands for it (`Value.Replaces.toJson_eq`).

Keys are sorted on the way and again on the way back, and the second time nothing changes
(`sortedOfList_sortedOfList`).
-/

namespace CallFlow

/-! ## Keys in order -/

theorem textBefore_total {a b : String} (hne : a ≠ b) (h : textBefore a b = false) :
    textBefore b a = true := by
  simp only [textBefore, decide_eq_false_iff_not, decide_eq_true_eq] at h ⊢
  exact Decidable.byContradiction fun hnot =>
    hne (String.le_antisymm (String.not_lt.1 hnot) (String.not_lt.1 h))

theorem textBefore_trans {a b c : String} (h : textBefore a b = true) (h' : textBefore b c = true) :
    textBefore a c = true := by
  simp only [textBefore, decide_eq_true_eq] at h h' ⊢
  exact String.lt_trans h h'

/-- Members in order of their keys are as they are when they are sorted. -/
theorem sortedOfList_of_ordered {α : Type} {m : Assoc String α}
    (h : (Assoc.keys m).Pairwise fun k k' => k < k') :
    Assoc.sortedOfList textBefore m = m :=
  Assoc.sortedOfList_of_pairwise <| h.imp fun hless =>
    ⟨fun heq => String.lt_irrefl _ (heq ▸ hless), decide_eq_false (String.lt_asymm hless)⟩

/-- What has been sorted is in order. -/
theorem sortedOfList_sortedOfList {α : Type} (m : Assoc String α) :
    Assoc.sortedOfList textBefore (Assoc.sortedOfList textBefore m) =
      Assoc.sortedOfList textBefore m := by
  refine sortedOfList_of_ordered ?_
  have hordered := Assoc.pairwise_sortedOfList textBefore (fun _ _ => textBefore_total)
    (fun _ _ _ => textBefore_trans) m
  exact hordered.imp of_decide_eq_true

/-! ## Trees -/

namespace Json

mutual

/-- Is the value such, and all values inside of it? -/
def All (P : Json → Prop) : Json → Prop
  | .arr items => P (.arr items) ∧ AllItems P items
  | .obj members => P (.obj members) ∧ AllMembers P members
  | .null => P .null
  | .bool b => P (.bool b)
  | .int n => P (.int n)
  | .float x => P (.float x)
  | .str s => P (.str s)

/-- `All` for the items of an array. -/
def AllItems (P : Json → Prop) : List Json → Prop
  | [] => True
  | j :: rest => All P j ∧ AllItems P rest

/-- `All` for the members of an object. -/
def AllMembers (P : Json → Prop) : List (String × Json) → Prop
  | [] => True
  | (_, j) :: rest => All P j ∧ AllMembers P rest

end

/-- A whole number fits 64 bits, and a float is finite. -/
def IsInRange : Json → Prop
  | .int n => Value.fitsInt n = true
  | .float x => x.isFinite = true
  | .null | .bool _ | .str _ | .arr _ | .obj _ => True

/-- The members of an object are in order of their keys, which are different. -/
def IsOrdered : Json → Prop
  | .obj members => (Assoc.keys members).Pairwise fun k k' => k < k'
  | .null | .bool _ | .int _ | .float _ | .str _ | .arr _ => True

/-- All numbers in the value are in range. -/
def InRange (j : Json) : Prop := j.All IsInRange

/-- All objects in the value are in order, as in a tree that has been read. -/
def Ordered (j : Json) : Prop := j.All IsOrdered

mutual

/-- To sort what is in order changes nothing. -/
theorem sorted_of_ordered : (j : Json) → j.Ordered → j.sorted = j
  | .arr items, h => congrArg Json.arr (sortedItems_of_ordered items h.2)
  | .obj members, h => by
      rw [sorted, sortedMembers_of_ordered members h.2, sortedOfList_of_ordered h.1]
  | .null, _ | .bool _, _ | .int _, _ | .float _, _ | .str _, _ => rfl

theorem sortedItems_of_ordered :
    (items : List Json) → AllItems IsOrdered items → sortedItems items = items
  | [], _ => rfl
  | j :: items, h =>
      congrArg₂ List.cons (sorted_of_ordered j h.1) (sortedItems_of_ordered items h.2)

theorem sortedMembers_of_ordered :
    (members : List (String × Json)) → AllMembers IsOrdered members →
      sortedMembers members = members
  | [], _ => rfl
  | (k, j) :: members, h =>
      congrArg₂ (fun j ms => (k, j) :: ms) (sorted_of_ordered j h.1)
        (sortedMembers_of_ordered members h.2)

end

end Json

namespace Value

/-! ## Values -/

/-- The value is no iterator, a float is finite, and a map has each key once. -/
def IsPlain : Value → Prop
  | .float x => x.isFinite = true
  | .map entries => (Assoc.keys entries).Nodup
  | .iterator _ _ => False
  | .none | .bool _ | .int _ | .str _ | .list _ => True

/-- There are no iterators in the value, all floats are finite, and all maps have each key once. -/
def Plain (v : Value) : Prop := v.All IsPlain

mutual

/-- The value with the entries of all its maps in order of their keys. -/
def sorted : Value → Value
  | .list items => .list (sortedItems items)
  | .map entries => .map (Assoc.sortedOfList textBefore (sortedEntries entries))
  | .iterator items position => .iterator (sortedItems items) position
  | .none => .none
  | .bool b => .bool b
  | .int n => .int n
  | .float x => .float x
  | .str s => .str s

/-- `sorted` on items. -/
def sortedItems : List Value → List Value
  | [] => []
  | v :: rest => sorted v :: sortedItems rest

/-- `sorted` on the entries of a map, which keep their own order. -/
def sortedEntries : List (String × Value) → List (String × Value)
  | [] => []
  | (k, v) :: rest => (k, sorted v) :: sortedEntries rest

end

theorem itemsToJson_eq (items : List Value) : itemsToJson items = items.map toJson := by
  induction items with
  | nil => rfl
  | cons v items ih => exact congrArg (v.toJson :: ·) ih

theorem entriesToJson_eq (entries : List (String × Value)) :
    entriesToJson entries = Assoc.mapValues toJson entries := by
  induction entries with
  | nil => rfl
  | cons e entries ih => exact congrArg (_ :: ·) ih

theorem entriesOfJson_eq (members : List (String × Json)) :
    entriesOfJson members = Assoc.mapValues ofJson members := by
  induction members with
  | nil => rfl
  | cons m members ih => exact congrArg (_ :: ·) ih

theorem sortedEntries_eq (entries : List (String × Value)) :
    sortedEntries entries = Assoc.mapValues sorted entries := by
  induction entries with
  | nil => rfl
  | cons e entries ih => exact congrArg (_ :: ·) ih

theorem entriesToJson_sortedOfList (entries : List (String × Value)) :
    entriesToJson (Assoc.sortedOfList textBefore entries) =
      Assoc.sortedOfList textBefore (entriesToJson entries) := by
  rw [entriesToJson_eq, entriesToJson_eq, Assoc.sortedOfList_mapValues]

theorem entriesOfJson_sortedOfList (members : List (String × Json)) :
    entriesOfJson (Assoc.sortedOfList textBefore members) =
      Assoc.sortedOfList textBefore (entriesOfJson members) := by
  rw [entriesOfJson_eq, entriesOfJson_eq, Assoc.sortedOfList_mapValues]

/-! ### There and back -/

mutual

/-- A plain value comes back with its maps in order. -/
theorem ofJson_toJson : (v : Value) → v.Plain → ofJson v.toJson = v.sorted
  | .list items, h => congrArg Value.list (itemsOfJson_toJson items h.2)
  | .map entries, h => by
      rw [toJson, ofJson, entriesOfJson_sortedOfList, entriesOfJson_toJson entries h.2,
        sortedOfList_sortedOfList,
        sorted]
  | .iterator _ _, h => h.1.elim
  | .float x, h => by
      have hfinite : x.isFinite = true := h
      rw [toJson, if_pos hfinite, ofJson, sorted]
  | .int n, _ => by
      rw [toJson, ofJson, if_pos (fitsInt_toInt n), Int64.ofInt_toInt, sorted]
  | .none, _ | .bool _, _ | .str _, _ => rfl

theorem itemsOfJson_toJson :
    (items : List Value) → AllItems IsPlain items →
      itemsOfJson (itemsToJson items) = sortedItems items
  | [], _ => rfl
  | v :: items, h => congrArg₂ List.cons (ofJson_toJson v h.1) (itemsOfJson_toJson items h.2)

theorem entriesOfJson_toJson : (entries : List (String × Value)) → AllEntries IsPlain entries →
    entriesOfJson (entriesToJson entries) = sortedEntries entries
  | [], _ => rfl
  | (k, v) :: entries, h =>
      congrArg₂ (fun v es => (k, v) :: es) (ofJson_toJson v h.1) (entriesOfJson_toJson entries h.2)

end

mutual

/-- A tree whose numbers are in range comes back with its objects in order. -/
theorem toJson_ofJson : (j : Json) → j.InRange → (ofJson j).toJson = j.sorted
  | .arr items, h => congrArg Json.arr (itemsToJson_ofJson items h.2)
  | .obj members, h => by
      rw [ofJson, toJson, entriesToJson_sortedOfList, entriesToJson_ofJson members h.2,
        sortedOfList_sortedOfList,
        Json.sorted]
  | .float x, h => by
      have hfinite : x.isFinite = true := h
      rw [ofJson, toJson, if_pos hfinite, Json.sorted]
  | .int n, h => by
      have hfits : fitsInt n = true := h
      have hword : (Int64.ofInt n).toInt = n := Host.toInt_of_narrow? (if_pos hfits)
      rw [ofJson, if_pos hfits, toJson, hword, Json.sorted]
  | .null, _ | .bool _, _ | .str _, _ => rfl

theorem itemsToJson_ofJson : (items : List Json) → Json.AllItems Json.IsInRange items →
    itemsToJson (itemsOfJson items) = Json.sortedItems items
  | [], _ => rfl
  | j :: items, h => congrArg₂ List.cons (toJson_ofJson j h.1) (itemsToJson_ofJson items h.2)

theorem entriesToJson_ofJson :
    (members : List (String × Json)) → Json.AllMembers Json.IsInRange members →
    entriesToJson (entriesOfJson members) = Json.sortedMembers members
  | [], _ => rfl
  | (k, j) :: members, h =>
      congrArg₂ (fun j ms => (k, j) :: ms) (toJson_ofJson j h.1) (entriesToJson_ofJson members h.2)

end

/-! ### Equality -/

/-- A finite float is equal to itself. -/
theorem beq_self_of_isFinite {x : Float} (h : x.isFinite = true) : (x == x) = true := by
  change x.toModel.unpack.beq x.toModel.unpack = true
  change x.toModel.unpack.isFinite = true at h
  cases hx : x.toModel.unpack with
  | zero sign => rfl
  | finite sign mantissa exponent hpos =>
      have hsame : (compare exponent exponent).then (compare mantissa mantissa) = .eq := by
        rw [Std.compare_self, Std.compare_self, Ordering.eq_then]
      cases sign with
      | positive =>
          change (some ((compare exponent exponent).then (compare mantissa mantissa)) == some .eq) =
            true
          rw [hsame]
          rfl
      | negative =>
          change (some ((compare exponent exponent).then (compare mantissa mantissa)).swap ==
            some .eq) = true
          rw [hsame]
          rfl
  | infinity sign | notANumber =>
      rw [hx] at h
      exact nomatch h

theorem sameEntries_iff {as bs : List (String × Value)} :
    sameEntries as bs = true ↔ ∀ e ∈ as, ∃ b, Assoc.find? bs e.1 = some b ∧ same e.2 b = true := by
  induction as with
  | nil => simp [sameEntries]
  | cons e as ih =>
      rw [sameEntries, Bool.and_eq_true, ih, List.forall_mem_cons]
      refine and_congr_left fun _ => ?_
      cases Assoc.find? bs e.1 <;> simp

mutual

/-- The order of entries makes no difference. -/
theorem same_sorted : (v : Value) → v.Plain → same v.sorted v = true
  | .list items, h => sameItems_sorted items h.2
  | .map entries, h => by
      have hitems := forall_same_sorted entries h.2
      have hperm :
          (Assoc.sortedOfList textBefore (sortedEntries entries)).Perm (sortedEntries entries) := by
        rw [sortedEntries_eq]
        exact Assoc.perm_sortedOfList (by rw [← Assoc.keys, Assoc.keys_mapValues]; exact h.1)
      rw [sorted, same, Bool.and_eq_true, beq_iff_eq, sameEntries_iff, hperm.length_eq,
        sortedEntries_eq,
        Assoc.mapValues_eq_map, List.length_map]
      refine ⟨rfl, fun e he => ?_⟩
      obtain ⟨⟨k, v⟩, hmem, rfl⟩ := List.mem_map.1 (Assoc.mem_of_mem_sortedOfList he)
      exact ⟨v, Assoc.find?_of_mem h.1 hmem, hitems _ hmem⟩
  | .iterator _ _, h => h.1.elim
  | .float x, h => beq_self_of_isFinite h
  | .int n, _ => by
      rw [sorted, same, beq_self_eq_true]
  | .bool b, _ => by
      rw [sorted, same, beq_self_eq_true]
  | .str s, _ => by
      rw [sorted, same, beq_self_eq_true]
  | .none, _ => rfl

theorem sameItems_sorted :
    (items : List Value) → AllItems IsPlain items → sameItems (sortedItems items) items = true
  | [], _ => rfl
  | v :: items, h => by
      rw [sortedItems, sameItems, same_sorted v h.1, sameItems_sorted items h.2]
      rfl

theorem forall_same_sorted : (entries : List (String × Value)) → AllEntries IsPlain entries →
    ∀ e ∈ entries, same e.2.sorted e.2 = true
  | [], _ => fun _ he => absurd he (by simp)
  | (_, v) :: entries, h =>
      List.forall_mem_cons.2 ⟨same_sorted v h.1, forall_same_sorted entries h.2⟩

end

/-! ### Values that are not plain -/

mutual

/-- One value stands for another in plain JSON: iterators may be replaced by the lists of what they
still have to yield, and floats that are not finite by nothing. -/
inductive Replaces : Value → Value → Prop
  | same (v : Value) : Replaces v v
  | iterator {items items' : List Value} {position : Nat} :
      ReplacesItems (items.drop position) items' →
      Replaces (.iterator items position) (.list items')
  | float {x : Float} : x.isFinite = false → Replaces (.float x) .none
  | list {items items' : List Value} :
      ReplacesItems items items' → Replaces (.list items) (.list items')
  | map {entries entries' : List (String × Value)} :
      ReplacesEntries entries entries' → Replaces (.map entries) (.map entries')
  | cursor {items items' : List Value} {position : Nat} :
      ReplacesItems items items' → Replaces (.iterator items position) (.iterator items' position)

/-- `Replaces` item by item. -/
inductive ReplacesItems : List Value → List Value → Prop
  | nil : ReplacesItems [] []
  | cons {v v' : Value} {items items' : List Value} :
      Replaces v v' → ReplacesItems items items' → ReplacesItems (v :: items) (v' :: items')

/-- `Replaces` entry by entry. -/
inductive ReplacesEntries : List (String × Value) → List (String × Value) → Prop
  | nil : ReplacesEntries [] []
  | cons {k : String} {v v' : Value} {entries entries' : List (String × Value)} :
      Replaces v v' → ReplacesEntries entries entries' →
        ReplacesEntries ((k, v) :: entries) ((k, v') :: entries')

end

mutual

/-- What stands for a value has its JSON form. -/
theorem Replaces.toJson_eq {v w : Value} : Replaces v w → w.toJson = v.toJson
  | .same _ => rfl
  | .iterator hitems => by
      rw [toJson, toJson, hitems.itemsToJson_eq, itemsToJson_eq, itemsToJson_eq, List.map_drop]
  | .float hinfinite => by
      rw [toJson, toJson, hinfinite, if_neg Bool.false_ne_true]
  | .list hitems => congrArg Json.arr hitems.itemsToJson_eq
  | .map hentries => by
      rw [toJson, toJson, hentries.entriesToJson_eq]
  | .cursor hitems => by
      rw [toJson, toJson, hitems.itemsToJson_eq]

theorem ReplacesItems.itemsToJson_eq {items items' : List Value} :
    ReplacesItems items items' → itemsToJson items' = itemsToJson items
  | .nil => rfl
  | .cons hv hitems => congrArg₂ List.cons hv.toJson_eq hitems.itemsToJson_eq

theorem ReplacesEntries.entriesToJson_eq {entries entries' : List (String × Value)} :
    ReplacesEntries entries entries' → entriesToJson entries' = entriesToJson entries
  | .nil => rfl
  | .cons hv hentries => congrArg₂ (fun j ms => (_, j) :: ms) hv.toJson_eq hentries.entriesToJson_eq

end

/-! ### Both ways together -/

/-- **Plain JSON keeps values, and values keep plain JSON.**  A plain value comes back with its maps
in order, and is equal to what it was.  A tree whose numbers are in range comes back with its
objects in order, and as it was if they were.  A value that is not plain has the form of what stands
for it. -/
theorem plain_json :
    (∀ v : Value, v.Plain → ofJson v.toJson = v.sorted ∧ (ofJson v.toJson == v) = true) ∧
    (∀ j : Json, j.InRange → (ofJson j).toJson = j.sorted ∧ (j.Ordered → (ofJson j).toJson = j)) ∧
    ∀ v w : Value, Replaces v w → w.toJson = v.toJson := by
  refine ⟨fun v hplain => ?_, fun j hrange => ?_, fun _ _ => Replaces.toJson_eq⟩
  · rw [ofJson_toJson v hplain]
    exact ⟨rfl, same_sorted v hplain⟩
  · rw [toJson_ofJson j hrange]
    exact ⟨rfl, Json.sorted_of_ordered j⟩

/-- A map whose keys are not in order is equal to what comes back, and so is a tree.  A cursor is
printed as what it has not passed, and a float that is no number as nothing. -/
theorem plain_json_sample :
    (ofJson (Value.map [("b", .list [.int 1, .float 1]), ("a", .none)]).toJson
      == .map [("b", .list [.int 1, .float 1]), ("a", .none)]) = true ∧
    (ofJson (.obj [("a", .arr [.int (-1), .float 0.5]), ("b", .null)])).toJson
      = .obj [("a", .arr [.int (-1), .float 0.5]), ("b", .null)] ∧
    (Value.list [.list [.int 2], .none]).toJson
      = (Value.list [.iterator [.int 1, .int 2] 1, .float (0 / 0)]).toJson := by
  obtain ⟨hvalue, hjson, hreplaces⟩ := plain_json
  refine ⟨(hvalue _ ?_).2, (hjson _ ?_).2 ?_, hreplaces _ _ ?_⟩
  · exact ⟨show ["b", "a"].Nodup by decide,
      ⟨trivial, trivial, show Float.isFinite 1 = true by decide, trivial⟩,
      trivial, trivial⟩
  · exact ⟨trivial, ⟨trivial, show fitsInt (-1) = true by decide,
      show Float.isFinite 0.5 = true by decide, trivial⟩,
      trivial, trivial⟩
  · exact ⟨show ["a", "b"].Pairwise (· < ·) by decide, ⟨trivial, trivial, trivial, trivial⟩,
      trivial, trivial⟩
  · exact .list (.cons (.iterator (.cons (.same _) .nil)) (.cons (.float (by decide)) .nil))

end Value

end CallFlow
