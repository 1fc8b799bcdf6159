import CallFlow.Proofs.Codecs

/-!
# The entries of constant maps

A constant that was printed with the members of objects in order of their keys is read again with
the entries of all its maps in this order (`Constant.sorted`, `Constant.resorted?_eq_sorted`).
Nothing else changes if the maps have different keys and the floats are read from their texts as
they are.
-/

namespace CallFlow

open CallFlow.Json (Key Piece tagged)

theorem Value.fitsInt_toInt (n : Int64) : fitsInt n.toInt = true := by
  have hmin : Int64.minValue.toInt ≤ n.toInt := n.minValue_le_toInt
  have hmax : n.toInt ≤ Int64.maxValue.toInt := n.toInt_le
  rw [fitsInt, decide_eq_true hmin, decide_eq_true hmax]
  rfl

section Parts

variable {α β : Type}

/-- What is made of a list comes back as it was exactly if every element does. -/
theorem map_mapM_eq_self_iff {f : α → Option α} {make : List α → β}
    (hmake : Function.Injective make) {as : List α} :
    (as.mapM f).map make = some (make as) ↔ ∀ a ∈ as, f a = some a := by
  rw [← mapM_eq_some_self_iff, ← Option.map_some, (Option.map_injective hmake).eq_iff]

/-- What is made of a map comes back as it was exactly if every value does. -/
theorem map_ofList_eq_self_iff {f : α → Option α} {make : Assoc String α → β}
    (hmake : Function.Injective make)
    {entries : Assoc String α} (hkeys : (Assoc.keys entries).Nodup) :
    ((entries.mapM fun e => (f e.2).map fun a => (e.1, a)).map fun es => make (Assoc.ofList es)) =
      some (make entries) ↔
      ∀ e ∈ entries, f e.2 = some e.2 := by
  have hentries : (entries.mapM fun e => (f e.2).map fun a => (e.1, a)) = some entries ↔
      ∀ e ∈ entries, f e.2 = some e.2 := by
    rw [mapM_eq_some_self_iff]
    refine forall₂_congr fun e _ => ?_
    rw [Option.map_eq_some_iff]
    exact ⟨fun ⟨a, ha, heq⟩ => (Prod.mk.inj heq).2 ▸ ha, fun h => ⟨_, h, rfl⟩⟩
  rw [← hentries]
  constructor
  · intro hread
    obtain ⟨es, hes, hmap⟩ := Option.map_eq_some_iff.1 hread
    have hnodup : (Assoc.keys es).Nodup := by rwa [keys_of_mapM hes]
    rw [Assoc.ofList_of_nodup hnodup] at hmap
    rw [hes, hmake hmap]
  · intro hread
    rw [hread, Option.map_some, Assoc.ofList_of_nodup hkeys]

end Parts

namespace Constant

/-! ## Constants inside of constants -/

mutual

/-- Is the constant such, and all constants inside of it? -/
def All (P : Constant → Prop) : Constant → Prop
  | .list items => P (.list items) ∧ AllItems P items
  | .map entries => P (.map entries) ∧ AllEntries P entries
  | .none => P .none
  | .bool b => P (.bool b)
  | .int n => P (.int n)
  | .float x => P (.float x)
  | .str s => P (.str s)

/-- `All` for the items of a list. -/
def AllItems (P : Constant → Prop) : List Constant → Prop
  | [] => True
  | c :: rest => All P c ∧ AllItems P rest

/-- `All` for the values of the entries of a map. -/
def AllEntries (P : Constant → Prop) : List (String × Constant) → Prop
  | [] => True
  | (_, c) :: rest => All P c ∧ AllEntries P rest

end

/-- If the constant is a map, it has each key once. -/
def HasDistinctKeys : Constant → Prop
  | .map entries => (Assoc.keys entries).Nodup
  | .none | .bool _ | .int _ | .float _ | .str _ | .list _ => True

/-- If the constant is a float, it is read from its text as it is. -/
def IsReadAgain : Constant → Prop
  | .float x => Piece.ofPrinted (.float x) = .float x
  | .none | .bool _ | .int _ | .str _ | .list _ | .map _ => True

/-- All maps in the constant have each key once. -/
def Distinct (c : Constant) : Prop := c.All HasDistinctKeys

/-- All floats in the constant are read from their texts as they are. -/
def Exact (c : Constant) : Prop := c.All IsReadAgain

variable {r : Json → Piece} {P : Constant → Prop}

theorem allItems_iff {items : List Constant} : AllItems P items ↔ ∀ c ∈ items, c.All P := by
  induction items with
  | nil => simp [AllItems]
  | cons c items ih => rw [AllItems, ih, List.forall_mem_cons]

theorem allEntries_iff {entries : List (String × Constant)} :
    AllEntries P entries ↔ ∀ e ∈ entries, e.2.All P := by
  induction entries with
  | nil => simp [AllEntries]
  | cons e entries ih => rw [AllEntries, ih, List.forall_mem_cons]

mutual

theorem All.mono {P' : Constant → Prop} (hP : ∀ c, P c → P' c) : (c : Constant) → c.All P → c.All P'
  | .list items, h => ⟨hP _ h.1, allItems_iff.2 (All.mono_items hP items (allItems_iff.1 h.2))⟩
  | .map entries, h =>
      ⟨hP _ h.1, allEntries_iff.2 (All.mono_entries hP entries (allEntries_iff.1 h.2))⟩
  | .none, h | .bool _, h | .int _, h | .float _, h | .str _, h => hP _ h

theorem All.mono_items {P' : Constant → Prop} (hP : ∀ c, P c → P' c) :
    (items : List Constant) → (∀ c ∈ items, c.All P) → ∀ c ∈ items, c.All P'
  | [], _ => fun _ hc => absurd hc (by simp)
  | c :: items, h => by
      obtain ⟨hc, hitems⟩ := List.forall_mem_cons.1 h
      exact List.forall_mem_cons.2 ⟨All.mono hP c hc, All.mono_items hP items hitems⟩

theorem All.mono_entries {P' : Constant → Prop} (hP : ∀ c, P c → P' c) :
    (entries : List (String × Constant)) → (∀ e ∈ entries, e.2.All P) → ∀ e ∈ entries, e.2.All P'
  | [], _ => fun _ he => absurd he (by simp)
  | (k, c) :: entries, h => by
      obtain ⟨hc, hentries⟩ := List.forall_mem_cons.1 h
      exact List.forall_mem_cons.2 ⟨All.mono hP c hc, All.mono_entries hP entries hentries⟩

end

/-! ## Entries in order -/

mutual

/-- The constant with the entries of all its maps in order of their keys. -/
def sorted : Constant → Constant
  | .list items => .list (sortedItems items)
  | .map entries => .map (Assoc.sortedOfList textBefore (sortedEntries entries))
  | .none => .none
  | .bool b => .bool b
  | .int n => .int n
  | .float x => .float x
  | .str s => .str s

/-- `sorted` on the items of a list. -/
def sortedItems : List Constant → List Constant
  | [] => []
  | c :: rest => sorted c :: sortedItems rest

/-- `sorted` on the entries of a map, which keep their own order. -/
def sortedEntries : List (String × Constant) → List (String × Constant)
  | [] => []
  | (k, c) :: rest => (k, sorted c) :: sortedEntries rest

end

theorem entriesToJson_eq (entries : List (String × Constant)) :
    entriesToJson entries = Assoc.mapValues toJson entries := by
  induction entries with
  | nil => rfl
  | cons e entries ih => exact congrArg (_ :: ·) ih

theorem keys_sortedEntries (entries : List (String × Constant)) :
    Assoc.keys (sortedEntries entries) = Assoc.keys entries := by
  induction entries with
  | nil => rfl
  | cons e entries ih => exact congrArg (e.1 :: ·) ih

mutual

/-- The JSON form has its members in order if the constant has its entries so. -/
theorem toJson_sorted : (c : Constant) → c.sorted.toJson = c.toJson.sorted
  | .list items => congrArg (fun js => Json.tagged "List" (.arr js)) (itemsToJson_sorted items)
  | .map entries => by
      refine congrArg (fun ms => Json.tagged "Map" (.obj ms)) ?_
      rw [entriesToJson_eq, ← Assoc.sortedOfList_mapValues, ← entriesToJson_eq,
        entriesToJson_sorted entries]
  | .none | .bool _ | .int _ | .float _ | .str _ => rfl

theorem itemsToJson_sorted :
    (items : List Constant) → itemsToJson (sortedItems items) = Json.sortedItems (itemsToJson items)
  | [] => rfl
  | c :: items => congrArg₂ List.cons (toJson_sorted c) (itemsToJson_sorted items)

theorem entriesToJson_sorted : (entries : List (String × Constant)) →
    entriesToJson (sortedEntries entries) = Json.sortedMembers (entriesToJson entries)
  | [] => rfl
  | (k, c) :: entries =>
      congrArg₂ (fun j ms => (k, j) :: ms) (toJson_sorted c) (entriesToJson_sorted entries)

end

/-- What is read with the members of objects in order is what is read of the constant with its
entries so. -/
theorem resorted?_eq (c : Constant) : c.resorted? = c.sorted.reread? := by
  rw [resorted?, reread?, toJson_sorted]

/-- Whether a constant is such does not depend on the order of entries. -/
structure Orderless (P : Constant → Prop) : Prop where
  list : ∀ items, P (.list items) → P (.list (sortedItems items))
  map :
      ∀ entries, P (.map entries) → P (.map (Assoc.sortedOfList textBefore (sortedEntries entries)))

mutual

theorem All.sorted (hP : Orderless P) : (c : Constant) → c.All P → c.sorted.All P
  | .list items, h =>
      ⟨hP.list items h.1, allItems_iff.2 (All.sortedItems hP items (allItems_iff.1 h.2))⟩
  | .map entries, h => by
      refine ⟨hP.map entries h.1, allEntries_iff.2 fun e he => ?_⟩
      exact All.sortedEntries hP entries (allEntries_iff.1 h.2) e (Assoc.mem_of_mem_sortedOfList he)
  | .none, h | .bool _, h | .int _, h | .float _, h | .str _, h => h

theorem All.sortedItems (hP : Orderless P) :
    (items : List Constant) → (∀ c ∈ items, c.All P) → ∀ c ∈ Constant.sortedItems items, c.All P
  | [], _ => fun _ hc => absurd hc (by simp [Constant.sortedItems])
  | c :: items, h => by
      obtain ⟨hc, hitems⟩ := List.forall_mem_cons.1 h
      exact List.forall_mem_cons.2 ⟨All.sorted hP c hc, All.sortedItems hP items hitems⟩

theorem All.sortedEntries (hP : Orderless P) :
    (entries : List (String × Constant)) → (∀ e ∈ entries, e.2.All P) →
    ∀ e ∈ Constant.sortedEntries entries, e.2.All P
  | [], _ => fun _ he => absurd he (by simp [Constant.sortedEntries])
  | (k, c) :: entries, h => by
      obtain ⟨hc, hentries⟩ := List.forall_mem_cons.1 h
      exact List.forall_mem_cons.2 ⟨All.sorted hP c hc, All.sortedEntries hP entries hentries⟩

end

theorem Distinct.sorted {c : Constant} (h : c.Distinct) : c.sorted.Distinct := by
  refine All.sorted ⟨fun _ _ => trivial, fun entries hkeys => ?_⟩ c h
  have hnodup : (Assoc.keys (sortedEntries entries)).Nodup := by
    rw [keys_sortedEntries]
    exact hkeys
  exact ((Assoc.perm_sortedOfList hnodup).map Prod.fst).nodup_iff.2 hnodup

theorem Exact.sorted {c : Constant} (h : c.Exact) : c.sorted.Exact :=
  All.sorted ⟨fun _ _ => trivial, fun _ _ => trivial⟩ c h

/-! ## Constants that are read again -/

/-- If the constant is a float, it is read from its form as it is. -/
def IsKept (r : Json → Piece) : Constant → Prop
  | .float x => ofTagged? "Float" (r (.float x)) = some (.float x)
  | .none | .bool _ | .int _ | .str _ | .list _ | .map _ => True

theorem itemsToJson_eq (items : List Constant) : itemsToJson items = items.map toJson := by
  induction items with
  | nil => rfl
  | cons c items ih => exact congrArg (c.toJson :: ·) ih

theorem itemsOfPiece?_eq_mapM (ws : List Piece) : itemsOfPiece? ws = ws.mapM ofPiece? := by
  induction ws with
  | nil => rfl
  | cons w ws ih =>
      rw [itemsOfPiece?, ih, List.mapM_cons]

theorem entriesOfPiece?_eq_mapM (ms : List (Key × Piece)) :
    entriesOfPiece? ms = ms.mapM fun m => (ofPiece? m.2).map fun c => (m.1.text, c) := by
  induction ms with
  | nil => rfl
  | cons m ms ih =>
      rw [entriesOfPiece?, ih, List.mapM_cons]
      cases ofPiece? m.2 <;> rfl

theorem ofPiece?_of_tagged (h : Json.Keeps r) (tag : String) (j : Json) :
    ofPiece? (r (tagged tag j)) = ofTagged? tag (r j) := by
  rw [h.tagged]
  rfl

theorem itemsOfPiece?_toJson (h : Json.Keeps r) (items : List Constant) :
    ofPiece? (r (Constant.list items).toJson) =
      (items.mapM fun c => ofPiece? (r c.toJson)).map .list := by
  rw [toJson, ofPiece?_of_tagged h, h.arr, ofTagged?, if_pos rfl, itemsOfPiece?_eq_mapM,
    itemsToJson_eq, List.map_map,
    List.mapM_map]
  rfl

theorem entriesOfPiece?_toJson (h : Json.Keeps r) (entries : List (String × Constant)) :
    ofPiece? (r (Constant.map entries).toJson) =
      (entries.mapM fun e => (ofPiece? (r e.2.toJson)).map fun c => (e.1, c)).map fun es =>
        .map (Assoc.ofList es) := by
  rw [toJson, ofPiece?_of_tagged h, h.obj, ofTagged?, if_pos rfl, entriesOfPiece?_eq_mapM,
    entriesToJson_eq,
    Assoc.mapValues_eq_map, List.map_map, List.mapM_map]
  rfl

mutual

/-- A constant comes back as it was exactly if all floats in it do. -/
theorem ofPiece?_toJson_iff (h : Json.Keeps r) :
    (c : Constant) → c.Distinct → (ofPiece? (r c.toJson) = some c ↔ c.All (IsKept r))
  | .list items, hdistinct => by
      have hitems := forall_items_iff h items (allItems_iff.1 hdistinct.2)
      rw [itemsOfPiece?_toJson h, map_mapM_eq_self_iff fun _ _ => Constant.list.inj,
        All, allItems_iff]
      exact (forall₂_congr hitems).trans (and_iff_right trivial).symm
  | .map entries, hdistinct => by
      have hentries := forall_entries_iff h entries (allEntries_iff.1 hdistinct.2)
      rw [entriesOfPiece?_toJson h, All, allEntries_iff,
        map_ofList_eq_self_iff (f := fun c => ofPiece? (r c.toJson))
          (fun _ _ => Constant.map.inj) hdistinct.1]
      exact (forall₂_congr hentries).trans (and_iff_right trivial).symm
  | .float x, _ => by rw [toJson, ofPiece?_of_tagged h, All, IsKept]
  | .int n, _ => by
      rw [toJson, ofPiece?_of_tagged h, h.int64, ofTagged?, Value.fitsInt_toInt, Int64.ofInt_toInt]
      exact iff_of_true rfl trivial
  | .bool b, _ => by
      rw [toJson, ofPiece?_of_tagged h, h.bool]
      exact iff_of_true rfl trivial
  | .str s, _ => by
      rw [toJson, ofPiece?_of_tagged h, h.str]
      exact iff_of_true rfl trivial
  | .none, _ => by
      rw [toJson, h.str]
      exact iff_of_true rfl trivial

theorem forall_items_iff (h : Json.Keeps r) : (items : List Constant) → (∀ c ∈ items, c.Distinct) →
    ∀ c ∈ items, ofPiece? (r c.toJson) = some c ↔ c.All (IsKept r)
  | [], _ => fun _ hc => absurd hc (by simp)
  | c :: items, hdistinct => by
      obtain ⟨hc, hitems⟩ := List.forall_mem_cons.1 hdistinct
      exact List.forall_mem_cons.2 ⟨ofPiece?_toJson_iff h c hc, forall_items_iff h items hitems⟩

theorem forall_entries_iff (h : Json.Keeps r) : (entries : List (String × Constant)) →
    (∀ e ∈ entries, e.2.Distinct) →
    ∀ e ∈ entries, ofPiece? (r e.2.toJson) = some e.2 ↔ e.2.All (IsKept r)
  | [], _ => fun _ he => absurd he (by simp)
  | (k, c) :: entries, hdistinct => by
      obtain ⟨hc, hentries⟩ := List.forall_mem_cons.1 hdistinct
      exact List.forall_mem_cons.2 ⟨ofPiece?_toJson_iff h c hc,
        forall_entries_iff h entries hentries⟩

end

/-! ## Reading what was printed -/

/-- What is read from the text of a constant is the constant. -/
theorem reread?_eq_self (c : Constant) (hdistinct : c.Distinct) (hexact : c.Exact) :
    c.reread? = some c := by
  refine (ofPiece?_toJson_iff Json.Channel.keeps_ofPrinted c hdistinct).2
    (All.mono (fun c hc => ?_) c hexact)
  cases c with
  | float x => rw [IsKept, show Piece.ofPrinted (.float x) = .float x from hc,
                 ofTagged?, if_pos rfl]
  | _ => trivial

/-- **What is read of an export** is the constant with the entries of its maps in order. -/
theorem resorted?_eq_sorted {c : Constant} (hdistinct : c.Distinct) (hexact : c.Exact) :
    c.resorted? = some c.sorted := by
  rw [resorted?_eq, reread?_eq_self _ hdistinct.sorted hexact.sorted]

/-- What is read has each key once. -/
theorem distinct_ofList {entries : List (String × Constant)} (h : ∀ e ∈ entries, e.2.Distinct) :
    (Constant.map (Assoc.ofList entries)).Distinct := by
  refine ⟨Assoc.nodup_keys_ofList entries, allEntries_iff.2 fun e he => ?_⟩
  exact h e ((Assoc.mem_insertAll he).resolve_left (by simp))

end Constant

end CallFlow
