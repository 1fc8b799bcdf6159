import CallFlow.Codec.Value
import CallFlow.Proofs.Entries

/-!
# Round trips

What comes back when a graph or a value is read from its JSON form.  Numbers of 64 bits, finite
floats and the order of members are kept by every tree of JSON (`Json.KeepsFinite`), and a float
that is not finite becomes `null`.  So a graph or a value comes back as it was exactly if all
floats in it are finite (`Json.KeepsFinite.read_back_iff`).
-/

namespace CallFlow

open CallFlow.Json (Piece Key tagged)

/-! ## Ways that keep finite floats -/

/-- A way that keeps finite floats too, and has `null` for others. -/
structure Json.KeepsFinite (r : Json → Piece) : Prop extends Json.Keeps r where
  float : ∀ x, r (.float x) = if x.isFinite then .float x else .null

namespace Constant

variable {r : Json → Piece}

/-- If the constant is a float, it is finite. -/
def IsFinite : Constant → Prop
  | .float x => x.isFinite = true
  | .none | .bool _ | .int _ | .str _ | .list _ | .map _ => True

/-- All floats in the constant are finite. -/
def Finite (c : Constant) : Prop := c.All IsFinite

theorem isKept_iff (h : Json.KeepsFinite r) (c : Constant) : c.IsKept r ↔ c.IsFinite := by
  cases c with
  | float x =>
      rw [IsKept, IsFinite, h.float]
      cases x.isFinite <;> simp [ofTagged?]
  | _ => exact Iff.rfl

theorem isKept_eq_isFinite (h : Json.KeepsFinite r) : IsKept r = IsFinite :=
  funext fun c => propext (isKept_iff h c)

theorem comes_back_iff (h : Json.KeepsFinite r) {c : Constant} (hdistinct : c.Distinct) :
    ofPiece? (r c.toJson) = some c ↔ c.Finite := by
  rw [ofPiece?_toJson_iff h.toKeeps c hdistinct, isKept_eq_isFinite h, Finite]

end Constant

namespace Value

/-! ## Values inside of values -/

mutual

/-- Is the value such, and all values inside of it? -/
def All (P : Value → Prop) : Value → Prop
  | .list items => P (.list items) ∧ AllItems P items
  | .map entries => P (.map entries) ∧ AllEntries P entries
  | .iterator items position => P (.iterator items position) ∧ AllItems P items
  | .none => P .none
  | .bool b => P (.bool b)
  | .int n => P (.int n)
  | .float x => P (.float x)
  | .str s => P (.str s)

/-- `All` for items. -/
def AllItems (P : Value → Prop) : List Value → Prop
  | [] => True
  | v :: rest => All P v ∧ AllItems P rest

/-- `All` for the values of the entries of a map. -/
def AllEntries (P : Value → Prop) : List (String × Value) → Prop
  | [] => True
  | (_, v) :: rest => All P v ∧ AllEntries P rest

end

/-- A map has each key once, and a position fits 64 bits. -/
def IsTidy : Value → Prop
  | .map entries => (Assoc.keys entries).Nodup
  | .iterator _ position => position < UInt64.size
  | .none | .bool _ | .int _ | .float _ | .str _ | .list _ => True

/-- If the value is a float, it is finite. -/
def IsFinite : Value → Prop
  | .float x => x.isFinite = true
  | .none | .bool _ | .int _ | .str _ | .list _ | .map _ | .iterator _ _ => True

/-- All maps in the value have each key once, and all positions fit 64 bits. -/
def Tidy (v : Value) : Prop := v.All IsTidy

/-- All floats in the value are finite. -/
def Finite (v : Value) : Prop := v.All IsFinite

variable {P : Value → Prop}

theorem allItems_iff {items : List Value} : AllItems P items ↔ ∀ v ∈ items, v.All P := by
  induction items with
  | nil => simp [AllItems]
  | cons v items ih => rw [AllItems, ih, List.forall_mem_cons]

theorem allEntries_iff {entries : List (String × Value)} :
    AllEntries P entries ↔ ∀ e ∈ entries, e.2.All P := by
  induction entries with
  | nil => simp [AllEntries]
  | cons e entries ih => rw [AllEntries, ih, List.forall_mem_cons]

/-! ## Values that are read again -/

variable {r : Json → Piece}

theorem itemsToShaped_eq (items : List Value) : itemsToShaped items = items.map toShaped := by
  induction items with
  | nil => rfl
  | cons v items ih => exact congrArg (v.toShaped :: ·) ih

theorem entriesToShaped_eq (entries : List (String × Value)) :
    entriesToShaped entries = Assoc.mapValues toShaped entries := by
  induction entries with
  | nil => rfl
  | cons e entries ih => exact congrArg (_ :: ·) ih

theorem itemsOfShaped?_eq_mapM (ws : List Piece) : itemsOfShaped? ws = ws.mapM ofShaped? := by
  induction ws with
  | nil => rfl
  | cons w ws ih => rw [itemsOfShaped?, ih, List.mapM_cons]

theorem entriesOfShaped?_eq_mapM (ms : List (Key × Piece)) :
    entriesOfShaped? ms = ms.mapM fun m => (ofShaped? m.2).map fun v => (m.1.text, v) := by
  induction ms with
  | nil => rfl
  | cons m ms ih =>
      rw [entriesOfShaped?, ih, List.mapM_cons]
      cases ofShaped? m.2 <;> rfl

theorem ofShaped?_of_tagged (h : Json.Keeps r) (tag : String) (j : Json) :
    ofShaped? (r (tagged tag j)) = ofTagged? tag (r j) := by
  rw [h.tagged]
  rfl

/-- A list is read from any array, also from one that could be an iterator, where an item without
the name of a shape has no value. -/
theorem ofTagged?_list (ws : List Piece) :
    ofTagged? "List" (.arr ws) = (itemsOfShaped? ws).map .list := by
  unfold ofTagged?
  split
  case h_6 items position heq =>
    obtain rfl : ws = [.arr items, position] := Piece.arr.inj heq
    rfl
  all_goals simp_all

theorem itemsOfShaped?_toShaped (items : List Value) :
    itemsOfShaped? ((itemsToShaped items).map r) =
      items.mapM fun v => ofShaped? (r v.toShaped) := by
  rw [itemsOfShaped?_eq_mapM, itemsToShaped_eq, List.map_map, List.mapM_map]
  rfl

theorem ofShaped?_list (h : Json.Keeps r) (items : List Value) :
    ofShaped? (r (Value.list items).toShaped) =
      (items.mapM fun v => ofShaped? (r v.toShaped)).map .list := by
  rw [toShaped, ofShaped?_of_tagged h, h.arr, ofTagged?_list, itemsOfShaped?_toShaped]

theorem ofShaped?_map (h : Json.Keeps r) (entries : List (String × Value)) :
    ofShaped? (r (Value.map entries).toShaped) =
      (entries.mapM fun e => (ofShaped? (r e.2.toShaped)).map fun v => (e.1, v)).map
        fun es => .map (Assoc.ofList es) := by
  rw [toShaped, ofShaped?_of_tagged h, h.obj, ofTagged?, if_pos rfl, entriesOfShaped?_eq_mapM,
    entriesToShaped_eq,
    Assoc.mapValues_eq_map, List.map_map, List.mapM_map]
  rfl

theorem ofShaped?_iterator (h : Json.Keeps r) (items : List Value) {position : Nat}
    (hposition : position < UInt64.size) :
    ofShaped? (r (Value.iterator items position).toShaped) =
      (items.mapM fun v => ofShaped? (r v.toShaped)).map fun vs => .iterator vs position := by
  have hread := (h.channel.natBelow _ (Nat.le_refl _)).read position hposition
  rw [toShaped, ofShaped?_of_tagged h, h.obj, List.map_cons, List.map_cons, List.map_nil, h.arr,
    ← itemsOfShaped?_toShaped]
  show ((itemsOfShaped? ((itemsToShaped items).map r)).bind fun vs =>
    (Piece.position? (r (.ofNat position))).bind fun i => some (Value.iterator vs i)) = _
  rw [Piece.position?, hread]
  cases itemsOfShaped? ((itemsToShaped items).map r) <;> rfl

mutual

/-- A value comes back as it was exactly if all floats in it are finite. -/
theorem comes_back_iff (h : Json.KeepsFinite r) :
    (v : Value) → v.Tidy → (ofShaped? (r v.toShaped) = some v ↔ v.Finite)
  | .list items, htidy => by
      have hitems := forall_items_iff h items (allItems_iff.1 htidy.2)
      rw [ofShaped?_list h.toKeeps, map_mapM_eq_self_iff fun _ _ => Value.list.inj, Finite,
        All, allItems_iff]
      exact (forall₂_congr hitems).trans (and_iff_right trivial).symm
  | .map entries, htidy => by
      have hentries := forall_entries_iff h entries (allEntries_iff.1 htidy.2)
      rw [ofShaped?_map h.toKeeps, Finite, All, allEntries_iff,
        map_ofList_eq_self_iff (f := fun v => ofShaped? (r v.toShaped))
          (fun _ _ => Value.map.inj) htidy.1]
      exact (forall₂_congr hentries).trans (and_iff_right trivial).symm
  | .iterator items position, htidy => by
      have hitems := forall_items_iff h items (allItems_iff.1 htidy.2)
      have hinjective : Function.Injective fun vs => Value.iterator vs position :=
        fun _ _ heq => (Value.iterator.inj heq).1
      rw [ofShaped?_iterator h.toKeeps items htidy.1, map_mapM_eq_self_iff hinjective, Finite,
        All, allItems_iff]
      exact (forall₂_congr hitems).trans (and_iff_right trivial).symm
  | .float x, _ => by
      rw [toShaped, ofShaped?_of_tagged h.toKeeps, h.float, Finite, All, IsFinite]
      cases x.isFinite <;> simp [ofTagged?]
  | .int n, _ => by
      rw [toShaped, ofShaped?_of_tagged h.toKeeps, h.int64, ofTagged?, fitsInt_toInt,
        Int64.ofInt_toInt]
      exact iff_of_true rfl trivial
  | .bool b, _ => by
      rw [toShaped, ofShaped?_of_tagged h.toKeeps, h.bool]
      exact iff_of_true rfl trivial
  | .str s, _ => by
      rw [toShaped, ofShaped?_of_tagged h.toKeeps, h.str]
      exact iff_of_true rfl trivial
  | .none, _ => by
      rw [toShaped, h.str]
      exact iff_of_true rfl trivial

theorem forall_items_iff (h : Json.KeepsFinite r) : (items : List Value) → (∀ v ∈ items, v.Tidy) →
    ∀ v ∈ items, ofShaped? (r v.toShaped) = some v ↔ v.Finite
  | [], _ => fun _ hv => absurd hv (by simp)
  | v :: items, htidy => by
      obtain ⟨hv, hitems⟩ := List.forall_mem_cons.1 htidy
      exact List.forall_mem_cons.2 ⟨comes_back_iff h v hv, forall_items_iff h items hitems⟩

theorem forall_entries_iff (h : Json.KeepsFinite r) : (entries : List (String × Value)) →
    (∀ e ∈ entries, e.2.Tidy) → ∀ e ∈ entries, ofShaped? (r e.2.toShaped) = some e.2 ↔ e.2.Finite
  | [], _ => fun _ he => absurd he (by simp)
  | (k, v) :: entries, htidy => by
      obtain ⟨hv, hentries⟩ := List.forall_mem_cons.1 htidy
      exact List.forall_mem_cons.2 ⟨comes_back_iff h v hv, forall_entries_iff h entries hentries⟩

end

end Value

/-! ## Graphs and values together -/

/-- **What comes back from a tree of JSON**, which keeps numbers of 64 bits and finite floats and
has no form for others: a graph or a value as it was, with all entries in their order, exactly if
all floats in it are finite. -/
theorem Json.KeepsFinite.read_back_iff {r : Json → Piece} (h : Json.KeepsFinite r) :
    (∀ g : Graph, g.Sized → (∀ c ∈ g.constants, c.Distinct) →
      (Graph.ofPiece? (r g.toJson) = some g ↔ ∀ c ∈ g.constants, c.Finite)) ∧
    ∀ v : Value, v.Tidy → (Value.ofShaped? (r v.toShaped) = some v ↔ v.Finite) := by
  refine ⟨fun g hsized hdistinct => ?_, Value.comes_back_iff h⟩
  rw [h.channel.graph hsized, Graph.mapConstants?_eq_self_iff]
  exact forall₂_congr fun c hc => Constant.comes_back_iff h (hdistinct c hc)

/-! ### Trees -/

namespace Json.Piece

mutual

/-- The piece that stands for a value in a tree of JSON, which has no floats that are not finite. -/
def ofTree : Json → Piece
  | .null => .null
  | .bool b => .bool b
  | .int n => .int n
  | .float x => if x.isFinite then .float x else .null
  | .str s => .str s
  | .arr items => .arr (itemsOfTree items)
  | .obj members => .obj (membersOfTree members)

/-- The pieces for the items of an array. -/
def itemsOfTree : List Json → List Piece
  | [] => []
  | j :: rest => ofTree j :: itemsOfTree rest

/-- The pieces for the members of an object. -/
def membersOfTree : List (String × Json) → List (Key × Piece)
  | [] => []
  | (k, j) :: rest => (⟨k, k.toList.all isPlain⟩, ofTree j) :: membersOfTree rest

end

theorem keepsFinite_ofTree : KeepsFinite ofTree where
  null := rfl
  bool _ := rfl
  int _ _ _ := rfl
  str _ := rfl
  arr items := by
    rw [ofTree]
    induction items with
    | nil => rfl
    | cons j items ih => exact congrArg (fun ws => arr (ofTree j :: ws)) (arr.inj ih)
  obj members := by
    rw [ofTree]
    induction members with
    | nil => rfl
    | cons m members ih => exact congrArg (fun ms => obj (_ :: ms)) (obj.inj ih)
  float _ := rfl

end Json.Piece

namespace Sample

/-- A constant with a float and with maps whose entries are not in order. -/
def nested : Constant :=
  .map [("b", .float 0.1), ("a", .list [.int (-1), .map [("y", .none), ("x", .bool true)]])]

/-- A function with the constant as a default, and a composition that calls it. -/
def parcel : Graph :=
  .ofParts "parcel" [Description.plain ⟨0⟩ "f" [⟨"m", .map, .positional 0, some nested⟩]]
    [⟨⟨0⟩, "main", some ⟨0⟩, [⟨0⟩], [⟨⟨0⟩, ⟨0⟩, .loop ⟨0⟩ none, none⟩],
      [⟨.constant nested, some (.key "a"), .call ⟨0⟩ (.param 0), some (.index 7), some ⟨0⟩⟩]⟩]

/-- A cursor over a map and a float. -/
def cursor : Value := .iterator [.map [("b", .int 1), ("a", .str "x")], .float 0.1] 1

theorem sized_parcel : parcel.Sized where
  functionOrder := by decide
  compositionOrder := by decide
  functionKeys := by decide
  compositionKeys := by decide
  functions := List.forall_mem_singleton.2 ⟨by decide, by decide⟩
  compositions := by
    have hcall : CallDecl.Sized ⟨⟨0⟩, ⟨0⟩, .loop ⟨0⟩ none, none⟩ :=
      ⟨by decide, by decide, List.forall_mem_singleton.2 (by decide)⟩
    have hmapping : Mapping.Sized
        ⟨.constant nested, some (.key "a"), .call ⟨0⟩ (.param 0), some (.index 7), some ⟨0⟩⟩ :=
      ⟨trivial, by rintro _ ⟨⟩; trivial, show 0 < UInt32.size by decide,
        by rintro _ ⟨⟩; exact show 7 < UInt64.size by decide, by decide⟩
    exact List.forall_mem_singleton.2 ⟨by decide, by decide, by decide,
      List.forall_mem_singleton.2 hcall,
      List.forall_mem_singleton.2 hmapping⟩
  nextFunction := by decide
  nextComposition := by decide
  nextCall := by decide

theorem constants_parcel : parcel.constants = [nested, nested] := rfl

theorem distinct_nested : nested.Distinct :=
  ⟨show ["b", "a"].Nodup by decide, trivial,
    ⟨trivial, trivial, ⟨show ["y", "x"].Nodup by decide, trivial, trivial,
    trivial⟩, trivial⟩, trivial⟩

theorem finite_nested : nested.Finite :=
  ⟨trivial, show Float.isFinite 0.1 = true by decide,
    ⟨trivial, trivial, ⟨trivial, trivial, trivial, trivial⟩, trivial⟩,
    trivial⟩

theorem tidy_cursor : cursor.Tidy :=
  ⟨show 1 < UInt64.size by decide, ⟨show ["b", "a"].Nodup by decide, trivial, trivial, trivial⟩,
    trivial, trivial⟩

theorem finite_cursor : cursor.Finite :=
  ⟨trivial, ⟨trivial, trivial, trivial, trivial⟩, show Float.isFinite 0.1 = true by decide, trivial⟩

end Sample

/-- The graph and the cursor come back, and a float that is no number does not. -/
theorem Json.KeepsFinite.read_back_iff_sample :
    Graph.ofPiece? (Piece.ofTree Sample.parcel.toJson) = some Sample.parcel ∧
    Value.ofShaped? (Piece.ofTree Sample.cursor.toShaped) = some Sample.cursor ∧
    Value.ofShaped? (Piece.ofTree (Value.float (0 / 0)).toShaped) ≠ some (.float (0 / 0)) := by
  obtain ⟨hgraph, hvalue⟩ := read_back_iff Piece.keepsFinite_ofTree
  refine ⟨(hgraph Sample.parcel Sample.sized_parcel ?_).2 ?_,
    (hvalue _ Sample.tidy_cursor).2 Sample.finite_cursor, ?_⟩
  · simp [Sample.constants_parcel, Sample.distinct_nested]
  · simp [Sample.constants_parcel, Sample.finite_nested]
  · refine fun hread => absurd ((hvalue (.float (0 / 0)) trivial).1 hread) ?_
    show ¬ Float.isFinite (0 / 0) = true
    decide

end CallFlow
