import CallFlow.Proofs.Entries

/-!
# Sizes of what was read

A text may nest only so deep and its numbers have bounds.  What is read from it keeps to both: its
numbers fit, and its own JSON form nests no deeper than the text (`Decodes`).  Of repeated keys in
a map, one entry is left.  So whatever was read can be written and read again.
-/

namespace CallFlow

open CallFlow.Json (Piece Key tagged)

/-! ## Depths -/

mutual

/-- How deep containers nest in a piece. -/
def Json.Piece.depth : Piece → Nat
  | .arr items => itemsDepth items + 1
  | .obj members => membersDepth members + 1
  | .null | .bool _ | .int _ | .float _ | .str _ | .unreadable => 0

/-- How deep containers nest in the items of an array. -/
def Json.Piece.itemsDepth : List Piece → Nat
  | [] => 0
  | w :: rest => max (depth w) (itemsDepth rest)

/-- How deep containers nest in the members of an object. -/
def Json.Piece.membersDepth : List (Key × Piece) → Nat
  | [] => 0
  | (_, w) :: rest => max (depth w) (membersDepth rest)

end

namespace Json

theorem Piece.depth_le_itemsDepth {items : List Piece} {w : Piece} (h : w ∈ items) :
    w.depth ≤ itemsDepth items := by
  induction items with
  | nil => cases h
  | cons w' items ih =>
      rcases List.mem_cons.1 h with rfl | h
      · exact Nat.le_max_left _ _
      · exact Nat.le_trans (ih h) (Nat.le_max_right _ _)

theorem Piece.depth_le_membersDepth {members : List (Key × Piece)} {m : Key × Piece}
    (h : m ∈ members) :
    m.2.depth ≤ membersDepth members := by
  induction members with
  | nil => cases h
  | cons m' members ih =>
      rcases List.mem_cons.1 h with rfl | h
      · exact Nat.le_max_left _ _
      · exact Nat.le_trans (ih h) (Nat.le_max_right _ _)

theorem depth_arr_le {items : List Json} {n : Nat} (h : ∀ j ∈ items, j.depth ≤ n) :
    (arr items).depth ≤ n + 1 := by
  have hitems : itemsDepth items ≤ n := by
    induction items with
    | nil => exact Nat.zero_le n
    | cons j items ih =>
        exact Nat.max_le.2 ⟨h j (List.mem_cons_self ..),
          ih fun j hj => h j (List.mem_cons_of_mem _ hj)⟩
  exact Nat.succ_le_succ hitems

theorem depth_obj_le {members : Assoc String Json} {n : Nat} (h : ∀ m ∈ members, m.2.depth ≤ n) :
    (obj members).depth ≤ n + 1 := by
  have hmembers : membersDepth members ≤ n := by
    induction members with
    | nil => exact Nat.zero_le n
    | cons m members ih =>
        exact Nat.max_le.2 ⟨h m (List.mem_cons_self ..),
          ih fun m hm => h m (List.mem_cons_of_mem _ hm)⟩
  exact Nat.succ_le_succ hmembers

theorem depth_tagged_le {tag : String} {j : Json} {n : Nat} (h : j.depth ≤ n) :
    (tagged tag j).depth ≤ n + 1 :=
  depth_obj_le fun m hm => by
    obtain rfl := List.mem_singleton.1 hm
    exact h

mutual

/-- Bringing members into order does not nest them deeper. -/
theorem depth_sorted_le : (j : Json) → j.sorted.depth ≤ j.depth
  | .arr items => depth_arr_le (depth_sortedItems_le items)
  | .obj members =>
      depth_obj_le fun m hm => depth_sortedMembers_le members m (Assoc.mem_of_mem_sortedOfList hm)
  | .null | .bool _ | .int _ | .float _ | .str _ => Nat.zero_le _

theorem depth_sortedItems_le :
    (items : List Json) → ∀ j ∈ sortedItems items, j.depth ≤ itemsDepth items
  | [] => fun _ hj => absurd hj (by simp [sortedItems])
  | j :: items => List.forall_mem_cons.2 ⟨Nat.le_trans (depth_sorted_le j) (Nat.le_max_left _ _),
      fun j' hj' => Nat.le_trans (depth_sortedItems_le items j' hj') (Nat.le_max_right _ _)⟩

theorem depth_sortedMembers_le :
    (members : List (String × Json)) → ∀ m ∈ sortedMembers members, m.2.depth ≤ membersDepth members
  | [] => fun _ hm => absurd hm (by simp [sortedMembers])
  | (_, j) :: members =>
      List.forall_mem_cons.2 ⟨Nat.le_trans (depth_sorted_le j) (Nat.le_max_left _ _),
      fun m hm => Nat.le_trans (depth_sortedMembers_le members m hm) (Nat.le_max_right _ _)⟩

end

/-- The fields of a record nest less deep than the record, and so does what is written from them. -/
theorem Piece.exists_depth_of_record? {w : Piece} {names : List String} {fs : List (String × Piece)}
    (h : w.record? names = some fs) : ∃ n, (∀ m ∈ fs, m.2.depth ≤ n) ∧
      ∀ members : Assoc String Json,
        (∀ m ∈ members, m.2.depth ≤ n) → (Json.obj members).depth ≤ w.depth := by
  cases w with
  | obj members =>
      rw [Piece.record?] at h
      split at h
      · obtain rfl := Option.some.inj h
        refine ⟨_, fun m hm => ?_, fun _ => depth_obj_le⟩
        obtain ⟨m, hmember, rfl⟩ := List.mem_map.1 hm
        exact depth_le_membersDepth hmember
      · cases h
  | arr items =>
      rw [Piece.record?] at h
      split at h
      · obtain rfl := Option.some.inj h
        exact ⟨_, fun m hm => depth_le_itemsDepth (List.of_mem_zip hm).2, fun _ => depth_obj_le⟩
      · cases h
  | _ => cases h

/-- What comes with an alternative nests less deep. -/
theorem Piece.depth_of_choice? {w content : Piece} {tag : String}
    (h : w.choice? = some (tag, some content)) :
    content.depth + 1 ≤ w.depth := by
  match w with
  | .obj [(tag, w')] =>
      obtain ⟨-, hcontent⟩ := Prod.mk.inj (Option.some.inj h)
      obtain rfl := Option.some.inj hcontent
      exact Nat.succ_le_succ (Nat.le_max_left _ _)
  | .str _ => cases (Prod.mk.inj (Option.some.inj h)).2
  | .null | .bool _ | .int _ | .float _ | .arr _ | .unreadable | .obj []
  | .obj (_ :: _ :: _) => cases h

end Json

/-! ## What is read -/

/-- What is read fits, and its JSON form nests no deeper than the piece. -/
def Decodes {α : Type} (toJson : α → Json) (read : Piece → Option α) (Fits : α → Prop) : Prop :=
  ∀ w a, read w = some a → Fits a ∧ (toJson a).depth ≤ w.depth

section Decodes

variable {α : Type} {toJson : α → Json} {read : Piece → Option α} {Fits : α → Prop}
  {fs : List (String × Piece)}
  {n : Nat} {name : String}

theorem Decodes.field (h : Decodes toJson read Fits) (hfs : ∀ m ∈ fs, m.2.depth ≤ n) {a : α}
    (ha : Piece.field? fs name read = some a) : Fits a ∧ (toJson a).depth ≤ n := by
  obtain ⟨w, hfind, hread⟩ := Option.bind_eq_some_iff.1 ha
  obtain ⟨hfits, hdepth⟩ := h w a hread
  exact ⟨hfits, Nat.le_trans hdepth (hfs _ (Assoc.mem_of_find?_eq_some hfind))⟩

theorem Decodes.optionalField (h : Decodes toJson read Fits) (hfs : ∀ m ∈ fs, m.2.depth ≤ n)
    {a? : Option α}
    (ha : Piece.optionalField? fs name read = some a?) :
    (∀ a ∈ a?, Fits a) ∧ (Json.ofOption toJson a?).depth ≤ n := by
  rw [Piece.optionalField?] at ha
  split at ha
  · obtain rfl := Option.some.inj ha
    exact ⟨fun _ ha => absurd ha (by simp), Nat.zero_le n⟩
  · obtain rfl := Option.some.inj ha
    exact ⟨fun _ ha => absurd ha (by simp), Nat.zero_le n⟩
  · rename_i w _ hfind
    obtain ⟨a, hread, rfl⟩ := Option.map_eq_some_iff.1 ha
    obtain ⟨hfits, hdepth⟩ := h w a hread
    refine ⟨fun a' ha' => ?_, Nat.le_trans hdepth (hfs _ (Assoc.mem_of_find?_eq_some hfind))⟩
    obtain rfl := Option.some.inj ha'
    exact hfits

theorem exists_of_mem_mapM {β : Type} {f : α → Option β} {as : List α} {bs : List β}
    (h : as.mapM f = some bs) :
    ∀ b ∈ bs, ∃ a ∈ as, f a = some b := by
  induction as generalizing bs with
  | nil =>
      obtain rfl := Option.some.inj h
      exact fun b hb => absurd hb (by simp)
  | cons a as ih =>
      rw [List.mapM_cons] at h
      obtain ⟨b, hb, h⟩ := Option.bind_eq_some_iff.1 h
      obtain ⟨bs, hbs, h⟩ := Option.bind_eq_some_iff.1 h
      obtain rfl := Option.some.inj h
      intro b' hb'
      rcases List.mem_cons.1 hb' with rfl | hb'
      · exact ⟨a, List.mem_cons_self .., hb⟩
      · obtain ⟨a', ha', hf⟩ := ih hbs b' hb'
        exact ⟨a', List.mem_cons_of_mem _ ha', hf⟩

theorem Decodes.list (h : Decodes toJson read Fits) :
    Decodes (.ofList toJson) (Piece.list? read) fun as => ∀ a ∈ as, Fits a := by
  intro w as has
  match w with
  | .arr items =>
      have hitems : ∀ a ∈ as, Fits a ∧ (toJson a).depth ≤ Piece.itemsDepth items := by
        intro a ha
        obtain ⟨w, hw, hread⟩ := exists_of_mem_mapM has a ha
        obtain ⟨hfits, hdepth⟩ := h w a hread
        exact ⟨hfits, Nat.le_trans hdepth (Piece.depth_le_itemsDepth hw)⟩
      refine ⟨fun a ha => (hitems a ha).1, Json.depth_arr_le fun j hj => ?_⟩
      obtain ⟨a, ha, rfl⟩ := List.mem_map.1 hj
      exact (hitems a ha).2
  | .null | .bool _ | .int _ | .float _ | .str _ | .obj _ | .unreadable => cases has

/-! ### Numbers and strings -/

theorem decodes_text : Decodes .str Piece.text? fun _ => True :=
  fun _ _ _ => ⟨trivial, Nat.zero_le _⟩

theorem decodes_natBelow (bound : Nat) : Decodes .ofNat (Piece.natBelow? bound) (· < bound) := by
  intro w n hn
  refine ⟨?_, Nat.zero_le _⟩
  match w with
  | .int i =>
      rw [Piece.natBelow?] at hn
      split at hn
      · rename_i hbound
        obtain rfl := Option.some.inj hn
        simp only [Bool.and_eq_true, decide_eq_true_eq] at hbound
        omega
      · cases hn
  | .null | .bool _ | .float _ | .str _ | .arr _ | .obj _ | .unreadable => cases hn

theorem Decodes.map {β : Type} (h : Decodes toJson read Fits) (make : α → β) (part : β → α)
    (hpart : ∀ a, part (make a) = a) :
    Decodes (fun b => toJson (part b)) (fun w => (read w).map make) fun b => Fits (part b) := by
  intro w b hb
  obtain ⟨a, ha, rfl⟩ := Option.map_eq_some_iff.1 hb
  show Fits (part (make a)) ∧ (toJson (part (make a))).depth ≤ w.depth
  rw [hpart]
  exact h w a ha

theorem decodes_functionId :
    Decodes FunctionId.toJson FunctionId.ofPiece? fun id => id.val < UInt32.size :=
  (decodes_natBelow UInt32.size).map FunctionId.mk FunctionId.val fun _ => rfl

theorem decodes_compositionId :
    Decodes CompositionId.toJson CompositionId.ofPiece? fun id => id.val < UInt32.size :=
  (decodes_natBelow UInt32.size).map CompositionId.mk CompositionId.val fun _ => rfl

theorem decodes_callId : Decodes CallId.toJson CallId.ofPiece? fun id => id.val < UInt32.size :=
  (decodes_natBelow UInt32.size).map CallId.mk CallId.val fun _ => rfl

theorem decodes_index : Decodes (fun i : UInt16 => .ofNat i.toNat) Piece.index? fun _ => True :=
  fun _ _ _ => ⟨trivial, Nat.zero_le _⟩

/-! ### Choices -/

/-- An alternative without content is read as what it stands for. -/
theorem eq_of_bare {content : Option Piece} {a a' : α}
    (h : (if Piece.isBare content then some a else none) = some a') : a = a' := by
  split at h
  · exact Option.some.inj h
  · cases h

/-- What comes with an alternative is what its reader reads. -/
theorem Decodes.content (h : Decodes toJson read Fits) {w content : Piece} {tag : String}
    (hchoice : w.choice? = some (tag, some content)) {a : α} (ha : read content = some a)
    (tag' : String) :
    Fits a ∧ (tagged tag' (toJson a)).depth ≤ w.depth := by
  obtain ⟨hfits, hdepth⟩ := h content a ha
  exact ⟨hfits, Nat.le_trans (Json.depth_tagged_le hdepth) (Piece.depth_of_choice? hchoice)⟩

theorem decodes_port : Decodes Port.toJson Port.ofPiece? fun _ => True := by
  intro w port hport
  obtain ⟨⟨tag, content⟩, hchoice, hport⟩ := Option.bind_eq_some_iff.1 hport
  split at hport
  · rename_i heq
    obtain ⟨-, rfl⟩ := Prod.mk.inj heq
    obtain ⟨i, hi, rfl⟩ := Option.map_eq_some_iff.1 hport
    exact decodes_index.content hchoice hi "Param"
  · obtain rfl := eq_of_bare hport
    exact ⟨trivial, Nat.zero_le _⟩
  · obtain rfl := eq_of_bare hport
    exact ⟨trivial, Nat.zero_le _⟩
  · obtain rfl := eq_of_bare hport
    exact ⟨trivial, Nat.zero_le _⟩
  · cases hport

theorem decodes_strategy : Decodes Strategy.toJson Strategy.ofPiece? Strategy.Sized := by
  intro w strategy hstrategy
  obtain ⟨⟨tag, content⟩, hchoice, hstrategy⟩ := Option.bind_eq_some_iff.1 hstrategy
  split at hstrategy
  · rename_i heq
    obtain ⟨-, rfl⟩ := Prod.mk.inj heq
    obtain ⟨i, hi, rfl⟩ := Option.map_eq_some_iff.1 hstrategy
    exact (decodes_natBelow UInt64.size).content hchoice hi "Index"
  · obtain rfl := eq_of_bare hstrategy
    exact ⟨trivial, Nat.zero_le _⟩
  · rename_i heq
    obtain ⟨-, rfl⟩ := Prod.mk.inj heq
    obtain ⟨k, hk, rfl⟩ := Option.map_eq_some_iff.1 hstrategy
    exact decodes_text.content hchoice hk "Key"
  · cases hstrategy

theorem decodes_valueType : Decodes ValueType.toJson ValueType.ofPiece? fun _ => True :=
  fun _ _ _ => ⟨trivial, Nat.zero_le _⟩

theorem decodes_paramKind : Decodes ParamKind.toJson ParamKind.ofPiece? fun _ => True := by
  intro w kind hkind
  obtain ⟨⟨tag, content⟩, hchoice, hkind⟩ := Option.bind_eq_some_iff.1 hkind
  split at hkind
  · rename_i heq
    obtain ⟨-, rfl⟩ := Prod.mk.inj heq
    obtain ⟨i, hi, rfl⟩ := Option.map_eq_some_iff.1 hkind
    exact decodes_index.content hchoice hi "Positional"
  · rename_i heq
    obtain ⟨-, rfl⟩ := Prod.mk.inj heq
    obtain ⟨name, hname, rfl⟩ := Option.map_eq_some_iff.1 hkind
    exact decodes_text.content hchoice hname "Keyword"
  · obtain rfl := eq_of_bare hkind
    exact ⟨trivial, Nat.zero_le _⟩
  · obtain rfl := eq_of_bare hkind
    exact ⟨trivial, Nat.zero_le _⟩
  · cases hkind

/-! ### Constants -/

theorem mem_entriesToJson {entries : List (String × Constant)} {m : String × Json}
    (h : m ∈ Constant.entriesToJson entries) : ∃ e ∈ entries, m.2 = e.2.toJson := by
  induction entries with
  | nil => cases h
  | cons e entries ih =>
      rcases List.mem_cons.1 h with rfl | h
      · exact ⟨e, List.mem_cons_self .., rfl⟩
      · obtain ⟨e', he', heq⟩ := ih h
        exact ⟨e', List.mem_cons_of_mem _ he', heq⟩

theorem mem_itemsToJson {items : List Constant} {j : Json} (h : j ∈ Constant.itemsToJson items) :
    ∃ c ∈ items, j = c.toJson := by
  induction items with
  | nil => cases h
  | cons c items ih =>
      rcases List.mem_cons.1 h with rfl | h
      · exact ⟨c, List.mem_cons_self .., rfl⟩
      · obtain ⟨c', hc', heq⟩ := ih h
        exact ⟨c', List.mem_cons_of_mem _ hc', heq⟩

mutual

theorem fits_of_constant :
    (w : Piece) → (c : Constant) → Constant.ofPiece? w = some c →
      c.Distinct ∧ c.toJson.depth ≤ w.depth
  | .str _, c, hc => by
      rw [Constant.ofPiece?] at hc
      split at hc
      · obtain rfl := Option.some.inj hc
        exact ⟨trivial, Nat.zero_le _⟩
      · cases hc
  | .obj [(tag, content)], c, hc => by
      rw [Constant.ofPiece?] at hc
      obtain ⟨hdistinct, hdepth⟩ := fits_of_tagged tag.text content c hc
      exact ⟨hdistinct, Nat.le_trans hdepth (Nat.succ_le_succ (Nat.le_max_left _ _))⟩
  | .null, _, hc | .bool _, _, hc | .int _, _, hc | .float _, _, hc | .arr _, _, hc
  | .unreadable, _, hc
  | .obj [], _, hc | .obj (_ :: _ :: _), _, hc => by simp [Constant.ofPiece?] at hc

theorem fits_of_tagged : (tag : String) → (content : Piece) → (c : Constant) →
    Constant.ofTagged? tag content = some c → c.Distinct ∧ c.toJson.depth ≤ content.depth + 1
  | tag, .null, c, hc | tag, .bool _, c, hc | tag, .float _, c, hc | tag, .str _, c, hc => by
      rw [Constant.ofTagged?] at hc
      split at hc
      · obtain rfl := Option.some.inj hc
        exact ⟨trivial, Nat.le_add_left _ _⟩
      · cases hc
  | tag, .int n, c, hc => by
      rw [Constant.ofTagged?] at hc
      split at hc
      · obtain rfl := Option.some.inj hc
        exact ⟨trivial, Nat.le_refl _⟩
      · split at hc
        · obtain rfl := Option.some.inj hc
          exact ⟨trivial, Nat.le_refl _⟩
        · cases hc
  | tag, .arr items, c, hc => by
      rw [Constant.ofTagged?] at hc
      split at hc
      · obtain ⟨cs, hcs, rfl⟩ := Option.map_eq_some_iff.1 hc
        have hitems := fits_of_items items cs hcs
        refine ⟨⟨trivial, Constant.allItems_iff.2 fun c hc => (hitems c hc).1⟩,
          Json.depth_tagged_le (Json.depth_arr_le fun j hj => ?_)⟩
        obtain ⟨c, hc, rfl⟩ := mem_itemsToJson hj
        exact (hitems c hc).2
      · cases hc
  | tag, .obj members, c, hc => by
      rw [Constant.ofTagged?] at hc
      split at hc
      · obtain ⟨es, hes, rfl⟩ := Option.map_eq_some_iff.1 hc
        have hentries := fits_of_entries members es hes
        refine ⟨Constant.distinct_ofList fun e he => (hentries e he).1,
          Json.depth_tagged_le (Json.depth_obj_le fun m hm => ?_)⟩
        obtain ⟨e, he, heq⟩ := mem_entriesToJson hm
        rw [heq]
        exact (hentries e ((Assoc.mem_insertAll he).resolve_left (by simp))).2
      · cases hc
  | _, .unreadable, _, hc => by simp [Constant.ofTagged?] at hc

theorem fits_of_items :
    (items : List Piece) → (cs : List Constant) → Constant.itemsOfPiece? items = some cs →
    ∀ c ∈ cs, c.Distinct ∧ c.toJson.depth ≤ Piece.itemsDepth items
  | [], cs, hcs => by
      obtain rfl := Option.some.inj hcs
      exact fun _ hc => absurd hc (by simp)
  | w :: items, cs, hcs => by
      rw [Constant.itemsOfPiece?] at hcs
      obtain ⟨c, hc, hcs⟩ := Option.bind_eq_some_iff.1 hcs
      obtain ⟨rest, hrest, hcs⟩ := Option.bind_eq_some_iff.1 hcs
      obtain rfl := Option.some.inj hcs
      intro c' hc'
      rcases List.mem_cons.1 hc' with rfl | hc'
      · exact (fits_of_constant w c' hc).imp_right
          fun hdepth => Nat.le_trans hdepth (Nat.le_max_left _ _)
      · exact (fits_of_items items rest hrest c' hc').imp_right fun hdepth =>
          Nat.le_trans hdepth (Nat.le_max_right _ _)

theorem fits_of_entries : (members : List (Key × Piece)) → (es : List (String × Constant)) →
    Constant.entriesOfPiece? members = some es →
    ∀ e ∈ es, e.2.Distinct ∧ e.2.toJson.depth ≤ Piece.membersDepth members
  | [], es, hes => by
      obtain rfl := Option.some.inj hes
      exact fun _ he => absurd he (by simp)
  | (key, w) :: members, es, hes => by
      rw [Constant.entriesOfPiece?] at hes
      obtain ⟨c, hc, hes⟩ := Option.bind_eq_some_iff.1 hes
      obtain ⟨rest, hrest, hes⟩ := Option.bind_eq_some_iff.1 hes
      obtain rfl := Option.some.inj hes
      intro e he
      rcases List.mem_cons.1 he with rfl | he
      · exact (fits_of_constant w c hc).imp_right
          fun hdepth => Nat.le_trans hdepth (Nat.le_max_left _ _)
      · exact (fits_of_entries members rest hrest e he).imp_right fun hdepth =>
          Nat.le_trans hdepth (Nat.le_max_right _ _)

end

theorem decodes_constant : Decodes Constant.toJson Constant.ofPiece? Constant.Distinct :=
  fits_of_constant

/-! ### Calls and mappings -/

theorem decodes_endpoint :
    Decodes Endpoint.toJson Endpoint.ofPiece? fun e => e.Sized ∧ ∀ v ∈ e.constants, v.Distinct := by
  intro w e he
  obtain ⟨⟨tag, content⟩, hchoice, he⟩ := Option.bind_eq_some_iff.1 he
  split at he
  · rename_i heq
    obtain ⟨-, rfl⟩ := Prod.mk.inj heq
    obtain ⟨c, hc, rfl⟩ := Option.map_eq_some_iff.1 he
    obtain ⟨hdistinct, hdepth⟩ := decodes_constant.content hchoice hc "Constant"
    exact ⟨⟨trivial, List.forall_mem_singleton.2 hdistinct⟩, hdepth⟩
  · rename_i heq
    obtain ⟨-, rfl⟩ := Prod.mk.inj heq
    obtain ⟨fs, hfs, he⟩ := Option.bind_eq_some_iff.1 he
    obtain ⟨id, hid, he⟩ := Option.bind_eq_some_iff.1 he
    obtain ⟨port, hport, he⟩ := Option.bind_eq_some_iff.1 he
    obtain rfl := Option.some.inj he
    obtain ⟨n, hfs, hobj⟩ := Piece.exists_depth_of_record? hfs
    have hid := decodes_callId.field hfs hid
    have hport := decodes_port.field hfs hport
    have hrecord := hobj [("call", id.toJson), ("port", port.toJson)] (by simp [hid.2, hport.2])
    exact ⟨⟨hid.1, List.forall_mem_nil _⟩,
      Nat.le_trans (Json.depth_tagged_le hrecord) (Piece.depth_of_choice? hchoice)⟩
  · rename_i heq
    obtain ⟨-, rfl⟩ := Prod.mk.inj heq
    obtain ⟨port, hport, rfl⟩ := Option.map_eq_some_iff.1 he
    exact ⟨⟨trivial, List.forall_mem_nil _⟩, (decodes_port.content hchoice hport "Boundary").2⟩
  · rename_i heq
    obtain ⟨-, rfl⟩ := Prod.mk.inj heq
    obtain ⟨name, hname, rfl⟩ := Option.map_eq_some_iff.1 he
    exact ⟨⟨trivial, List.forall_mem_nil _⟩, (decodes_text.content hchoice hname "Variable").2⟩
  · cases he

theorem decodes_successor : Decodes Successor.toJson Successor.ofPiece? Successor.Sized := by
  intro w s hs
  obtain ⟨⟨tag, content⟩, hchoice, hs⟩ := Option.bind_eq_some_iff.1 hs
  split at hs
  · obtain rfl := eq_of_bare hs
    exact ⟨fun _ hid => absurd hid (by simp [Successor.targets]), Nat.zero_le _⟩
  · rename_i heq
    obtain ⟨-, rfl⟩ := Prod.mk.inj heq
    obtain ⟨id, hid, rfl⟩ := Option.map_eq_some_iff.1 hs
    have hid := decodes_callId.content hchoice hid "Next"
    exact ⟨by simpa [Successor.Sized, Successor.targets] using hid.1, hid.2⟩
  · rename_i heq
    obtain ⟨-, rfl⟩ := Prod.mk.inj heq
    obtain ⟨fs, hfs, hs⟩ := Option.bind_eq_some_iff.1 hs
    obtain ⟨iterate, hiterate, hs⟩ := Option.bind_eq_some_iff.1 hs
    obtain ⟨after, hafter, hs⟩ := Option.bind_eq_some_iff.1 hs
    obtain rfl := Option.some.inj hs
    obtain ⟨n, hfs, hobj⟩ := Piece.exists_depth_of_record? hfs
    have hiterate := decodes_callId.field hfs hiterate
    have hafter := decodes_callId.optionalField hfs hafter
    have hrecord := hobj [("iterate", iterate.toJson), ("next", .ofOption CallId.toJson after)]
      (by simp [hiterate.2, hafter.2])
    refine ⟨fun id hid => ?_,
      Nat.le_trans (Json.depth_tagged_le hrecord) (Piece.depth_of_choice? hchoice)⟩
    rcases List.mem_cons.1 hid with rfl | hid
    · exact hiterate.1
    · exact hafter.1 id (Option.mem_toList.1 hid)
  · rename_i heq
    obtain ⟨-, rfl⟩ := Prod.mk.inj heq
    obtain ⟨fs, hfs, hs⟩ := Option.bind_eq_some_iff.1 hs
    obtain ⟨ifTrue, htrue, hs⟩ := Option.bind_eq_some_iff.1 hs
    obtain ⟨ifFalse, hfalse, hs⟩ := Option.bind_eq_some_iff.1 hs
    obtain rfl := Option.some.inj hs
    obtain ⟨n, hfs, hobj⟩ := Piece.exists_depth_of_record? hfs
    have htrue := decodes_callId.optionalField hfs htrue
    have hfalse := decodes_callId.optionalField hfs hfalse
    have hrecord := hobj [("if_true", .ofOption CallId.toJson ifTrue),
      ("if_false", .ofOption CallId.toJson ifFalse)]
      (by simp [htrue.2, hfalse.2])
    refine ⟨fun id hid => ?_,
      Nat.le_trans (Json.depth_tagged_le hrecord) (Piece.depth_of_choice? hchoice)⟩
    rcases List.mem_append.1 hid with hid | hid
    · exact htrue.1 id (Option.mem_toList.1 hid)
    · exact hfalse.1 id (Option.mem_toList.1 hid)
  · cases hs

theorem decodes_mapping :
    Decodes Mapping.toJson Mapping.ofPiece? fun m => m.Sized ∧ ∀ v ∈ m.constants, v.Distinct := by
  intro w m hm
  obtain ⟨fs, hfs, hm⟩ := Option.bind_eq_some_iff.1 hm
  obtain ⟨source, hsource, hm⟩ := Option.bind_eq_some_iff.1 hm
  obtain ⟨sourceStrategy, hsourceStrategy, hm⟩ := Option.bind_eq_some_iff.1 hm
  obtain ⟨target, htarget, hm⟩ := Option.bind_eq_some_iff.1 hm
  obtain ⟨targetStrategy, htargetStrategy, hm⟩ := Option.bind_eq_some_iff.1 hm
  obtain ⟨priority, hpriority, hm⟩ := Option.bind_eq_some_iff.1 hm
  obtain rfl := Option.some.inj hm
  obtain ⟨n, hfs, hobj⟩ := Piece.exists_depth_of_record? hfs
  have hsource := decodes_endpoint.field hfs hsource
  have hsourceStrategy := decodes_strategy.optionalField hfs hsourceStrategy
  have htarget := decodes_endpoint.field hfs htarget
  have htargetStrategy := decodes_strategy.optionalField hfs htargetStrategy
  have hpriority := decodes_callId.optionalField hfs hpriority
  refine ⟨⟨⟨hsource.1.1, hsourceStrategy.1, htarget.1.1, htargetStrategy.1, hpriority.1⟩,
    List.forall_mem_append.2 ⟨hsource.1.2, htarget.1.2⟩⟩, hobj _ ?_⟩
  simp [hsource.2, hsourceStrategy.2, htarget.2, htargetStrategy.2, hpriority.2]

theorem decodes_callDecl : Decodes CallDecl.toJson CallDecl.ofPiece? CallDecl.Sized := by
  intro w d hd
  obtain ⟨fs, hfs, hd⟩ := Option.bind_eq_some_iff.1 hd
  obtain ⟨id, hid, hd⟩ := Option.bind_eq_some_iff.1 hd
  obtain ⟨function, hfunction, hd⟩ := Option.bind_eq_some_iff.1 hd
  obtain ⟨successor, hsuccessor, hd⟩ := Option.bind_eq_some_iff.1 hd
  obtain ⟨label, hlabel, hd⟩ := Option.bind_eq_some_iff.1 hd
  obtain rfl := Option.some.inj hd
  obtain ⟨n, hfs, hobj⟩ := Piece.exists_depth_of_record? hfs
  have hid := decodes_callId.field hfs hid
  have hfunction := decodes_functionId.field hfs hfunction
  have hsuccessor := decodes_successor.field hfs hsuccessor
  have hlabel := decodes_text.optionalField hfs hlabel
  exact ⟨⟨hid.1, hfunction.1, hsuccessor.1⟩,
    hobj _ (by simp [hid.2, hfunction.2, hsuccessor.2, hlabel.2])⟩

theorem decodes_composition :
    Decodes Composition.toJson
      Composition.ofPiece? fun c => c.Sized ∧ ∀ v ∈ c.constants, v.Distinct := by
  intro w c hc
  obtain ⟨fs, hfs, hc⟩ := Option.bind_eq_some_iff.1 hc
  obtain ⟨id, hid, hc⟩ := Option.bind_eq_some_iff.1 hc
  obtain ⟨name, hname, hc⟩ := Option.bind_eq_some_iff.1 hc
  obtain ⟨represents, hrepresents, hc⟩ := Option.bind_eq_some_iff.1 hc
  obtain ⟨starts, hstarts, hc⟩ := Option.bind_eq_some_iff.1 hc
  obtain ⟨calls, hcalls, hc⟩ := Option.bind_eq_some_iff.1 hc
  obtain ⟨mappings, hmappings, hc⟩ := Option.bind_eq_some_iff.1 hc
  obtain rfl := Option.some.inj hc
  obtain ⟨n, hfs, hobj⟩ := Piece.exists_depth_of_record? hfs
  have hid := decodes_compositionId.field hfs hid
  have hname := decodes_text.field hfs hname
  have hrepresents := decodes_functionId.optionalField hfs hrepresents
  have hstarts := decodes_callId.list.field hfs hstarts
  have hcalls := decodes_callDecl.list.field hfs hcalls
  have hmappings := decodes_mapping.list.field hfs hmappings
  refine ⟨⟨⟨hid.1, hrepresents.1, hstarts.1, hcalls.1, fun m hm => (hmappings.1 m hm).1⟩,
    fun v hv => ?_⟩, hobj _ ?_⟩
  · obtain ⟨m, hm, hv⟩ := List.mem_flatMap.1 hv
    exact (hmappings.1 m hm).2 v hv
  simp [hid.2, hname.2, hrepresents.2, hstarts.2, hcalls.2, hmappings.2]

/-! ### Functions -/

theorem decodes_param :
    Decodes Param.toJson Param.ofPiece? fun p => ∀ v ∈ p.default, v.Distinct := by
  intro w p hp
  obtain ⟨fs, hfs, hp⟩ := Option.bind_eq_some_iff.1 hp
  obtain ⟨name, hname, hp⟩ := Option.bind_eq_some_iff.1 hp
  obtain ⟨valueType, hvalueType, hp⟩ := Option.bind_eq_some_iff.1 hp
  obtain ⟨kind, hkind, hp⟩ := Option.bind_eq_some_iff.1 hp
  obtain ⟨default, hdefault, hp⟩ := Option.bind_eq_some_iff.1 hp
  obtain rfl := Option.some.inj hp
  obtain ⟨n, hfs, hobj⟩ := Piece.exists_depth_of_record? hfs
  have hname := decodes_text.field hfs hname
  have hvalueType := decodes_valueType.field hfs hvalueType
  have hkind := decodes_paramKind.field hfs hkind
  have hdefault := decodes_constant.optionalField hfs hdefault
  exact ⟨hdefault.1, hobj _ (by simp [hname.2, hvalueType.2, hkind.2, hdefault.2])⟩

theorem decodes_output : Decodes Output.toJson Output.ofPiece? fun _ => True := by
  intro w o ho
  obtain ⟨fs, hfs, ho⟩ := Option.bind_eq_some_iff.1 ho
  obtain ⟨name, hname, ho⟩ := Option.bind_eq_some_iff.1 ho
  obtain ⟨valueType, hvalueType, ho⟩ := Option.bind_eq_some_iff.1 ho
  obtain rfl := Option.some.inj ho
  obtain ⟨n, hfs, hobj⟩ := Piece.exists_depth_of_record? hfs
  have hname := decodes_text.field hfs hname
  have hvalueType := decodes_valueType.field hfs hvalueType
  exact ⟨trivial, hobj _ (by simp [hname.2, hvalueType.2])⟩

theorem decodes_implementation :
    Decodes implementationToJson implementationOfPiece? fun _ => True := by
  intro w path hpath
  obtain ⟨fs, hfs, hpath⟩ := Option.bind_eq_some_iff.1 hpath
  obtain ⟨n, hfs, hobj⟩ := Piece.exists_depth_of_record? hfs
  have hpath := decodes_text.field hfs hpath
  exact ⟨trivial, hobj _ (by simp [hpath.2])⟩

theorem decodes_description :
    Decodes Description.toJson
      Description.ofPiece? fun d => d.Sized ∧ ∀ v ∈ d.constants, v.Distinct := by
  intro w d hd
  obtain ⟨fs, hfs, hd⟩ := Option.bind_eq_some_iff.1 hd
  obtain ⟨id, hid, hd⟩ := Option.bind_eq_some_iff.1 hd
  obtain ⟨name, hname, hd⟩ := Option.bind_eq_some_iff.1 hd
  obtain ⟨params, hparams, hd⟩ := Option.bind_eq_some_iff.1 hd
  obtain ⟨receiver, hreceiver, hd⟩ := Option.bind_eq_some_iff.1 hd
  obtain ⟨output, houtput, hd⟩ := Option.bind_eq_some_iff.1 hd
  obtain ⟨selfOutput, hselfOutput, hd⟩ := Option.bind_eq_some_iff.1 hd
  obtain ⟨body, hbody, hd⟩ := Option.bind_eq_some_iff.1 hd
  obtain ⟨implementation, himplementation, hd⟩ := Option.bind_eq_some_iff.1 hd
  obtain rfl := Option.some.inj hd
  obtain ⟨n, hfs, hobj⟩ := Piece.exists_depth_of_record? hfs
  have hid := decodes_functionId.field hfs hid
  have hname := decodes_text.field hfs hname
  have hparams := decodes_param.list.field hfs hparams
  have hreceiver := decodes_param.optionalField hfs hreceiver
  have houtput := decodes_output.field hfs houtput
  have hselfOutput := decodes_output.optionalField hfs hselfOutput
  have hbody := decodes_compositionId.optionalField hfs hbody
  have himplementation := decodes_implementation.optionalField hfs himplementation
  refine ⟨⟨⟨hid.1, hbody.1⟩, List.forall_mem_append.2 ⟨fun v hv => ?_, fun v hv => ?_⟩⟩, hobj _ ?_⟩
  · obtain ⟨p, hp, hv⟩ := List.mem_filterMap.1 hv
    exact hparams.1 p hp v hv
  · obtain ⟨p, hp, hv⟩ := Option.bind_eq_some_iff.1 (Option.mem_toList.1 hv)
    exact hreceiver.1 p hp v hv
  simp [hid.2, hname.2, hparams.2, hreceiver.2, houtput.2, hselfOutput.2, hbody.2,
    himplementation.2]

/-! ### Graphs -/

theorem number?_lt {key : Key} {n : Nat} (h : key.number? = some n) : n < UInt32.size := by
  rw [Key.number?] at h
  split at h
  · cases h
  · dsimp only at h
    split at h
    · rename_i hn
      obtain rfl := Option.some.inj h
      simp only [Bool.and_eq_true, decide_eq_true_eq] at hn
      exact hn.2
    · cases h

theorem Decodes.numbered (h : Decodes toJson read Fits) {w : Piece} {es : List (Nat × α)}
    (hes : Piece.numbered? read w = some es) :
    ∀ e ∈ es, e.1 < UInt32.size ∧ Fits e.2 ∧ (toJson e.2).depth + 1 ≤ w.depth := by
  match w with
  | .obj members =>
      intro e he
      obtain ⟨m, hm, he⟩ := exists_of_mem_mapM hes e he
      obtain ⟨n, hn, he⟩ := Option.bind_eq_some_iff.1 he
      obtain ⟨a, ha, he⟩ := Option.bind_eq_some_iff.1 he
      obtain rfl := Option.some.inj he
      obtain ⟨hfits, hdepth⟩ := h m.2 a ha
      exact ⟨number?_lt hn, hfits,
        Nat.succ_le_succ (Nat.le_trans hdepth (Piece.depth_le_membersDepth hm))⟩
  | .null | .bool _ | .int _ | .float _ | .str _ | .arr _ | .unreadable => cases hes

/-- Definitions that are read under numbers as keys come into order. -/
theorem Decodes.sorted {κ : Type} [DecidableEq κ] (h : Decodes toJson read Fits) (make : Nat → κ)
    (rank : κ → Nat)
    (hmake : ∀ k, make (rank k) = k) (hrank : ∀ n, rank (make n) = n) {before : κ → κ → Bool}
    (hbefore : ∀ k k', before k k' = decide (rank k < rank k')) (hfs : ∀ m ∈ fs, m.2.depth ≤ n)
    {es : List (Nat × α)} (hes : Piece.field? fs name (Piece.numbered? read) = some es)
    {m : Assoc κ α}
    (hm : m = Assoc.sortedOfList before (es.map fun entry => (make entry.1, entry.2))) :
    ((Assoc.keys m).Pairwise fun k k' => rank k < rank k') ∧
    (∀ k ∈ Assoc.keys m, rank k < UInt32.size) ∧
      (∀ a ∈ Assoc.values m, Fits a) ∧
      (Json.ofNumbered toJson (m.map fun entry => (rank entry.1, entry.2))).depth ≤ n := by
  subst hm
  obtain ⟨w, hfind, hread⟩ := Option.bind_eq_some_iff.1 hes
  have hw : w.depth ≤ n := hfs _ (Assoc.mem_of_find?_eq_some hfind)
  have hentries : ∀ entry ∈ Assoc.sortedOfList before (es.map fun entry => (make entry.1, entry.2)),
      rank entry.1 < UInt32.size ∧ Fits entry.2 ∧ (toJson entry.2).depth + 1 ≤ n := by
    intro entry hentry
    obtain ⟨e, he, rfl⟩ := List.mem_map.1 (Assoc.mem_of_mem_sortedOfList hentry)
    obtain ⟨hkey, hfits, hdepth⟩ := h.numbered hread e he
    exact ⟨by rwa [hrank], hfits, Nat.le_trans hdepth hw⟩
  refine ⟨Assoc.pairwise_rank_sortedOfList before
    (fun k k' heq => by rw [← hmake k, ← hmake k', heq]) hbefore _,
    fun k hk => ?_, fun a ha => ?_, ?_⟩
  · obtain ⟨entry, hentry, rfl⟩ := List.mem_map.1 hk
    exact (hentries entry hentry).1
  · obtain ⟨entry, hentry, rfl⟩ := List.mem_map.1 ha
    exact (hentries entry hentry).2.1
  · obtain ⟨n, rfl⟩ : ∃ n', n = n' + 1 := by
      refine Nat.exists_eq_add_one.2 (Nat.lt_of_lt_of_le ?_ hw)
      match w with
      | .obj _ => exact Nat.succ_pos _
      | .null | .bool _ | .int _ | .float _ | .str _ | .arr _ | .unreadable => cases hread
    refine Json.depth_obj_le fun m hm => ?_
    obtain ⟨_, hmem, rfl⟩ := List.mem_map.1 hm
    obtain ⟨entry, hentry, rfl⟩ := List.mem_map.1 hmem
    exact Nat.le_of_succ_le_succ (hentries entry hentry).2.2

/-- **A graph that is read fits**, and nests no deeper than the text. -/
theorem decodes_graph : Decodes Graph.toJson Graph.ofPiece? Graph.Sized := by
  intro w g hg
  obtain ⟨fs, hfs, hg⟩ := Option.bind_eq_some_iff.1 hg
  obtain ⟨name, hname, hg⟩ := Option.bind_eq_some_iff.1 hg
  obtain ⟨functions, hfunctions, hg⟩ := Option.bind_eq_some_iff.1 hg
  obtain ⟨compositions, hcompositions, hg⟩ := Option.bind_eq_some_iff.1 hg
  obtain ⟨nextFunction, hnextFunction, hg⟩ := Option.bind_eq_some_iff.1 hg
  obtain ⟨nextComposition, hnextComposition, hg⟩ := Option.bind_eq_some_iff.1 hg
  obtain ⟨nextCall, hnextCall, hg⟩ := Option.bind_eq_some_iff.1 hg
  obtain rfl := Option.some.inj hg
  obtain ⟨n, hfs, hobj⟩ := Piece.exists_depth_of_record? hfs
  have hname := decodes_text.field hfs hname
  obtain ⟨hfunctionOrder, hfunctionKeys, hfunctionsFit, hfunctionsDepth⟩ :=
    decodes_description.sorted
    FunctionId.mk FunctionId.val (fun _ => rfl) (fun _ => rfl) (fun _ _ => rfl) hfs hfunctions rfl
  obtain ⟨hcompositionOrder, hcompositionKeys, hcompositionsFit, hcompositionsDepth⟩ :=
    decodes_composition.sorted
    CompositionId.mk CompositionId.val (fun _ => rfl) (fun _ => rfl) (fun _ _ => rfl) hfs
      hcompositions rfl
  have hnextFunction := (decodes_natBelow UInt32.size).field hfs hnextFunction
  have hnextComposition := (decodes_natBelow UInt32.size).field hfs hnextComposition
  have hnextCall := (decodes_natBelow UInt32.size).field hfs hnextCall
  refine ⟨⟨hfunctionOrder, hcompositionOrder, hfunctionKeys, hcompositionKeys,
    fun d hd => (hfunctionsFit d hd).1,
    fun c hc => (hcompositionsFit c hc).1, hnextFunction.1, hnextComposition.1, hnextCall.1⟩,
    hobj _ fun m hm => ?_⟩
  simp only [List.mem_cons, List.not_mem_nil, or_false] at hm
  rcases hm with rfl | rfl | rfl | rfl | rfl | rfl
  exacts [hname.2, hfunctionsDepth, hcompositionsDepth, hnextFunction.2,
    hnextComposition.2, hnextCall.2]

end Decodes

/-! ## Texts -/

namespace Json

theorem depth_piece (t : StringToken) : t.piece.depth = 0 := by
  rw [StringToken.piece]
  split <;> rfl

theorem depth_ofNumeral (n : Decimal.Numeral) (isWhole : Bool) :
    (ofNumeral n isWhole).depth = 0 := by
  simp only [ofNumeral]
  split
  · rfl
  · split
    · rfl
    · split <;> rfl

theorem depth_number? {negative : Bool} {cs rest : List Char} {w : Piece}
    (h : number? negative cs = some (w, rest)) :
    w.depth = 0 := by
  simp only [number?] at h
  split at h
  · cases h
  · split at h
    all_goals
      dsimp only at h
      split at h
      · cases h
      · obtain ⟨⟨e, after⟩, -, h⟩ := Option.bind_eq_some_iff.1 h
        obtain ⟨rfl, -⟩ := Prod.mk.inj (Option.some.inj h)
        exact depth_ofNumeral _ _

/-- A container keeps to the depth that is left if what is in it keeps to one level less. -/
theorem depth_nested_le {w : Piece} {depth : Nat} (h : w.depth ≤ depth - 1 + 1) :
    (nested depth w).depth ≤ depth := by
  rw [nested]
  split
  · exact Nat.zero_le _
  · omega

theorem depth_arr_le_of_items {ws : List Piece} {n : Nat} (h : ∀ w ∈ ws, w.depth ≤ n) :
    (Piece.arr ws).depth ≤ n + 1 := by
  have hitems : Piece.itemsDepth ws ≤ n := by
    induction ws with
    | nil => exact Nat.zero_le n
    | cons w ws ih =>
        exact Nat.max_le.2 ⟨h w (List.mem_cons_self ..),
          ih fun w hw => h w (List.mem_cons_of_mem _ hw)⟩
  exact Nat.succ_le_succ hitems

theorem depth_ofMembers_le {ms : List (Option Key × Piece)} {n : Nat}
    (h : ∀ m ∈ ms, m.2.depth ≤ n) :
    (ofMembers ms).depth ≤ n + 1 := by
  rw [ofMembers]
  split
  · rename_i members hmembers
    have hdepth : Piece.membersDepth members ≤ n := by
      have hmem : ∀ m ∈ members, m.2.depth ≤ n := by
        intro m hm
        obtain ⟨m', hm', heq⟩ := exists_of_mem_mapM hmembers m hm
        obtain ⟨key, -, rfl⟩ := Option.map_eq_some_iff.1 heq
        exact h m' hm'
      clear hmembers
      induction members with
      | nil => exact Nat.zero_le n
      | cons m members ih =>
          exact Nat.max_le.2 ⟨hmem m (List.mem_cons_self ..),
            ih fun m hm => hmem m (List.mem_cons_of_mem _ hm)⟩
    exact Nat.succ_le_succ hdepth
  · exact Nat.zero_le _

/-- What `value?`, `items?` and `members?` read with the fuel nests no deeper than it may. -/
structure ReadsWithin (fuel : Nat) : Prop where
  value : ∀ {depth cs w rest}, value? fuel depth cs = some (w, rest) → w.depth ≤ depth
  items : ∀ {depth cs ws rest}, items? fuel depth cs = some (ws, rest) → ∀ w ∈ ws, w.depth ≤ depth
  members :
      ∀ {depth cs ms rest}, members? fuel depth cs = some (ms, rest) → ∀ m ∈ ms, m.2.depth ≤ depth

theorem ReadsWithin.value_succ {fuel : Nat} (h : ReadsWithin fuel) {depth : Nat}
    {cs rest : List Char} {w : Piece}
    (hread : value? (fuel + 1) depth cs = some (w, rest)) : w.depth ≤ depth := by
  have hmap : ∀ {α : Type} {a? : Option α} {f : α → Piece × List Char}, a?.map f = some (w, rest) →
      (∀ a, a? = some a → (f a).1.depth ≤ depth) → w.depth ≤ depth := by
    intro α a? f heq hdepth
    obtain ⟨a, ha, heq⟩ := Option.map_eq_some_iff.1 heq
    have := hdepth a ha
    rwa [heq] at this
  rw [value?] at hread
  split at hread
  · cases hread
  · rename_i c cs' hskip
    split at hread
    · refine hmap hread fun read _ => ?_
      obtain ⟨t, _⟩ := read
      exact Nat.le_trans (Nat.le_of_eq (depth_piece t)) (Nat.zero_le _)
    · split at hread
      · split at hread
        · obtain ⟨rfl, -⟩ := Prod.mk.inj (Option.some.inj hread)
          exact depth_nested_le (depth_arr_le_of_items fun _ hw => absurd hw (by simp))
        · refine hmap hread fun read hws => ?_
          obtain ⟨ws, _⟩ := read
          exact depth_nested_le (depth_arr_le_of_items (h.items hws))
      · split at hread
        · split at hread
          · obtain ⟨rfl, -⟩ := Prod.mk.inj (Option.some.inj hread)
            exact depth_nested_le (Nat.succ_le_succ (Nat.zero_le _))
          · refine hmap hread fun read hms => ?_
            obtain ⟨ms, _⟩ := read
            exact depth_nested_le (depth_ofMembers_le (h.members hms))
        · split at hread
          · exact hmap hread fun _ _ => Nat.zero_le _
          · split at hread
            · exact hmap hread fun _ _ => Nat.zero_le _
            · split at hread
              · exact hmap hread fun _ _ => Nat.zero_le _
              · split at hread <;>
                  exact Nat.le_trans (Nat.le_of_eq (depth_number? hread)) (Nat.zero_le _)

theorem ReadsWithin.items_succ {fuel : Nat} (h : ReadsWithin fuel) {depth : Nat}
    {cs rest : List Char}
    {ws : List Piece} (hread : items? (fuel + 1) depth cs = some (ws, rest)) :
    ∀ w ∈ ws, w.depth ≤ depth := by
  rw [items?] at hread
  split at hread
  · cases hread
  · rename_i w after hw
    have hw := h.value hw
    split at hread
    · obtain ⟨⟨ws, after⟩, hws, heq⟩ := Option.map_eq_some_iff.1 hread
      obtain ⟨rfl, -⟩ := Prod.mk.inj heq
      exact List.forall_mem_cons.2 ⟨hw, h.items hws⟩
    · obtain ⟨rfl, -⟩ := Prod.mk.inj (Option.some.inj hread)
      exact List.forall_mem_singleton.2 hw
    · cases hread

theorem ReadsWithin.members_succ {fuel : Nat} (h : ReadsWithin fuel) {depth : Nat}
    {cs rest : List Char}
    {ms : List (Option Key × Piece)} (hread : members? (fuel + 1) depth cs = some (ms, rest)) :
    ∀ m ∈ ms, m.2.depth ≤ depth := by
  rw [members?] at hread
  split at hread
  · split at hread
    · cases hread
    · split at hread
      · split at hread
        · cases hread
        · rename_i w after hw
          have hw := h.value hw
          split at hread
          · obtain ⟨⟨ms, after⟩, hms, heq⟩ := Option.map_eq_some_iff.1 hread
            obtain ⟨rfl, -⟩ := Prod.mk.inj heq
            exact List.forall_mem_cons.2 ⟨hw, h.members hms⟩
          · obtain ⟨rfl, -⟩ := Prod.mk.inj (Option.some.inj hread)
            exact List.forall_mem_singleton.2 hw
          · cases hread
      · cases hread
  · cases hread

theorem readsWithin (fuel : Nat) : ReadsWithin fuel := by
  induction fuel with
  | zero =>
      constructor
      · intro depth cs w rest h
        cases h
      · intro depth cs ws rest h
        cases h
      · intro depth cs ms rest h
        cases h
  | succ fuel ih => exact ⟨ih.value_succ, ih.items_succ, ih.members_succ⟩

/-- **What is read from a text nests no deeper than texts may.** -/
theorem depth_le_of_parse? {text : String} {w : Piece} (h : Piece.parse? text = some w) :
    w.depth ≤ nestingLimit := by
  rw [Piece.parse?, Piece.parseWithin?] at h
  split at h
  · rename_i w' rest hread
    split at h
    · obtain rfl := Option.some.inj h
      exact (readsWithin _).value hread
    · cases h
  · cases h

end Json

/-- A graph in a text fits, and its JSON form can stand in a text again. -/
theorem Graph.sized_of_ofText? {text : String} {g : Graph} (h : Graph.ofText? text = some g) :
    g.Sized ∧ g.toJson.depth ≤ Json.nestingLimit := by
  obtain ⟨w, hw, hg⟩ := Option.bind_eq_some_iff.1 h
  obtain ⟨hsized, hdepth⟩ := decodes_graph w g hg
  exact ⟨hsized, Nat.le_trans hdepth (Json.depth_le_of_parse? hw)⟩

theorem Json.depth_le_of_mem_obj {members : Assoc String Json} {m : String × Json}
    (h : m ∈ members) :
    m.2.depth + 1 ≤ (Json.obj members).depth := by
  refine Nat.succ_le_succ ?_
  induction members with
  | nil => cases h
  | cons m' members ih =>
      rcases List.mem_cons.1 h with rfl | h
      · exact Nat.le_max_left _ _
      · exact Nat.le_trans (ih h) (Nat.le_max_right _ _)

namespace Graph

variable {g : Graph}

/-- Definitions under numbers as keys nest less deep than all of them together. -/
theorem depth_le_of_mem_numbered {κ α : Type} (toJson : α → Json) (rank : κ → Nat)
    {m : Assoc κ α} {a : α}
    (h : a ∈ Assoc.values m) :
    (toJson a).depth + 1 ≤
      (Json.ofNumbered toJson (m.map fun entry => (rank entry.1, entry.2))).depth := by
  obtain ⟨entry, hentry, rfl⟩ := List.mem_map.1 h
  refine Json.depth_le_of_mem_obj (m := (toString (rank entry.1), toJson entry.2)) ?_
  exact List.mem_map_of_mem (List.mem_map_of_mem (f := fun entry => (rank entry.1, entry.2)) hentry)

theorem depth_le_of_mem_functions {d : Description} (h : d ∈ Assoc.values g.functions) :
    d.toJson.depth ≤ g.toJson.depth := by
  have hmember := depth_le_of_mem_numbered Description.toJson FunctionId.val h
  have hfield :
      (Json.ofNumbered Description.toJson
        (g.functions.map fun entry => (entry.1.val, entry.2))).depth + 1
      ≤ g.toJson.depth :=
    Json.depth_le_of_mem_obj (m := ("functions", _))
      (List.mem_cons_of_mem _ (List.mem_cons_self ..))
  exact Nat.le_trans (Nat.le_of_succ_le hmember) (Nat.le_of_succ_le hfield)

theorem depth_le_of_mem_compositions {c : Composition} (h : c ∈ Assoc.values g.compositions) :
    c.toJson.depth ≤ g.toJson.depth := by
  have hmember := depth_le_of_mem_numbered Composition.toJson CompositionId.val h
  have hfield :
      (Json.ofNumbered Composition.toJson
        (g.compositions.map fun entry => (entry.1.val, entry.2))).depth + 1
      ≤ g.toJson.depth :=
    Json.depth_le_of_mem_obj (m := ("compositions", _))
      (List.mem_cons_of_mem _ (List.mem_cons_of_mem _ (List.mem_cons_self ..)))
  exact Nat.le_trans (Nat.le_of_succ_le hmember) (Nat.le_of_succ_le hfield)

end Graph

end CallFlow
