import CallFlow.Codec.Graph
import CallFlow.Proofs.Assoc
import CallFlow.Proofs.JsonText
import CallFlow.Proofs.Literals

/-!
# Definitions that are read from their JSON form
-/

namespace CallFlow

open CallFlow.Json (Piece Key tagged)

/-! ## Ways from values to pieces -/

/-- A way from JSON values to pieces, such as printing and reading, which may bring the members of
an object into another order.  `F` is what becomes of constants on it. -/
structure Json.Channel (r : Json → Piece) (F : Constant → Option Constant) : Prop where
  null : r .null = .null
  int : ∀ n : Int, Int64.minValue.toInt ≤ n → n < UInt64.size → r (.int n) = .int n
  str : ∀ s, r (.str s) = .str s
  arr : ∀ items, r (.arr items) = .arr (items.map r)
  obj : ∀ members : Assoc String Json, (Assoc.keys members).Nodup →
    ∃ ms, r (.obj members) = .obj ms ∧ (Piece.byText ms).Perm (Assoc.mapValues r members) ∧
      ∀ m ∈ ms, m.1.text.toList.all Json.isPlain = true → m.1.plain = true
  constant : ∀ c : Constant, Constant.ofPiece? (r c.toJson) = F c

namespace Json.Channel

variable {r : Json → Piece} {F : Constant → Option Constant}

theorem occurrences_le_one {members : List (String × Piece)} (h : (Assoc.keys members).Nodup)
    (name : String) :
    Piece.occurrences members name ≤ 1 := by
  have hcount : Piece.occurrences members name = (Assoc.keys members).count name := by
    rw [Piece.occurrences, Assoc.keys, List.count, List.countP_map, List.countP_eq_length_filter]
    rfl
  rw [hcount]
  exact List.nodup_iff_count_le_one.1 h name

/-- The fields of a record are found as they were written. -/
theorem record (h : Channel r F) {members : Assoc String Json} (hkeys : (Assoc.keys members).Nodup)
    (names : List String) :
    ∃ fs, (r (.obj members)).record? names = some fs ∧
      ∀ name, Assoc.find? fs name = (Assoc.find? members name).map r := by
  obtain ⟨ms, hms, hperm, -⟩ := h.obj members hkeys
  have hnodup : (Assoc.keys (Piece.byText ms)).Nodup := by
    have hsame : (Assoc.keys (Piece.byText ms)).Perm (Assoc.keys members) := by
      rw [← Assoc.keys_mapValues r members]
      exact hperm.map _
    exact hsame.nodup_iff.2 hkeys
  refine ⟨Piece.byText ms, ?_, fun name => ?_⟩
  · rw [hms, Piece.record?]
    exact if_pos (List.all_eq_true.2 fun f _ => by simpa using occurrences_le_one hnodup f)
  · rw [Assoc.find?_of_perm hperm hnodup, Assoc.find?_mapValues]

theorem record_bind (h : Channel r F) {members : Assoc String Json}
    (hkeys : (Assoc.keys members).Nodup)
    {names : List String} {β : Type} {next : List (String × Piece) → Option β} {result : Option β}
    (hnext : ∀ fs, (∀ name, Assoc.find? fs name = (Assoc.find? members name).map r) →
      next fs = result) :
    ((r (.obj members)).record? names >>= next) = result := by
  obtain ⟨fs, hfs, hfind⟩ := h.record hkeys names
  rw [hfs]
  exact hnext fs hfind

theorem choice?_tagged (h : Channel r F) (tag : String) (j : Json) :
    (r (tagged tag j)).choice? = some (tag, some (r j)) := by
  obtain ⟨ms, hms, hperm, -⟩ := h.obj [(tag, j)] (by simp [Assoc.keys])
  have hsingle : Piece.byText ms = [(tag, r j)] := List.perm_singleton.1 hperm
  obtain ⟨⟨key, w⟩, hsingle, heq⟩ := List.map_eq_singleton_iff.1 hsingle
  obtain ⟨rfl, rfl⟩ := Prod.mk.inj heq
  rw [tagged, hms, hsingle]
  rfl

theorem choice?_str (h : Channel r F) (s : String) : (r (.str s)).choice? = some (s, none) := by
  rw [h.str]
  rfl

end Json.Channel

/-- A way from JSON values to pieces that keeps everything as it is, whatever becomes of floats. -/
structure Json.Keeps (r : Json → Piece) : Prop where
  null : r .null = .null
  bool : ∀ b, r (.bool b) = .bool b
  int : ∀ n : Int, Int64.minValue.toInt ≤ n → n < UInt64.size → r (.int n) = .int n
  str : ∀ s, r (.str s) = .str s
  arr : ∀ items, r (.arr items) = .arr (items.map r)
  obj : ∀ members : Assoc String Json,
    r (.obj members) = .obj (members.map fun m => (⟨m.1, m.1.toList.all Json.isPlain⟩, r m.2))

namespace Json.Keeps

variable {r : Json → Piece}

theorem channel (h : Keeps r) : Channel r fun c => Constant.ofPiece? (r c.toJson) where
  null := h.null
  int := h.int
  str := h.str
  arr := h.arr
  obj members _ := by
    refine ⟨_, h.obj members, .of_eq ?_, fun m hm hplain => ?_⟩
    · rw [Piece.byText, List.map_map, Assoc.mapValues_eq_map]
      rfl
    · obtain ⟨m, -, rfl⟩ := List.mem_map.1 hm
      exact hplain
  constant _ := rfl

theorem tagged (h : Keeps r) (tag : String) (j : Json) :
    r (tagged tag j) = .obj [(⟨tag, tag.toList.all isPlain⟩, r j)] := h.obj [(tag, j)]

theorem int64 (h : Keeps r) (n : Int64) : r (.int n.toInt) = .int n.toInt :=
  h.int _ n.minValue_le_toInt (Int.lt_of_le_of_lt n.toInt_le (by decide))

end Json.Keeps

/-! ### Printing and reading -/

/-- The constant that is read from the text of one. -/
def Constant.reread? (c : Constant) : Option Constant :=
  Constant.ofPiece? (Piece.ofPrinted c.toJson)

/-- The constant that is read from the text of one with the members of objects in order of their
keys. -/
def Constant.resorted? (c : Constant) : Option Constant :=
  Constant.ofPiece? (Piece.ofPrinted c.toJson.sorted)

namespace Json.Channel

theorem itemsOfPrinted_eq (items : List Json) :
    Piece.itemsOfPrinted items = items.map Piece.ofPrinted := by
  induction items with
  | nil => rfl
  | cons j items ih => exact congrArg (Piece.ofPrinted j :: ·) ih

theorem membersOfPrinted_eq (members : Assoc String Json) :
    Piece.membersOfPrinted members =
      members.map fun m => (⟨m.1, m.1.toList.all Json.isPlain⟩, Piece.ofPrinted m.2) := by
  induction members with
  | nil => rfl
  | cons m members ih => exact congrArg (_ :: ·) ih

theorem byText_membersOfPrinted (members : Assoc String Json) :
    Piece.byText (Piece.membersOfPrinted members) = Assoc.mapValues Piece.ofPrinted members := by
  rw [membersOfPrinted_eq, Piece.byText, List.map_map, Assoc.mapValues_eq_map]
  rfl

theorem plain_of_mem_membersOfPrinted {members : Assoc String Json} :
    ∀ m ∈ Piece.membersOfPrinted members,
      m.1.text.toList.all Json.isPlain = true → m.1.plain = true := by
  intro m hm hplain
  rw [membersOfPrinted_eq] at hm
  obtain ⟨m, -, rfl⟩ := List.mem_map.1 hm
  exact hplain

theorem sortedItems_eq (items : List Json) : Json.sortedItems items = items.map Json.sorted := by
  induction items with
  | nil => rfl
  | cons j items ih => exact congrArg (j.sorted :: ·) ih

theorem sortedMembers_eq (members : Assoc String Json) :
    Json.sortedMembers members = Assoc.mapValues Json.sorted members := by
  induction members with
  | nil => rfl
  | cons m members ih => exact congrArg ((m.1, m.2.sorted) :: ·) ih

theorem keeps_ofPrinted : Keeps Piece.ofPrinted where
  null := rfl
  bool _ := rfl
  int _ hmin hmax := Json.readInt_eq hmin hmax
  str _ := rfl
  arr items := by rw [Piece.ofPrinted, itemsOfPrinted_eq]
  obj members := by rw [Piece.ofPrinted, membersOfPrinted_eq]

/-- Reading what was printed. -/
theorem printed : Channel Piece.ofPrinted Constant.reread? := keeps_ofPrinted.channel

/-- Reading what was printed with the members of objects in order. -/
theorem printedSorted : Channel (fun j => Piece.ofPrinted j.sorted) Constant.resorted? where
  null := rfl
  int _ hmin hmax := Json.readInt_eq hmin hmax
  str _ := rfl
  arr items := by
    show Piece.ofPrinted (Json.arr items).sorted = _
    rw [Json.sorted, Piece.ofPrinted, itemsOfPrinted_eq, sortedItems_eq, List.map_map]
    rfl
  obj members hkeys := by
    have hperm : (Assoc.sortedOfList textBefore (Json.sortedMembers members)).Perm
        (Assoc.mapValues Json.sorted members) := by
      rw [sortedMembers_eq]
      exact Assoc.perm_sortedOfList (by rwa [← Assoc.keys_mapValues Json.sorted members] at hkeys)
    refine ⟨_, rfl, ?_, plain_of_mem_membersOfPrinted⟩
    rw [byText_membersOfPrinted, Assoc.mapValues_eq_map]
    refine (hperm.map _).trans (.of_eq ?_)
    rw [← Assoc.mapValues_eq_map, Assoc.mapValues_mapValues]
  constant _ := rfl

end Json.Channel

/-! ## What fits the numbers of the form -/

/-- The position fits 64 bits. -/
def Strategy.Sized : Strategy → Prop
  | .index i => i < UInt64.size
  | .append | .key _ => True

/-- The identity of the call fits 32 bits. -/
def Endpoint.Sized : Endpoint → Prop
  | .call id _ => id.val < UInt32.size
  | .constant _ | .boundary _ | .variable _ => True

/-- All numbers of the mapping fit. -/
structure Mapping.Sized (m : Mapping) : Prop where
  source : m.source.Sized
  sourceStrategy : ∀ s ∈ m.sourceStrategy, s.Sized
  target : m.target.Sized
  targetStrategy : ∀ s ∈ m.targetStrategy, s.Sized
  priority : ∀ id ∈ m.priority, id.val < UInt32.size

/-- The identities of all calls fit 32 bits. -/
def Successor.Sized (s : Successor) : Prop := ∀ id ∈ s.targets, id.val < UInt32.size

/-- All identities of the call fit 32 bits. -/
structure CallDecl.Sized (c : CallDecl) : Prop where
  id : c.id.val < UInt32.size
  function : c.function.val < UInt32.size
  successor : c.successor.Sized

/-- All numbers of the composition fit. -/
structure Composition.Sized (c : Composition) : Prop where
  id : c.id.val < UInt32.size
  represents : ∀ f ∈ c.represents, f.val < UInt32.size
  starts : ∀ id ∈ c.starts, id.val < UInt32.size
  calls : ∀ d ∈ c.calls, d.Sized
  mappings : ∀ m ∈ c.mappings, m.Sized

/-- All identities of the description fit 32 bits. -/
structure Description.Sized (d : Description) : Prop where
  id : d.id.val < UInt32.size
  body : ∀ c ∈ d.body, c.val < UInt32.size

/-! ## Forms that are read again -/

section Encodes

variable {r : Json → Piece} {F : Constant → Option Constant} {α : Type}

/-- From the JSON form of what fits, `again` is read. -/
structure Encodes (r : Json → Piece) {α : Type} (toJson : α → Json) (read : Piece → Option α)
    (Fits : α → Prop)
    (again : α → Option α) : Prop where
  read : ∀ a, Fits a → read (r (toJson a)) = again a
  /-- It is not taken for a missing field. -/
  present : ∀ a, Fits a → r (toJson a) ≠ .null

variable {toJson : α → Json} {read : Piece → Option α} {Fits : α → Prop} {again : α → Option α}

theorem Encodes.field (h : Encodes r toJson read Fits again) {fs : List (String × Piece)}
    {name : String} {a : α}
    (hfind : Assoc.find? fs name = some (r (toJson a))) (ha : Fits a) :
    Piece.field? fs name read = again a := by
  rw [Piece.field?, hfind]
  exact h.read a ha

theorem Encodes.optionalField (h : Encodes r toJson read Fits again) (hnull : r .null = .null)
    {fs : List (String × Piece)} {name : String} {a? : Option α}
    (hfind : Assoc.find? fs name = some (r (.ofOption toJson a?))) (ha : ∀ a ∈ a?, Fits a) :
    Piece.optionalField? fs name read = a?.mapM again := by
  rw [Piece.optionalField?, hfind]
  cases a? with
  | none => 
      rw [Json.ofOption, hnull]
      rfl
  | some a =>
      have hread := h.read a (ha a rfl)
      have hpresent := h.present a (ha a rfl)
      rw [Json.ofOption]
      split
      · rename_i heq
        cases heq
      · rename_i heq
        exact absurd (Option.some.inj heq) hpresent
      · rename_i w _ heq
        obtain rfl := Option.some.inj heq
        rw [hread]
        rfl

theorem Encodes.list (h : Encodes r toJson read Fits again)
    (harr : ∀ items, r (.arr items) = .arr (items.map r)) :
    Encodes r (.ofList toJson) (Piece.list? read) (fun as => ∀ a ∈ as, Fits a)
      (List.mapM again) where
  read as has := by
    rw [Json.ofList, harr, Piece.list?, List.map_map, List.mapM_map]
    exact mapM_congr fun a ha => h.read a (has a ha)
  present as _ := by
    rw [Json.ofList, harr]
    exact Piece.noConfusion

/-! ### Numbers and strings -/

theorem Json.Channel.text (h : Json.Channel r F) :
    Encodes r .str Piece.text? (fun _ => True) some where
  read s _ := by rw [h.str]; rfl
  present s _ := by rw [h.str]; exact Piece.noConfusion

theorem Json.Channel.ofNat (h : Json.Channel r F) {n : Nat} (hn : n < UInt64.size) :
    r (.ofNat n) = .int n := by
  have hsize : (UInt64.size : Int) = 18446744073709551616 := rfl
  have hmin : Int64.minValue.toInt = -9223372036854775808 := rfl
  have hless : (n : Int) < UInt64.size := Int.ofNat_lt.2 hn
  exact h.int n (by omega) hless

theorem Json.Channel.natBelow (h : Json.Channel r F) (bound : Nat) (hbound : bound ≤ UInt64.size) :
    Encodes r .ofNat (Piece.natBelow? bound) (· < bound) some where
  read n hn := by
    rw [h.ofNat (Nat.lt_of_lt_of_le hn hbound), Piece.natBelow?]
    simp [hn]
  present n hn := by
    rw [h.ofNat (Nat.lt_of_lt_of_le hn hbound)]
    exact Piece.noConfusion

theorem size32_le : UInt32.size ≤ UInt64.size := by decide

/-- Something that is made of one thing, and read from it. -/
theorem Encodes.map {β : Type} (h : Encodes r toJson read Fits some) (make : α → β) (part : β → α)
    (hmake : ∀ b, make (part b) = b) :
    Encodes r (fun b => toJson (part b)) (fun w => (read w).map make)
      (fun b => Fits (part b)) some where
  read b hb := by
    show (read (r (toJson (part b)))).map make = some b
    rw [h.read _ hb, Option.map_some, hmake]
  present b hb := h.present _ hb

theorem Json.Channel.functionId (h : Json.Channel r F) :
    Encodes r FunctionId.toJson FunctionId.ofPiece? (fun id => id.val < UInt32.size) some :=
  (h.natBelow _ size32_le).map FunctionId.mk FunctionId.val fun _ => rfl

theorem Json.Channel.compositionId (h : Json.Channel r F) :
    Encodes r CompositionId.toJson CompositionId.ofPiece? (fun id => id.val < UInt32.size) some :=
  (h.natBelow _ size32_le).map CompositionId.mk CompositionId.val fun _ => rfl

theorem Json.Channel.callId (h : Json.Channel r F) :
    Encodes r CallId.toJson CallId.ofPiece? (fun id => id.val < UInt32.size) some :=
  (h.natBelow _ size32_le).map CallId.mk CallId.val fun _ => rfl

theorem Json.Channel.index (h : Json.Channel r F) :
    Encodes r (fun i : UInt16 => .ofNat i.toNat) Piece.index? (fun _ => True) some where
  read i _ := by
    have hread := (h.natBelow UInt16.size (by decide)).read i.toNat i.toNat_lt
    rw [Piece.index?, hread, Option.map_some, UInt16.ofNat_toNat]
  present i _ := (h.natBelow UInt16.size (by decide)).present i.toNat i.toNat_lt

/-! ### Choices -/

theorem Json.Channel.present_tagged (h : Json.Channel r F) (tag : String) (j : Json) :
    r (tagged tag j) ≠ .null := by
  intro hnull
  have hchoice := h.choice?_tagged tag j
  rw [hnull] at hchoice
  cases hchoice

theorem Json.Channel.present_str (h : Json.Channel r F) (s : String) : r (.str s) ≠ .null := by
  rw [h.str]
  exact Piece.noConfusion

theorem Json.Channel.port (h : Json.Channel r F) :
    Encodes r Port.toJson Port.ofPiece? (fun _ => True) some where
  read port _ := by
    cases port with
    | param i =>
        rw [Port.toJson, Port.ofPiece?, h.choice?_tagged]
        show (Piece.index? (r (.ofNat i.toNat))).map Port.param = _
        rw [h.index.read i trivial, Option.map_some]
    | _ => 
        rw [Port.toJson, Port.ofPiece?, h.choice?_str]
        rfl
  present port _ := by
    cases port with
    | param i => exact h.present_tagged _ _
    | _ => exact h.present_str _

theorem Json.Channel.strategy (h : Json.Channel r F) :
    Encodes r Strategy.toJson Strategy.ofPiece? Strategy.Sized some where
  read strategy hs := by
    match strategy with
    | .index i =>
        rw [Strategy.toJson, Strategy.ofPiece?, h.choice?_tagged]
        show (Piece.position? (r (.ofNat i))).map Strategy.index = _
        rw [Piece.position?, (h.natBelow _ (Nat.le_refl _)).read i hs, Option.map_some]
    | .key k =>
        rw [Strategy.toJson, Strategy.ofPiece?, h.choice?_tagged]
        show (Piece.text? (r (.str k))).map Strategy.key = _
        rw [h.text.read k trivial, Option.map_some]
    | .append =>
        rw [Strategy.toJson, Strategy.ofPiece?, h.choice?_str]
        rfl
  present strategy _ := by
    match strategy with
    | .index _ | .key _ => exact h.present_tagged _ _
    | .append => exact h.present_str _

theorem Json.Channel.endpoint (h : Json.Channel r F) :
    Encodes r Endpoint.toJson Endpoint.ofPiece? Endpoint.Sized (Endpoint.mapConstants? F) where
  read e he := by
    match e with
    | .constant c =>
        rw [Endpoint.toJson, Endpoint.ofPiece?, h.choice?_tagged]
        show (Constant.ofPiece? (r c.toJson)).map Endpoint.constant = _
        rw [h.constant]
        rfl
    | .call id port =>
        rw [Endpoint.toJson, Endpoint.ofPiece?, h.choice?_tagged]
        refine h.record_bind (by simp [Assoc.keys]) fun fs hfs => ?_
        have hid := h.callId.field (hfs "call") he
        have hport := h.port.field (hfs "port") trivial
        rw [hid, hport]
        rfl
    | .boundary port =>
        rw [Endpoint.toJson, Endpoint.ofPiece?, h.choice?_tagged]
        show (Port.ofPiece? (r port.toJson)).map Endpoint.boundary = _
        rw [h.port.read port trivial]
        rfl
    | .variable name =>
        rw [Endpoint.toJson, Endpoint.ofPiece?, h.choice?_tagged]
        show (Piece.text? (r (.str name))).map Endpoint.variable = _
        rw [h.text.read name trivial]
        rfl
  present e _ := by
    match e with
    | .constant _ | .call _ _ | .boundary _ | .variable _ => exact h.present_tagged _ _

theorem mapM_some_option (a? : Option α) : a?.mapM some = some a? := by cases a? <;> rfl

theorem Json.Channel.successor (h : Json.Channel r F) :
    Encodes r Successor.toJson Successor.ofPiece? Successor.Sized some where
  read s hs := by
    cases s with
    | stop =>
        rw [Successor.toJson, Successor.ofPiece?, h.choice?_str]
        rfl
    | next id =>
        rw [Successor.toJson, Successor.ofPiece?, h.choice?_tagged]
        show (CallId.ofPiece? (r id.toJson)).map Successor.next = _
        rw [h.callId.read id (hs id (by simp [Successor.targets])), Option.map_some]
    | loop iterate after =>
        rw [Successor.toJson, Successor.ofPiece?, h.choice?_tagged]
        refine h.record_bind (by simp [Assoc.keys]) fun fs hfs => ?_
        have hiterate := h.callId.field (hfs "iterate") (hs iterate (by simp [Successor.targets]))
        have hafter := h.callId.optionalField h.null (hfs "next") fun id hid =>
          hs id (by simp [Successor.targets, show after = some id from hid])
        rw [hiterate, hafter, mapM_some_option]
        rfl
    | branch ifTrue ifFalse =>
        rw [Successor.toJson, Successor.ofPiece?, h.choice?_tagged]
        refine h.record_bind (by simp [Assoc.keys]) fun fs hfs => ?_
        have htrue := h.callId.optionalField h.null (hfs "if_true") fun id hid =>
          hs id (by simp [Successor.targets, show ifTrue = some id from hid])
        have hfalse := h.callId.optionalField h.null (hfs "if_false") fun id hid =>
          hs id (by simp [Successor.targets, show ifFalse = some id from hid])
        rw [htrue, hfalse, mapM_some_option, mapM_some_option]
        rfl
  present s _ := by
    cases s with
    | stop => exact h.present_str _
    | _ => exact h.present_tagged _ _

/-! ### Records -/

theorem Json.Channel.present_obj (h : Json.Channel r F) {members : Assoc String Json}
    (hkeys : (Assoc.keys members).Nodup) : r (.obj members) ≠ .null := by
  obtain ⟨ms, hms, -⟩ := h.obj members hkeys
  rw [hms]
  exact Piece.noConfusion

theorem Json.Channel.mapping (h : Json.Channel r F) :
    Encodes r Mapping.toJson Mapping.ofPiece? Mapping.Sized (Mapping.mapConstants? F) where
  read m hm := by
    refine h.record_bind (by simp [Assoc.keys]) fun fs hfs => ?_
    have hsource := h.endpoint.field (hfs "source") hm.source
    have hsourceStrategy :=
      h.strategy.optionalField h.null (hfs "source_strategy") hm.sourceStrategy
    have htarget := h.endpoint.field (hfs "target") hm.target
    have htargetStrategy :=
      h.strategy.optionalField h.null (hfs "target_strategy") hm.targetStrategy
    have hpriority := h.callId.optionalField h.null (hfs "priority") hm.priority
    rw [hsource, hsourceStrategy, htarget, htargetStrategy, hpriority]
    simp only [mapM_some_option]
    rfl
  present m _ := h.present_obj (by simp [Assoc.keys])

theorem Json.Channel.callDecl (h : Json.Channel r F) :
    Encodes r CallDecl.toJson CallDecl.ofPiece? CallDecl.Sized some where
  read c hc := by
    refine h.record_bind (by simp [Assoc.keys]) fun fs hfs => ?_
    have hid := h.callId.field (hfs "id") hc.id
    have hfunction := h.functionId.field (hfs "function") hc.function
    have hsuccessor := h.successor.field (hfs "successor") hc.successor
    have hlabel := h.text.optionalField h.null (hfs "label") fun _ _ => trivial
    rw [hid, hfunction, hsuccessor, hlabel, mapM_some_option]
    rfl
  present c _ := h.present_obj (by simp [Assoc.keys])

theorem Json.Channel.composition (h : Json.Channel r F) :
    Encodes r Composition.toJson Composition.ofPiece? Composition.Sized
      (Composition.mapConstants? F) where
  read c hc := by
    refine h.record_bind (by simp [Assoc.keys]) fun fs hfs => ?_
    have hid := h.compositionId.field (hfs "id") hc.id
    have hname := h.text.field (hfs "name") trivial
    have hrepresents := h.functionId.optionalField h.null (hfs "represents") hc.represents
    have hstarts := (h.callId.list h.arr).field (hfs "starts") hc.starts
    have hcalls := (h.callDecl.list h.arr).field (hfs "calls") hc.calls
    have hmappings := (h.mapping.list h.arr).field (hfs "mappings") hc.mappings
    rw [hid, hname, hrepresents, hstarts, hcalls, hmappings, mapM_some_option,
      mapM_eq_some_self_iff.2 fun _ _ => rfl,
      mapM_eq_some_self_iff.2 fun _ _ => rfl]
    rfl
  present c _ := h.present_obj (by simp [Assoc.keys])

theorem Json.Channel.valueType (h : Json.Channel r F) :
    Encodes r ValueType.toJson ValueType.ofPiece? (fun _ => True) some where
  read t _ := by
    rw [ValueType.toJson, ValueType.ofPiece?, h.choice?_str]
    cases t <;> rfl
  present t _ := h.present_str _

theorem Json.Channel.paramKind (h : Json.Channel r F) :
    Encodes r ParamKind.toJson ParamKind.ofPiece? (fun _ => True) some where
  read kind _ := by
    cases kind with
    | positional i =>
        rw [ParamKind.toJson, ParamKind.ofPiece?, h.choice?_tagged]
        show (Piece.index? (r (.ofNat i.toNat))).map ParamKind.positional = _
        rw [h.index.read i trivial, Option.map_some]
    | keyword name =>
        rw [ParamKind.toJson, ParamKind.ofPiece?, h.choice?_tagged]
        show (Piece.text? (r (.str name))).map ParamKind.keyword = _
        rw [h.text.read name trivial, Option.map_some]
    | _ =>
        rw [ParamKind.toJson, ParamKind.ofPiece?, h.choice?_str]
        rfl
  present kind _ := by
    cases kind with
    | positional _ | keyword _ => exact h.present_tagged _ _
    | _ => exact h.present_str _

theorem Json.Channel.present_constant (h : Json.Channel r F) (c : Constant) :
    r c.toJson ≠ .null := by
  cases c with
  | none => exact h.present_str _
  | _ => exact h.present_tagged _ _

theorem Json.Channel.constant_encodes (h : Json.Channel r F) :
    Encodes r Constant.toJson Constant.ofPiece? (fun _ => True) F where
  read c _ := h.constant c
  present c _ := h.present_constant c

theorem Json.Channel.param (h : Json.Channel r F) :
    Encodes r Param.toJson Param.ofPiece? (fun _ => True) (Param.mapConstants? F) where
  read p _ := by
    refine h.record_bind (by simp [Assoc.keys]) fun fs hfs => ?_
    have hname := h.text.field (hfs "name") trivial
    have htype := h.valueType.field (hfs "value_type") trivial
    have hkind := h.paramKind.field (hfs "kind") trivial
    have hdefault := h.constant_encodes.optionalField h.null (hfs "default") fun _ _ => trivial
    rw [hname, htype, hkind, hdefault]
    rfl
  present p _ := h.present_obj (by simp [Assoc.keys])

theorem Json.Channel.output (h : Json.Channel r F) :
    Encodes r Output.toJson Output.ofPiece? (fun _ => True) some where
  read o _ := by
    refine h.record_bind (by simp [Assoc.keys]) fun fs hfs => ?_
    have hname := h.text.field (hfs "name") trivial
    have htype := h.valueType.field (hfs "value_type") trivial
    rw [hname, htype]
    rfl
  present o _ := h.present_obj (by simp [Assoc.keys])

theorem Json.Channel.implementation (h : Json.Channel r F) :
    Encodes r implementationToJson implementationOfPiece? (fun _ => True) some where
  read path _ := by
    refine h.record_bind (by simp [Assoc.keys]) fun fs hfs => ?_
    exact h.text.field (hfs "path") trivial
  present path _ := h.present_obj (by simp [Assoc.keys])

theorem Json.Channel.description (h : Json.Channel r F) :
    Encodes r Description.toJson Description.ofPiece? Description.Sized
      (Description.mapConstants? F) where
  read d hd := by
    refine h.record_bind (by simp [Assoc.keys]) fun fs hfs => ?_
    have hid := h.functionId.field (hfs "id") hd.id
    have hname := h.text.field (hfs "name") trivial
    have hparams := (h.param.list h.arr).field (hfs "params") fun _ _ => trivial
    have hreceiver := h.param.optionalField h.null (hfs "receiver") fun _ _ => trivial
    have houtput := h.output.field (hfs "output") trivial
    have hselfOutput := h.output.optionalField h.null (hfs "self_output") fun _ _ => trivial
    have hbody := h.compositionId.optionalField h.null (hfs "body") hd.body
    have himplementation :=
      h.implementation.optionalField h.null (hfs "implementation") fun _ _ => trivial
    rw [hid, hname, hparams, hreceiver, houtput, hselfOutput, hbody, himplementation]
    simp only [mapM_some_option]
    rfl
  present d _ := h.present_obj (by simp [Assoc.keys])

/-! ### Numbers as keys -/

theorem isPlain_of_isDigit {c : Char} (h : c.isDigit = true) : Json.isPlain c = true := by
  rcases Json.escapedChar_cases c with ⟨hplain, -⟩ | ⟨-, e, he, -⟩
  · exact hplain
  · have hdigit := Char.isDigit_iff_toNat.1 h
    have hne : ∀ c', c'.isDigit = false → c ≠ c' := by
      rintro c' hc' rfl
      exact absurd h (by simp [hc'])
    have hvalue : '0'.toNat = 48 := rfl
    have h8 : c.toNat ≠ 8 := by omega
    have h12 : c.toNat ≠ 12 := by omega
    have hcontrol : ¬ c.toNat < 0x20 := by omega
    simp [Json.isPlain, Json.escapedChar, hne '"' rfl, hne '\\' rfl, hne '\n' rfl, hne '\r' rfl,
      hne '\t' rfl, h8, h12,
      hcontrol]

theorem toList_toString (n : Nat) : (toString n).toList = Decimal.digitsOf n := by
  rw [Nat.toString_eq_ofList_toDigits, String.toList_ofList]
  rfl

theorem toString_injective : Function.Injective (toString : Nat → String) := by
  intro n n' h
  rw [← Decimal.ofDigits_digitsOf n, ← Decimal.ofDigits_digitsOf n', ← toList_toString,
    ← toList_toString, h]

/-- A number that was written as a key is read from it. -/
theorem number?_toString {n : Nat} (h : n < UInt32.size) :
    Key.number? ⟨toString n, true⟩ = some n := by
  have hdigits := Decimal.areDigits_digitsOf n
  have hspan := Decimal.spanDigits_append hdigits.all Decimal.stops_nil.endsDigits
  have hvalue := Decimal.ofDigits_digitsOf n
  have hlength := Decimal.length_digitsOf (n := n)
  rw [List.append_nil] at hspan
  rw [Key.number?, toList_toString, hspan]
  revert hvalue
  obtain ⟨d, ds, hds⟩ := List.exists_cons_of_ne_nil hdigits.ne_nil
  rw [hds] at hlength ⊢
  intro hvalue
  simp only [List.map_cons] at hvalue ⊢
  have hshort : ds ≠ [] → Decimal.digitValue d ≠ 0 := by
    intro hne hd
    have hzero := Decimal.eq_zero_of_digitValue (hdigits.all d (by rw [hds]; simp)) hd
    exact hne (by simpa using hlength (by rw [hzero]; rfl))
  simpa [hvalue, h] using hshort

theorem exists_mapM_of_perm {β : Type} {f : α → Option β} {as as' : List α} (h : as.Perm as') :
    ∀ {bs}, as.mapM f = some bs → ∃ bs', as'.mapM f = some bs' ∧ bs.Perm bs' := by
  induction h with
  | nil => exact fun hbs => ⟨_, hbs, .refl _⟩
  | cons a _ ih =>
      intro bs hbs
      rw [List.mapM_cons] at hbs ⊢
      obtain ⟨b, hb, hbs⟩ := Option.bind_eq_some_iff.1 hbs
      obtain ⟨rest, hrest, hbs⟩ := Option.bind_eq_some_iff.1 hbs
      obtain rfl := Option.some.inj hbs
      obtain ⟨rest', hrest', hperm⟩ := ih hrest
      exact ⟨b :: rest', by rw [hb, hrest']; rfl, hperm.cons b⟩
  | swap a a' as =>
      intro bs hbs
      simp only [List.mapM_cons] at hbs ⊢
      obtain ⟨b', hb', hbs⟩ := Option.bind_eq_some_iff.1 hbs
      obtain ⟨_, hrest, hbs⟩ := Option.bind_eq_some_iff.1 hbs
      obtain ⟨b, hb, hrest⟩ := Option.bind_eq_some_iff.1 hrest
      obtain ⟨rest, hrest', heq⟩ := Option.bind_eq_some_iff.1 hrest
      obtain rfl := Option.some.inj heq
      obtain rfl := Option.some.inj hbs
      exact ⟨b :: b' :: rest, by rw [hb, hb', hrest']; rfl, .swap ..⟩
  | trans _ _ ih ih' =>
      intro bs hbs
      obtain ⟨bs', hbs', hperm⟩ := ih hbs
      obtain ⟨bs'', hbs'', hperm'⟩ := ih' hbs'
      exact ⟨bs'', hbs'', hperm.trans hperm'⟩

/-- What is made of a list that is in another order is the same, in another order. -/
theorem mapM_of_perm {β : Type} {f : α → Option β} {as as' : List α} (h : as.Perm as') :
    (as.mapM f = none ∧ as'.mapM f = none) ∨
    ∃ bs bs', as.mapM f = some bs ∧ as'.mapM f = some bs' ∧ bs.Perm bs' := by
  cases hbs : as.mapM f with
  | some bs =>
      obtain ⟨bs', hbs', hperm⟩ := exists_mapM_of_perm h hbs
      exact .inr ⟨bs, bs', rfl, hbs', hperm⟩
  | none =>
      cases hbs' : as'.mapM f with
      | none => exact .inl ⟨rfl, rfl⟩
      | some bs' =>
          obtain ⟨bs, hsome, -⟩ := exists_mapM_of_perm h.symm hbs'
          exact absurd (hbs.symm.trans hsome) (by simp)

/-- An object with numbers as keys is read as what was written, in some order. -/
theorem Encodes.numbered {toJson : α → Json} {read : Piece → Option α} {Fits : α → Prop}
    {again : α → Option α}
    (h : Encodes r toJson read Fits again) (hr : Json.Channel r F) {entries : List (Nat × α)}
    (hkeys : (entries.map (·.1)).Nodup) (hsize : ∀ entry ∈ entries, entry.1 < UInt32.size)
    (hfits : ∀ entry ∈ entries, Fits entry.2) :
    (Piece.numbered? read (r (.ofNumbered toJson entries)) = none ∧
      (entries.mapM fun entry => (again entry.2).map fun a => (entry.1, a)) = none) ∨
    ∃ es es', Piece.numbered? read (r (.ofNumbered toJson entries)) = some es ∧
      (entries.mapM fun entry => (again entry.2).map fun a => (entry.1, a)) = some es' ∧
      es.Perm es' := by
  have hnodup :
      (Assoc.keys (entries.map fun entry => (toString entry.1, toJson entry.2))).Nodup := by
    rw [Assoc.keys, List.map_map]
    have hinjective := hkeys.map toString_injective
    rwa [List.map_map] at hinjective
  obtain ⟨ms, hms, hperm, hplain⟩ := hr.obj _ hnodup
  let readText : String × Piece → Option (Nat × α) :=
    fun m => do return (← Key.number? ⟨m.1, true⟩, ← read m.2)
  have hwritten :
      (Assoc.mapValues r (entries.map fun entry => (toString entry.1, toJson entry.2))).mapM
        readText
      = entries.mapM fun entry => (again entry.2).map fun a => (entry.1, a) := by
    rw [Assoc.mapValues_eq_map, List.map_map, List.mapM_map]
    refine mapM_congr fun entry hentry => ?_
    have hread := h.read entry.2 (hfits _ hentry)
    have hnumber := number?_toString (hsize _ hentry)
    simp only [Function.comp_apply, readText, hread, hnumber]
    cases again entry.2 <;> rfl
  have hread : Piece.numbered? read (r (.ofNumbered toJson entries)) =
      (Piece.byText ms).mapM readText := by
    show Piece.numbered? read
      (r (.obj (entries.map fun entry => (toString entry.1, toJson entry.2)))) = _
    rw [hms, Piece.numbered?, Piece.byText, List.mapM_map]
    refine mapM_congr fun m hm => ?_
    obtain ⟨key, w⟩ := m
    have hmem : key.text ∈ Assoc.keys (Piece.byText ms) :=
      List.mem_map_of_mem (f := (·.1))
        (List.mem_map_of_mem (f := fun (m : Key × Piece) => (m.1.text, m.2)) hm)
    have hnumber : ∃ entry ∈ entries, toString entry.1 = key.text := by
      have hwritten := (hperm.map Prod.fst).mem_iff.1 hmem
      simpa [Assoc.mapValues_eq_map] using hwritten
    have hkey : key = ⟨key.text, true⟩ := by
      obtain ⟨entry, -, htext⟩ := hnumber
      have hall : key.text.toList.all Json.isPlain = true := by
        rw [← htext, toList_toString]
        exact List.all_eq_true.2 fun c hc =>
          isPlain_of_isDigit ((Decimal.areDigits_digitsOf _).all c hc)
      rw [← hplain _ hm hall]
    rw [hkey]
    rfl
  rw [hread, ← hwritten]
  exact mapM_of_perm hperm

/-! ### Graphs -/

/-- All numbers of the graph fit, and its definitions are in order of their keys. -/
structure Graph.Sized (g : Graph) : Prop where
  functionOrder : (Assoc.keys g.functions).Pairwise fun id id' => id.val < id'.val
  compositionOrder : (Assoc.keys g.compositions).Pairwise fun id id' => id.val < id'.val
  functionKeys : ∀ id ∈ Assoc.keys g.functions, id.val < UInt32.size
  compositionKeys : ∀ id ∈ Assoc.keys g.compositions, id.val < UInt32.size
  functions : ∀ d ∈ Assoc.values g.functions, d.Sized
  compositions : ∀ c ∈ Assoc.values g.compositions, c.Sized
  nextFunction : g.nextFunction < UInt32.size
  nextComposition : g.nextComposition < UInt32.size
  nextCall : g.nextCall < UInt32.size

theorem mapM_rank {κ β : Type} (rank : κ → Nat) (f : α → Option β) (m : Assoc κ α) :
    (m.map fun entry => (rank entry.1, entry.2)).mapM
      (fun entry => (f entry.2).map fun b => (entry.1, b)) =
      (m.mapM fun entry => (f entry.2).map fun b => (entry.1, b)).map
        fun m' => m'.map fun entry => (rank entry.1, entry.2) := by
  induction m with
  | nil => rfl
  | cons entry m ih =>
      rw [List.map_cons, List.mapM_cons, List.mapM_cons, ih]
      cases f entry.2 with
      | none => rfl
      | some b => cases m.mapM (fun entry => (f entry.2).map fun b => (entry.1, b)) <;> rfl

theorem keys_of_mapM {κ β : Type} {f : α → Option β} {m : Assoc κ α} {m' : Assoc κ β}
    (h : (m.mapM fun entry => (f entry.2).map fun b => (entry.1, b)) = some m') :
    Assoc.keys m' = Assoc.keys m := by
  refine map_eq_of_mapM_eq_some (fun entry entry' hb => ?_) h
  obtain ⟨b', -, heq⟩ := Option.map_eq_some_iff.1 hb
  rw [← heq]

/-- Definitions under numbers as keys are read into a map that has them in order. -/
theorem Encodes.sorted {κ : Type} [DecidableEq κ] {toJson : α → Json} {read : Piece → Option α}
    {Fits : α → Prop}
    {again : α → Option α} (h : Encodes r toJson read Fits again) (hr : Json.Channel r F)
    {before : κ → κ → Bool}
    {rank : κ → Nat} (hbefore : ∀ k k', before k k' = decide (rank k < rank k')) {make : Nat → κ}
    (hmake : ∀ k, make (rank k) = k) {m : Assoc κ α}
    (horder : (Assoc.keys m).Pairwise fun k k' => rank k < rank k')
    (hsize : ∀ k ∈ Assoc.keys m, rank k < UInt32.size) (hfits : ∀ a ∈ Assoc.values m, Fits a) :
    (Piece.numbered? read (r (.ofNumbered toJson (m.map fun entry => (rank entry.1, entry.2))))).map
        (fun es => Assoc.sortedOfList before (es.map fun entry => (make entry.1, entry.2))) =
      m.mapM fun entry => (again entry.2).map fun a => (entry.1, a) := by
  have hrank : Function.Injective rank := fun k k' heq => by rw [← hmake k, ← hmake k', heq]
  have hnodup : ((m.map fun entry => (rank entry.1, entry.2)).map (·.1)).Nodup := by
    rw [List.map_map]
    rw [Assoc.keys, List.pairwise_map] at horder
    exact List.pairwise_map.2 (horder.imp fun hless => Nat.ne_of_lt hless)
  have hsize' : ∀ entry ∈ m.map fun entry => (rank entry.1, entry.2), entry.1 < UInt32.size := by
    intro _ hentry
    obtain ⟨_, hmem, rfl⟩ := List.mem_map.1 hentry
    exact hsize _ (List.mem_map_of_mem hmem)
  have hfits' : ∀ entry ∈ m.map fun entry => (rank entry.1, entry.2), Fits entry.2 := by
    intro _ hentry
    obtain ⟨_, hmem, rfl⟩ := List.mem_map.1 hentry
    exact hfits _ (List.mem_map_of_mem hmem)
  have hread := h.numbered hr hnodup hsize' hfits'
  rw [mapM_rank rank again m] at hread
  rcases hread with ⟨hnone, hnone'⟩ | ⟨es, es', hes, hes', hperm⟩
  · rw [hnone, Option.map_eq_none_iff.1 hnone']
    rfl
  · obtain ⟨m', hm', rfl⟩ := Option.map_eq_some_iff.1 hes'
    rw [hes, hm', Option.map_some]
    have hperm' : (es.map fun entry => (make entry.1, entry.2)).Perm m' := by
      refine (hperm.map _).trans (.of_eq ?_)
      simp [Function.comp_def, hmake]
    rw [Assoc.sortedOfList_of_perm before hrank hbefore hperm' (by rwa [keys_of_mapM hm'])]

/-- **A graph is read from its JSON form.** -/
theorem Json.Channel.graph (h : Json.Channel r F) {g : Graph} (hg : g.Sized) :
    Graph.ofPiece? (r g.toJson) = g.mapConstants? F := by
  refine h.record_bind (by simp [Assoc.keys]) fun fs hfs => ?_
  have hname := h.text.field (hfs "name") trivial
  have hnextFunction := (h.natBelow _ size32_le).field (hfs "next_function_id") hg.nextFunction
  have hnextComposition :=
    (h.natBelow _ size32_le).field (hfs "next_composition_id") hg.nextComposition
  have hnextCall := (h.natBelow _ size32_le).field (hfs "next_call_id") hg.nextCall
  have hfunctions : (Piece.field? fs "functions" (Piece.numbered? Description.ofPiece?)).map
      (fun es => Assoc.sortedOfList FunctionId.before (es.map fun entry => (⟨entry.1⟩, entry.2))) =
        g.functions.mapM fun entry => (entry.2.mapConstants? F).map fun d => (entry.1, d) := by
    rw [Piece.field?, hfs "functions"]
    exact h.description.sorted h (fun _ _ => rfl) (fun _ => rfl) hg.functionOrder
      hg.functionKeys hg.functions
  have hcompositions : (Piece.field? fs "compositions" (Piece.numbered? Composition.ofPiece?)).map
      (fun es => Assoc.sortedOfList CompositionId.before
        (es.map fun entry => (⟨entry.1⟩, entry.2))) =
        g.compositions.mapM fun entry => (entry.2.mapConstants? F).map fun c => (entry.1, c) := by
    rw [Piece.field?, hfs "compositions"]
    exact h.composition.sorted h (fun _ _ => rfl) (fun _ => rfl) hg.compositionOrder
      hg.compositionKeys
      hg.compositions
  rw [hname, hnextFunction, hnextComposition, hnextCall, Graph.mapConstants?, ← hfunctions,
    ← hcompositions]
  cases Piece.field? fs "functions" (Piece.numbered? Description.ofPiece?) with
  | none => rfl
  | some functions =>
      cases Piece.field? fs "compositions" (Piece.numbered? Composition.ofPiece?) <;> rfl

end Encodes

end CallFlow
