import CallFlow.Proofs.Iteration

/-!
# Methods

The methods of the standard registry follow the model of lists, and one that fails leaves its
receiver as it was (`Registry.worksInPlace_standard`).

A method checks its arguments, sees the receiver as what it should be (`Work.atomic_view`), and
only then writes it, so no failure comes behind a write.  Methods that read never write at all
(the lemmas `Host.looks_*`).

Which item an index means is worked out in words of 64 bits, where a length is a positive number
and the sum of a length and a negative index fits (`Host.position_eq_ok_iff`).
-/

namespace CallFlow

namespace Host

variable {inv : Invocation}

/-! ## Methods that read -/

theorem looks_strMap (f : String → String) : Looks (strMap f inv) :=
  (looks_lift _).bind fun _ => Work.looks_view fun _ => looks_pure _

theorem looks_mapKeys : Looks (mapKeys inv) :=
  (looks_lift _).bind fun _ => Work.looks_view fun _ => looks_pure _

theorem looks_mapGet : Looks (mapGet inv) := by
  refine (looks_lift _).bind fun _ => ?_
  split
  · exact looks_lift _
  · exact (looks_lift _).bind fun _ => Work.looks_view fun _ => looks_pure _

theorem looks_strSplit : Looks (strSplit inv) :=
  (looks_lift _).bind fun _ => Work.looks_view fun _ => looks_pure _

theorem looks_strJoin : Looks (strJoin inv) :=
  (looks_lift _).bind fun _ => (looks_lift _).bind fun _ => Work.looks_view fun _ =>
    (looks_lift _).bind fun _ => looks_pure _

/-! ## Methods that write -/

theorem atomic_advance : Atomic advance := by
  refine Work.looks_receiver.bind_atomic fun v => ?_
  split
  · split
    · exact Work.atomic_write _ _
    · exact (looks_throw _).atomic
  · exact (looks_throw _).atomic

theorem atomic_next : Atomic (next inv) := by
  rw [next]
  split
  · exact atomic_advance
  · exact (looks_lift _).bind_atomic fun _ => (Work.looks_onCopy _ _).atomic

theorem atomic_listAppend : Atomic (listAppend inv) :=
  (looks_lift _).bind_atomic fun _ => Work.atomic_view fun _ => Work.atomic_write _ _

theorem atomic_listExtend : Atomic (listExtend inv) :=
  (looks_lift _).bind_atomic fun _ => (looks_lift _).bind_atomic fun _ =>
    Work.atomic_view fun _ => Work.atomic_write _ _

theorem atomic_listPop : Atomic (listPop inv) := by
  refine (looks_lift _).bind_atomic fun index => Work.atomic_view fun items => ?_
  split
  · exact (looks_lift _).atomic
  · refine (looks_lift _).bind_atomic fun k => ?_
    split
    · exact Work.atomic_write _ _
    · exact (looks_lift _).atomic

/-! ## Lists -/

variable {xs front back : List Value} {v : Value} {index : Int64} {wanted : Option Int64}
  {length k : Nat}
  {fault : HostFault} {args : List Value} {kwargs : List (String × Value)}

theorem send_listAppend (xs : List Value) (v : Value) (kwargs : List (String × Value)) :
    Invocation.send ⟨[v], kwargs, some (.list xs)⟩ (.working listAppend)
      = ⟨.ok .none, some (.list (xs ++ [v]))⟩ := by
  refine Invocation.send_working ?_
  rw [listAppend, lift_bind_of_ok (Invocation.single_singleton ..), Work.view_bind (asList_list xs)]
  rfl

/-- The index of an item is its distance from the start, or that from the end below zero. -/
theorem position_eq_ok_iff (h : length < 2 ^ 63) :
    position index length = .ok k ↔
      k < length ∧ (index.toInt = k ∨ index.toInt = (k : Int) - length) := by
  have hcount := Int64.toInt_ofNat_of_lt h
  have hresolved :
      (0 ≤ index.toInt ∧ (if index < 0 then Int64.ofNat length + index else index).toInt =
        index.toInt) ∨
      (index.toInt < 0 ∧
        (if index < 0 then Int64.ofNat length + index else index).toInt =
          length + index.toInt) := by
    by_cases hneg : index < 0
    · have hlow := Int64.le_toInt index
      rw [if_pos hneg]
      rw [← toInt_neg_iff] at hneg
      -- The sum is between its parts, so it fits.
      exact .inr ⟨hneg, by rw [toInt_add_of_fits (Value.fitsInt_iff.2 (by omega)), hcount]⟩
    · rw [if_neg hneg]
      rw [← toInt_neg_iff] at hneg
      exact .inl ⟨by omega, rfl⟩
  rw [position]
  generalize (if index < 0 then Int64.ofNat length + index else index) = resolved at hresolved ⊢
  simp only [Bool.or_eq_true, decide_eq_true_eq, Int64.lt_iff_toInt_lt, Int64.le_iff_toInt_le,
    Int64.toInt_zero,
    hcount, ← Int64.toNat_toInt]
  split
  · exact iff_of_false nofun (by omega)
  · rw [Except.ok.injEq]
    omega

/-- An index means an item if it is not beyond the start or the end. -/
theorem exists_position_iff (h : length < 2 ^ 63) :
    (∃ k, position index length = .ok k) ↔ -(length : Int) ≤ index.toInt ∧
      index.toInt < length := by
  simp only [position_eq_ok_iff h]
  constructor
  case mp =>
    rintro ⟨k, hk⟩
    omega
  case mpr =>
    intro hrange
    by_cases hneg : index.toInt < 0
    · exact ⟨(length + index.toInt).toNat, by omega⟩
    · exact ⟨index.toInt.toNat, by omega⟩

/-- The last item has the index minus one. -/
theorem position_last (h : length < 2 ^ 63) (hpos : 0 < length) :
    position (-1) length = .ok (length - 1) := by
  rw [position_eq_ok_iff h, show (-1 : Int64).toInt = -1 by decide]
  omega

theorem listPop_nil (hindex : indexArgument inv = .ok wanted) :
    listPop inv (some (.list [])) = (.error (.failed "pop from empty list"), some (.list [])) := by
  rw [listPop, lift_bind_of_ok hindex, Work.view_bind (asList_list []), if_pos List.isEmpty_nil]
  rfl

theorem listPop_of_ok (hindex : indexArgument inv = .ok wanted)
    (hpos : positionOrLast (front ++ v :: back).length wanted = .ok front.length) :
    listPop inv (some (.list (front ++ v :: back))) = (.ok v, some (.list (front ++ back))) := by
  rw [listPop, lift_bind_of_ok hindex, Work.view_bind (asList_list _), if_neg (by simp),
    lift_bind_of_ok hpos]
  have hitem : (front ++ v :: back)[front.length]? = some v := by simp
  have hrest : (front ++ v :: back).eraseIdx front.length = front ++ back := by
    simp [List.eraseIdx_append_of_length_le]
  simp only [hitem, hrest]
  rfl

theorem listPop_of_error (hindex : indexArgument inv = .ok wanted) (hne : xs ≠ [])
    (hpos : positionOrLast xs.length wanted = .error fault) :
    listPop inv (some (.list xs)) = (.error fault, some (.list xs)) := by
  rw [listPop, lift_bind_of_ok hindex, Work.view_bind (asList_list xs), if_neg (by simpa using hne),
    lift_bind_of_error hpos]

/-- Every item can be removed, and nothing else. -/
theorem exists_send_listPop_iff (hfits : xs.length < 2 ^ 63) (index : Int64)
    (kwargs : List (String × Value)) :
    (∃ v left, Invocation.send ⟨[.int index], kwargs, some (.list xs)⟩ (.working listPop) =
      ⟨.ok v, left⟩) ↔
      ∃ k, position index xs.length = .ok k := by
  constructor
  case mp =>
    rintro ⟨v, left, hsend⟩
    by_cases hempty : xs = []
    · subst hempty
      exact nomatch (Invocation.send_working (listPop_nil rfl)).symm.trans hsend
    · cases hpos : position index xs.length with
      | ok k => exact ⟨k, rfl⟩
      | error fault =>
          have hwanted : positionOrLast xs.length (some index) = .error fault := hpos
          exact nomatch (Invocation.send_working (listPop_of_error rfl hempty hwanted)).symm.trans
            hsend
  case mpr =>
    rintro ⟨k, hpos⟩
    have hlt : k < xs.length := ((position_eq_ok_iff hfits).1 hpos).1
    have hsplit : xs = xs.take k ++ xs[k] :: xs.drop (k + 1) := by
      rw [List.getElem_cons_drop, List.take_append_drop]
    have hfront : (xs.take k).length = k := List.length_take_of_le hlt.le
    refine ⟨xs[k], some (.list (xs.take k ++ xs.drop (k + 1))), ?_⟩
    generalize xs.take k = front, xs[k] = v, xs.drop (k + 1) = back at hsplit hfront ⊢
    subst hsplit hfront
    exact Invocation.send_working (listPop_of_ok rfl hpos)

/-- To remove the last item is to remove the one with the index minus one. -/
theorem send_listPop_last (hfits : xs.length < 2 ^ 63) (kwargs : List (String × Value)) :
    Invocation.send ⟨[], kwargs, some (.list xs)⟩ (.working listPop)
      = Invocation.send ⟨[.int (-1)], kwargs, some (.list xs)⟩ (.working listPop) := by
  obtain rfl | ⟨front, v, rfl⟩ := List.eq_nil_or_concat' xs
  · rw [Invocation.send_working (listPop_nil rfl), Invocation.send_working (listPop_nil rfl)]
  · have hlast : (front ++ [v]).length - 1 = front.length := by simp
    have hdefault : positionOrLast (front ++ [v]).length none = .ok front.length :=
      congrArg Except.ok hlast
    have hindex : positionOrLast (front ++ [v]).length (some (-1)) = .ok front.length :=
      (position_last hfits (by simp)).trans hdefault
    rw [Invocation.send_working (listPop_of_ok rfl hdefault),
      Invocation.send_working (listPop_of_ok rfl hindex)]

end Host

namespace Registry

/-- The callables that a registry finds, by a path or as a member of a receiver. -/
inductive Finds (r : Registry) : Callable → Prop
  | path {path : String} {f : Callable} : r.resolve path = some f → Finds r f
  | member {receiver : Value} {member : String} {f : Callable} :
      r.resolveMember receiver member = some f → Finds r f

/-- What a registry finds is in one of its tables. -/
theorem Finds.mem {r : Registry} {f : Callable} (h : r.Finds f) :
    (∃ path, (path, f) ∈ r.functions) ∨ ∃ key, (key, f) ∈ r.methods := by
  cases h with
  | path h =>
      rw [resolve] at h
      split at h
      · rename_i hfind
        exact .inl ⟨_, Assoc.mem_of_find?_eq_some (hfind.trans h)⟩
      · split at h
        · exact .inr ⟨_, Assoc.mem_of_find?_eq_some h⟩
        · exact nomatch h
  | member h =>
      rw [resolveMember] at h
      split at h
      · rename_i hfind
        exact .inr ⟨_, Assoc.mem_of_find?_eq_some (hfind.trans h)⟩
      · exact .inr ⟨_, Assoc.mem_of_find?_eq_some h⟩

theorem isAtomic_of_mem_functions {path : String} {f : Callable}
    (h : (path, f) ∈ standard.functions) :
    f.IsAtomic := by
  have hall : ∀ entry ∈ standard.functions, entry.2.IsAtomic := by
    simp [standard, (Callable.isReading_unary _).isAtomic, (Callable.isReading_binary _).isAtomic,
      (Callable.isReading_reading _).isAtomic, Callable.isAtomic_working fun _ => Host.atomic_next]
  exact hall _ h

/-- The names of the methods that read. -/
def readers : List String := ["get", "keys", "upper", "lower", "split", "join"]

/-- A method of the standard registry has the name of one that reads and only looks, or it is
atomic. -/
theorem isReading_or_isAtomic_of_mem_methods {typeName member : String} {f : Callable}
    (h : ((typeName, member), f) ∈ standard.methods) :
    f.IsReading ∨ member ∉ readers ∧ f.IsAtomic := by
  have hall :
      ∀ entry ∈ standard.methods, entry.2.IsReading ∨ entry.1.2 ∉ readers ∧ entry.2.IsAtomic := by
    simp [standard, readers, Callable.isReading_working fun _ => Host.looks_mapGet,
      Callable.isReading_working fun _ => Host.looks_mapKeys,
      Callable.isReading_working fun _ => Host.looks_strMap _,
      Callable.isReading_working fun _ => Host.looks_strSplit,
      Callable.isReading_working fun _ => Host.looks_strJoin,
      Callable.isAtomic_working fun _ => Host.atomic_next,
      Callable.isAtomic_working fun _ => Host.atomic_listAppend,
      Callable.isAtomic_working fun _ => Host.atomic_listPop,
      Callable.isAtomic_working fun _ => Host.atomic_listExtend]
  exact hall _ h

/-- What the callables of a registry do to their receivers. -/
structure WorksInPlace (r : Registry) : Prop where
  /-- A callable that fails, also by exhaustion, leaves its receiver as it was. -/
  atomic : ∀ {f}, r.Finds f → f.IsAtomic
  /-- Methods that read leave every receiver as it is. -/
  reads : ∀ {typeName member f}, Assoc.find? r.methods (typeName, member) = some f →
    member ∈ readers → f.IsReading
  append : ∀ xs v kwargs, r.reply? (.list xs) "append" [v] kwargs =
    some ⟨.ok .none, some (.list (xs ++ [v]))⟩
  extend : ∀ {v items}, v.Yields items → ∀ xs kwargs,
    r.reply? (.list xs) "extend" [v] kwargs = some ⟨.ok .none, some (.list (xs ++ items))⟩
  /-- An item is removed just where the index means one.  A list has not more items than a word can
  count. -/
  pop_iff : ∀ {xs : List Value}, xs.length < 2 ^ 63 → ∀ (i : Int64) kwargs,
    (∃ v left, r.reply? (.list xs) "pop" [.int i] kwargs = some ⟨.ok v, left⟩) ↔
      -(xs.length : Int) ≤ i.toInt ∧ i.toInt < xs.length
  /-- It is the item at the distance from the start, or from the end below zero, and the others are
  left. -/
  pop_item : ∀ {front back : List Value} {v : Value},
    (front ++ v :: back).length < 2 ^ 63 → ∀ {i : Int64},
    i.toInt = front.length ∨ i.toInt = (front.length : Int) - (front ++ v :: back).length →
    ∀ kwargs,
      r.reply? (.list (front ++ v :: back)) "pop" [.int i] kwargs =
        some ⟨.ok v, some (.list (front ++ back))⟩
  /-- Without an index the last item is removed. -/
  pop_last : ∀ {xs : List Value}, xs.length < 2 ^ 63 → ∀ kwargs,
    r.reply? (.list xs) "pop" [] kwargs = r.reply? (.list xs) "pop" [.int (-1)] kwargs

/-- **Methods follow the model of lists and fail without a trace.** -/
theorem worksInPlace_standard : standard.WorksInPlace := by
  constructor
  case atomic =>
    intro f hfinds
    obtain ⟨path, hmem⟩ | ⟨⟨typeName, member⟩, hmem⟩ := hfinds.mem
    · exact isAtomic_of_mem_functions hmem
    · obtain hreads | ⟨-, hatomic⟩ := isReading_or_isAtomic_of_mem_methods hmem
      · exact hreads.isAtomic
      · exact hatomic
  case reads =>
    intro typeName member f hfind hmember
    obtain hreads | ⟨hwrites, -⟩ :=
      isReading_or_isAtomic_of_mem_methods (Assoc.mem_of_find?_eq_some hfind)
    · exact hreads
    · exact absurd hmember hwrites
  case append => exact fun xs v kwargs => congrArg some (Host.send_listAppend xs v kwargs)
  case extend =>
    exact fun hyields xs kwargs => congrArg some (Host.send_listExtend hyields xs kwargs)
  case pop_iff =>
    intro xs hfits i kwargs
    rw [← Host.exists_position_iff hfits, ← Host.exists_send_listPop_iff hfits i kwargs]
    exact exists_congr fun v => exists_congr fun left => Option.some_inj
  case pop_item =>
    intro front back v hfits i hindex kwargs
    have hpos : Host.position i (front ++ v :: back).length = .ok front.length :=
      (Host.position_eq_ok_iff hfits).2 ⟨by simp, hindex⟩
    exact congrArg some (Invocation.send_working (Host.listPop_of_ok rfl hpos))
  case pop_last => exact fun hfits kwargs => congrArg some (Host.send_listPop_last hfits kwargs)

example : standard.reply? (.list [.int 1, .int 2]) "pop" [.int (-2)] [] =
    some ⟨.ok (.int 1), some (.list [.int 2])⟩ :=
  rfl

end Registry

end CallFlow
