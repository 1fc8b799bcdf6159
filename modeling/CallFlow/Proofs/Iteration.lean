import CallFlow.Proofs.Arithmetic
import CallFlow.Proofs.Receivers

/-!
# Iteration

What a value yields when it is iterated over (`Value.Yields`) is the same for all callables of the
standard registry (`Registry.iterates_standard`).  Lists are made of these items and extended by
them, `len` is their number, and calls of `next` on an iterator take them one by one and are
exhausted from then on.

A cursor is known by the items that it has not passed.  A call of `next` takes the first of them,
and where there is none it leaves the cursor as it is, also one that is beyond the end
(`Host.send_next`, `Host.send_next_of_none`).  What calls in turn answer follows by induction on
the calls (`Registry.callEach?_next`).
-/

namespace CallFlow

namespace Value

/-- What iterating over a value yields: the items of a list, the keys of a map, the characters of a
string, or the items that a cursor has not passed. -/
inductive Yields : Value → List Value → Prop
  | list (items : List Value) : Yields (.list items) items
  | map (entries : List (String × Value)) : Yields (.map entries) (entries.map fun e => .str e.1)
  | str (s : String) : Yields (.str s) (s.toList.map fun c => .str (String.ofList [c]))
  | iterator (items : List Value) (position : Nat) :
      Yields (.iterator items position) (items.drop position)

/-- Is the value a list, a map, a string or an iterator? -/
def IsIterable (v : Value) : Prop := v.valueType ∈ [.list, .map, .str, .iterator]

theorem IsIterable.exists_yields {v : Value} (h : v.IsIterable) : ∃ items, v.Yields items := by
  cases v with
  | list items => exact ⟨_, .list items⟩
  | map entries => exact ⟨_, .map entries⟩
  | str s => exact ⟨_, .str s⟩
  | iterator items position => exact ⟨_, .iterator items position⟩
  | none | bool _ | int _ | float _ => exact absurd h (by simp [IsIterable, valueType])

end Value

namespace Host

variable {v : Value} {items : List Value}

theorem elements_of_yields (h : v.Yields items) : elements v = .ok items := by
  cases h <;> rfl

/-- An iterator over a value has the items before it that the value yields. -/
theorem exists_iter_of_yields (h : v.Yields items) :
    ∃ its position, iter v = .ok (.iterator its position) ∧ its.drop position = items := by
  cases h with
  | list items => exact ⟨items, 0, rfl, rfl⟩
  | map entries => exact ⟨_, 0, rfl, rfl⟩
  | str s => exact ⟨_, 0, rfl, rfl⟩
  | iterator items position => exact ⟨items, position, rfl, rfl⟩

theorem len_of_yields (h : v.Yields items) : len v = .ok (countValue items.length) := by
  cases h with
  | list items => rfl
  | map entries => rw [len, List.length_map]
  | str s => rw [len, List.length_map, String.length_toList]
  | iterator items position => rw [len, List.length_drop]

theorem send_listExtend (h : v.Yields items) (xs : List Value) (kwargs : List (String × Value)) :
    Invocation.send ⟨[v], kwargs, some (.list xs)⟩ (.working listExtend)
      = ⟨.ok .none, some (.list (xs ++ items))⟩ := by
  refine Invocation.send_working ?_
  rw [listExtend, lift_bind_of_ok (Invocation.single_singleton ..),
    lift_bind_of_ok (elements_of_yields h),
    Work.view_bind (asList_list xs)]
  rfl

/-- The answers to calls of `next`, one after another: items as long as there are any, and then
exhaustion. -/
def nextAnswers (items : List Value) (calls : Nat) : List (Except HostFault Value) :=
  (items.take calls).map .ok ++ List.replicate (calls - items.length) (.error .exhausted)

theorem nextAnswers_cons (v : Value) (items : List Value) (calls : Nat) :
    nextAnswers (v :: items) (calls + 1) = .ok v :: nextAnswers items calls := by
  simp [nextAnswers]

theorem nextAnswers_nil (calls : Nat) :
    nextAnswers [] calls = List.replicate calls (.error .exhausted) := by
  simp [nextAnswers]

end Host

namespace Registry

open Host (nextAnswers)

/-- Calls a member of a receiver once for each of the arguments, which are positional ones and
others by keyword: the answers, and what the receiver is behind the calls. -/
def callEach? (r : Registry) (member : String) (receiver : Value) :
    List (List Value × List (String × Value)) → Option (List (Except HostFault Value) × Value)
  | [] => some ([], receiver)
  | (args, kwargs) :: rest => do
      let reply ← r.reply? receiver member args kwargs
      let (answers, last) ← callEach? r member (reply.receiver.getD receiver) rest
      return (reply.result :: answers, last)

theorem callEach?_cons {r : Registry} {member : String} {receiver left last : Value}
    {answer : Except HostFault Value} {answers : List (Except HostFault Value)} {args : List Value}
    {kwargs : List (String × Value)} {calls : List (List Value × List (String × Value))}
    (hreply : r.reply? receiver member args kwargs = some ⟨answer, some left⟩)
    (hcalls : r.callEach? member left calls = some (answers, last)) :
    r.callEach? member receiver ((args, kwargs) :: calls) = some (answer :: answers, last) := by
  simp only [callEach?, hreply, Option.bind_eq_bind, Option.bind_some, Option.getD_some, hcalls]
  rfl

variable {items : List Value} {position : Nat} {calls : List (List Value × List (String × Value))}

/-- Calls on a cursor behind its items are all exhausted and leave it where it is. -/
theorem callEach?_next_of_none (h : items[position]? = none) :
    standard.callEach? "next" (.iterator items position) calls
      = some (List.replicate calls.length (.error .exhausted), .iterator items position) := by
  induction calls with
  | nil => rfl
  | cons call calls ih => exact callEach?_cons (congrArg some (Host.send_next_of_none h)) ih

/-- **Calls of `next` take the items before a cursor**, one by one, and leave the others before
it. -/
theorem callEach?_next (items : List Value) (position : Nat)
    (calls : List (List Value × List (String × Value))) :
    ∃ position', standard.callEach? "next" (.iterator items position) calls
        = some (nextAnswers (items.drop position) calls.length, .iterator items position') ∧
      items.drop position' = (items.drop position).drop calls.length := by
  induction calls generalizing position with
  | nil => exact ⟨position, by simp [callEach?, nextAnswers], rfl⟩
  | cons call calls ih =>
      cases h : items[position]? with
      | some v =>
          obtain ⟨hlt, rfl⟩ := List.getElem?_eq_some_iff.1 h
          obtain ⟨position', hcalls, hdrop⟩ := ih (position + 1)
          rw [List.drop_eq_getElem_cons hlt, List.length_cons, Host.nextAnswers_cons,
            List.drop_succ_cons]
          exact ⟨position', callEach?_cons (congrArg some (Host.send_next h)) hcalls, hdrop⟩
      | none =>
          have hbehind : items.drop position = [] :=
            List.drop_eq_nil_of_le (List.getElem?_eq_none_iff.1 h)
          rw [hbehind, Host.nextAnswers_nil, List.drop_nil]
          exact ⟨position, callEach?_next_of_none h, hbehind⟩

/-- A value and the items that it yields, for every callable that iterates, whatever else it is
given. -/
structure Iterates (r : Registry) (v : Value) (items : List Value) : Prop where
  /-- Calls of `next` on an iterator over the value take the items, and are exhausted from then on.
  Behind any number of calls the iterator has the other items, and an iterator that has none is left
  as it is. -/
  next : ∃ it, (∀ kwargs receiver, r.answer? "iter" ⟨[v], kwargs, receiver⟩ = some (.ok it)) ∧
    ∀ calls, ∃ it', r.callEach? "next" it calls = some (nextAnswers items calls.length, it') ∧
      (∀ kwargs receiver,
        r.answer? "list" ⟨[it'], kwargs, receiver⟩ = some (.ok (.list (items.drop calls.length)))) ∧
      (items.length ≤ calls.length → ∀ more,
        r.callEach? "next" it' more = some (List.replicate more.length (.error .exhausted), it')) ∧
      r.resolve "next" = r.resolveMember it' "next"
  list : ∀ kwargs receiver, r.answer? "list" ⟨[v], kwargs, receiver⟩ = some (.ok (.list items))
  extend : ∀ xs kwargs, r.reply? (.list xs) "extend" [v] kwargs =
    some ⟨.ok .none, some (.list (xs ++ items))⟩
  /-- The number of items is exact if it fits a word. -/
  len : ∃ z, (∀ kwargs receiver, r.answer? "len" ⟨[v], kwargs, receiver⟩ = some (.ok (.int z))) ∧
    (items.length < 2 ^ 63 → z.toInt = items.length)

theorem answer?_list_of_yields {v : Value} (h : v.Yields items) (kwargs : List (String × Value))
    (receiver : Option Value) :
    standard.answer? "list" ⟨[v], kwargs, receiver⟩ = some (.ok (.list items)) := by
  show some (Host.elements v >>= fun items => (pure (.list items) : Except HostFault Value)) = _
  rw [Host.elements_of_yields h]
  rfl

/-- **All that iterates over a value goes by what it yields.** -/
theorem iterates_standard {v : Value} (h : v.IsIterable) :
    ∃ items, v.Yields items ∧ standard.Iterates v items := by
  obtain ⟨items, hyields⟩ := h.exists_yields
  refine ⟨items, hyields, ?_⟩
  constructor
  case next =>
    obtain ⟨its, position, hiter, rfl⟩ := Host.exists_iter_of_yields hyields
    refine ⟨.iterator its position, fun kwargs receiver => ?_, fun calls => ?_⟩
    · show some (Host.iter v) = _
      rw [hiter]
    · obtain ⟨position', hcalls, hdrop⟩ := callEach?_next its position calls
      refine ⟨.iterator its position', hcalls, fun kwargs receiver => ?_, fun hall more => ?_, rfl⟩
      · rw [answer?_list_of_yields (.iterator its position'), hdrop]
      · have hnone : its.drop position' = [] := hdrop.trans (List.drop_eq_nil_of_le hall)
        exact callEach?_next_of_none (List.getElem?_eq_none (List.drop_eq_nil_iff.1 hnone))
  case list => exact answer?_list_of_yields hyields
  case extend => exact fun xs kwargs => congrArg some (Host.send_listExtend hyields xs kwargs)
  case len =>
    refine ⟨Int64.ofNat items.length, fun kwargs receiver => ?_, fun hfits => ?_⟩
    · show some (Host.len v) = _
      rw [Host.len_of_yields hyields]
      rfl
    · exact Int64.toInt_ofNat_of_lt hfits

/-- An iterator behind the first of three items yields the other two. -/
theorem iterates_standard_sample :
    (Value.iterator [.int 1, .int 2, .int 3] 1).IsIterable ∧
      (Value.iterator [.int 1, .int 2, .int 3] 1).Yields [.int 2, .int 3] ∧
        standard.Iterates (.iterator [.int 1, .int 2, .int 3] 1) [.int 2, .int 3] := by
  have h : (Value.iterator [.int 1, .int 2, .int 3] 1).IsIterable := by
    simp [Value.IsIterable, Value.valueType]
  obtain ⟨items, hyields, hiterates⟩ := iterates_standard h
  cases hyields
  exact ⟨h, .iterator .., hiterates⟩

end Registry

end CallFlow
