import CallFlow.Engine
import CallFlow.Proofs.Delivery
import CallFlow.Proofs.Receivers

/-!
# A loop that computes map

A composition that maps a function over a list: `iter` makes an iterator of the list, the loop
node `next` takes an item from it or is exhausted, `body` computes a result for the item, which
accumulates in a variadic parameter of `pack`, and behind the loop `pack` makes a list of the
results.  The receiver of `next` is the output of `iter` at first, and then what the visit of
`next` before has left of the iterator.

All states of a run are given by what its cells hold (`State`).  One round through the loop takes
an item from what is left and appends a result to what has accumulated (`steps_round`), and by
induction on the items so do many rounds (`steps_rounds`).  The run ends behind the loop when
there are no more items (`steps_exhausted`), or at the first item for which the function fails
(`steps_failed`), and so it computes `map` (`Engine.maps_of_executeWithin`).
-/

namespace CallFlow

namespace MapLoop

/-! ## The composition -/

/-- Makes an iterator. -/
def iterFunction : Description :=
  { Description.plain ⟨0⟩ "iter" [⟨"iterable", .any, .positional 0, none⟩] with
    implementation := some "iter" }

/-- A method that takes an item from an iterator. -/
def nextFunction : Description :=
  { Description.plain ⟨1⟩ "next" [] with
    receiver := some ⟨"self", .any, .positional 0, none⟩
    selfOutput := some ⟨"self", .any⟩
    implementation := some "next" }

/-- The function that is mapped, by the path of its implementation. -/
def bodyFunction (path : String) : Description :=
  { Description.plain ⟨2⟩ "body" [⟨"item", .any, .positional 0, none⟩] with
    implementation := some path }

/-- Makes a list of its arguments. -/
def packFunction : Description :=
  { Description.plain ⟨3⟩ "pack" [⟨"items", .any, .varPositional, none⟩] with
    implementation := some "pack" }

/-- The call 0 of `iter` leads to the loop node 1, which leads to the call 2 of the function, and
that back to it; behind the loop there is the call 3 of `pack`. -/
def composition : Composition where
  id := ⟨0⟩
  name := "map"
  represents := none
  starts := [⟨0⟩]
  calls := [⟨⟨0⟩, ⟨0⟩, .next ⟨1⟩, none⟩, ⟨⟨1⟩, ⟨1⟩, .loop ⟨2⟩ (some ⟨3⟩), none⟩,
    ⟨⟨2⟩, ⟨2⟩, .next ⟨1⟩, none⟩, ⟨⟨3⟩, ⟨3⟩, .stop, none⟩]
  mappings := [
    ⟨.variable "xs", none, .call ⟨0⟩ (.param 0), none, none⟩,
    ⟨.call ⟨0⟩ .output, none, .call ⟨1⟩ .receiver, none, some ⟨0⟩⟩,
    ⟨.call ⟨1⟩ .selfOutput, none, .call ⟨1⟩ .receiver, none, some ⟨1⟩⟩,
    ⟨.call ⟨1⟩ .output, none, .call ⟨2⟩ (.param 0), none, none⟩,
    ⟨.call ⟨2⟩ .output, none, .call ⟨3⟩ (.param 0), some .append, none⟩,
    ⟨.call ⟨3⟩ .output, none, .variable "out", none, none⟩]

/-- The graph of the composition. -/
def graph (path : String) : Graph :=
  .ofParts "map" [iterFunction, nextFunction, bodyFunction path, packFunction] [composition]

/-- What the function answers to one argument. -/
def answer (f : Callable) (x : Value) : Except HostFault Value := (f ⟨[x], [], none⟩).result

/-! ## States -/

/-- The groups of the composition, with what is authoritative for the receiver of `next`. -/
def targets (authority : Option CallId) : Assoc Slot Target := [
  (.call ⟨0⟩ (.param 0),
    ⟨[(none, [⟨.variable "xs", none, .call ⟨0⟩ (.param 0), none, none⟩])], none⟩),
  (.call ⟨1⟩ .receiver, ⟨[
    (some ⟨0⟩, [⟨.call ⟨0⟩ .output, none, .call ⟨1⟩ .receiver, none, some ⟨0⟩⟩]),
    (some ⟨1⟩, [⟨.call ⟨1⟩ .selfOutput, none, .call ⟨1⟩ .receiver, none, some ⟨1⟩⟩])], authority⟩),
  (.call ⟨2⟩ (.param 0),
    ⟨[(none, [⟨.call ⟨1⟩ .output, none, .call ⟨2⟩ (.param 0), none, none⟩])], none⟩),
  (.variable "out", ⟨[(none, [⟨.call ⟨3⟩ .output, none, .variable "out", none, none⟩])], none⟩)]

theorem nodup_keys_targets (authority : Option CallId) :
    (Assoc.keys (targets authority)).Nodup := by
  have hkeys : Assoc.keys (targets authority) =
      [.call ⟨0⟩ (.param 0), .call ⟨1⟩ .receiver, .call ⟨2⟩ (.param 0), .variable "out"] := rfl
  rw [hkeys]
  decide

/-- The wiring of the composition. -/
def wiring (authority : Option CallId) : Wiring :=
  .ofTargets ⟨0⟩ composition.mappings (targets authority) (nodup_keys_targets authority)

/-- What changes in a run: the cells of the calls in order, the variable `out`, and the
authority. -/
structure State where
  iterable : Cell := {}
  iterator : Cell := {}
  receiver : Cell := {}
  item : Cell := {}
  rest : Cell := {}
  argument : Cell := {}
  result : Cell := {}
  items : Cell := {}
  packed : Cell := {}
  out : Cell := {}
  authority : Option CallId := none

/-- The terminal with other contents. -/
def holding (t : Terminal) (c : Cell) : Terminal := { t with cell := c }

section States

variable (path : String) (checked : Bool) (xs : List Value) (s : State)

/-- The call 0 in a state. -/
def iterCall : AppliedCall :=
  let call := AppliedCall.ofDescription iterFunction (.call ⟨0⟩) (.next ⟨1⟩) none checked
  { call with
    terminals.params := call.terminals.params.map (holding · s.iterable)
    terminals.output := holding call.terminals.output s.iterator }

/-- The call 1 in a state. -/
def nextCall : AppliedCall :=
  let call := AppliedCall.ofDescription nextFunction (.call ⟨1⟩) (.loop ⟨2⟩ (some ⟨3⟩)) none checked
  { call with
    terminals.receiver := call.terminals.receiver.map (holding · s.receiver)
    terminals.output := holding call.terminals.output s.item
    terminals.selfOutput := call.terminals.selfOutput.map (holding · s.rest) }

/-- The call 2 in a state. -/
def bodyCall : AppliedCall :=
  let call := AppliedCall.ofDescription (bodyFunction path) (.call ⟨2⟩) (.next ⟨1⟩) none checked
  { call with
    terminals.params := call.terminals.params.map (holding · s.argument)
    terminals.output := holding call.terminals.output s.result }

/-- The call 3 in a state. -/
def packCall : AppliedCall :=
  let call := AppliedCall.ofDescription packFunction (.call ⟨3⟩) .stop none checked
  { call with
    terminals.params := call.terminals.params.map (holding · s.items)
    terminals.output := holding call.terminals.output s.packed }

/-- The frame in a state of a run over the list. -/
def frame : Frame where
  id := ⟨0⟩
  name := "map"
  represents := none
  start := some ⟨0⟩
  calls := [(⟨0⟩, iterCall checked s), (⟨1⟩, nextCall checked s), (⟨2⟩, bodyCall path checked s),
    (⟨3⟩, packCall checked s)]
  wiring := wiring s.authority
  vars := [("xs", holding (.ofVariable "xs") ⟨.scalar (.list xs), false⟩),
    ("out", holding (.ofVariable "out") s.out)]

/-- The walk in a state of a run over the list. -/
def walk (handles : Assoc CallId Callable) (log : Log) : Walk :=
  { scene := ⟨frame path checked xs s, none⟩, handles, bodies := [], log }

/-- The composition is set up and its variable is bound. -/
theorem bindVariables_eq : ∃ f, Frame.ofGraph (graph path) ⟨0⟩ checked = .ok f ∧
    Engine.bindVariables f.reset [("xs", .list xs)] = .ok (frame path checked xs {}) :=
  ⟨_, rfl, rfl⟩

/-- Nothing is seeded. -/
theorem seed_eq :
    Flow.seed.run ⟨frame path checked xs {}, none⟩ = (.ok (), ⟨frame path checked xs {}, none⟩) :=
  rfl

end States

/-- What the host has under the paths of the four functions, and as the method of iterators. -/
structure Provides (host : Host) (path : String) (f : Callable) : Prop where
  iter : host.resolve "iter" = some (.unary Host.iter)
  next : ∀ items position,
    host.resolveMember (.iterator items position) "next" = some (.working Host.next)
  body : host.resolve path = some f
  pack : host.resolve "pack" = some (.reading fun inv => .ok (.list inv.args))

/-- The standard registry provides them, with the function under a path that the loop does not
need. -/
theorem provides_standard {path : String} (f : Callable) (hiter : path ≠ "iter")
    (hpack : path ≠ "pack") :
    Provides (Registry.standard.register path f).host path f where
  iter := by
    simp only [Registry.host, Registry.resolve, Registry.register, Assoc.find?_insert, if_neg hiter]
    rfl
  next _ _ := rfl
  body := by
    simp only [Registry.host, Registry.resolve, Registry.register, Assoc.find?_insert_self]
  pack := by
    simp only [Registry.host, Registry.resolve, Registry.register, Assoc.find?_insert, if_neg hpack]
    rfl

/-! ## Visits -/

/-- The entry of a visit. -/
def entry (call : CallId) (function : FunctionId) (outcome : Outcome) : TraceEntry :=
  ⟨0, ⟨0⟩, call, function, outcome⟩

/-- The log after visits that are written down as the entries. -/
def logged (log : Log) (entries : List TraceEntry) : Log :=
  entries.foldl (fun log e => (log.visit e.call).record e) log

/-- The receiver of `next` is fed with the iterator over the list at the position. -/
inductive State.Points (xs : List Value) (position : Nat) (s : State) : Prop where
  | first (authority : s.authority = some ⟨0⟩)
      (iterator : s.iterator = ⟨.scalar (.iterator xs position), false⟩)
  | again (authority : s.authority = some ⟨1⟩)
      (rest : s.rest = ⟨.scalar (.iterator xs position), false⟩)

/-- Nothing is kept of calls but their implementations, and these are not kept of methods. -/
structure Kept (f : Callable) (handles : Assoc CallId Callable) : Prop where
  next : Assoc.find? handles ⟨1⟩ = none
  body : ∀ f', Assoc.find? handles ⟨2⟩ = some f' → f' = f
  pack : Assoc.find? handles ⟨3⟩ = none

section Visits

variable {path : String} {checked : Bool} {xs : List Value} {host : Host} {f : Callable}
  {run : Runner}
  {s : State} {handles : Assoc CallId Callable} {log : Log} {position : Nat} {x y : Value}

/-- A single positional argument. -/
theorem arguments_positional (x : Value) (receiver : Option Value) :
    ({ positional := [(0, x)] } : Sorted).arguments receiver = ⟨[x], [], receiver⟩ := by
  simp [Sorted.arguments, Assoc.insertAll]

/-- Collected arguments and nothing else. -/
theorem arguments_items (items : List Value) (receiver : Option Value) :
    ({ items } : Sorted).arguments receiver = ⟨items, [], receiver⟩ := by
  simp [Sorted.arguments, Assoc.insertAll]

/-- After `iter` the receiver of `next` is fed with the iterator at the beginning of the list. -/
def State.begun (xs : List Value) : State :=
  { iterable := ⟨.scalar (.list xs), true⟩, iterator := ⟨.scalar (.iterator xs 0), false⟩
    authority := some ⟨0⟩ }

theorem visit_iter (hhost : Provides host path f) :
    Walk.visit ⟨graph path, host, checked⟩ run 0 ⟨0⟩ (walk path checked xs {} [] log)
      = some (.ok (some ⟨1⟩), walk path checked xs (.begun xs) [(⟨0⟩, .unary Host.iter)]
          (logged log [entry ⟨0⟩ ⟨0⟩ .completed])) := by
  have hingest :
      (Flow.ingestAll ((walk path checked xs {} [] log).scene.frame.wiring.inputSlots ⟨0⟩)).run
      (walk path checked xs {} [] log).scene
        = (.ok (), ⟨frame path checked xs { iterable := ⟨.scalar (.list xs), false⟩ }, none⟩) := by
    cases checked <;> rfl
  have hassemble : (iterCall checked { iterable := ⟨.scalar (.list xs), false⟩ }).terminals.assemble
      iterFunction (.call ⟨0⟩) = (.ok ⟨[.list xs], [], none⟩,
        (iterCall checked { iterable := ⟨.scalar (.list xs), true⟩ }).terminals) := by
    rw [← arguments_positional]
    rfl
  have hbind : (⟨graph path, host, checked⟩ : Context).bind iterFunction (.call ⟨0⟩) none none
      = (.ok (.unary Host.iter), some (.unary Host.iter)) := by
    simp [Context.bind, iterFunction, hhost.iter]
  have hpublish : (iterCall checked { iterable := ⟨.scalar (.list xs), true⟩ }).terminals.publish
      (.iterator xs 0) none = (.ok (), (iterCall checked (.begun xs)).terminals) := by
    cases checked <;> rfl
  have hinvoke : (⟨graph path, host, checked⟩ : Context).invoke iterFunction
      ⟨iterCall checked { iterable := ⟨.scalar (.list xs), false⟩ }, none, none, log.visit ⟨0⟩⟩
      = (.ok (), ⟨iterCall checked (.begun xs), some (.unary Host.iter), none, log.visit ⟨0⟩⟩) :=
    Context.invoke_completed hassemble hbind rfl hpublish
  refine (Walk.visit_eq_of_invoke hingest rfl rfl rfl rfl rfl hinvoke).trans ?_
  cases checked <;> rfl

/-- After `next` its item is published, and its receiver fed with what is left of the iterator. -/
def State.taken (s : State) (xs : List Value) (position : Nat) (x : Value) : State :=
  { s with
    receiver := ⟨.scalar (.iterator xs position), true⟩, item := ⟨.scalar x, false⟩
    rest := ⟨.scalar (.iterator xs (position + 1)), false⟩, authority := some ⟨1⟩ }

/-- The inputs of `next` are ingested. -/
theorem ingest_next (hpoints : s.Points xs position) :
    (Flow.ingestAll ((walk path checked xs s handles log).scene.frame.wiring.inputSlots ⟨1⟩)).run
      (walk path checked xs s handles log).scene = (.ok (), ⟨frame path checked xs
        { s with receiver := ⟨.scalar (.iterator xs position), false⟩ }, none⟩) := by
  obtain ⟨_, _, _, _, _, _, _, _, _, _, _⟩ := s
  cases hpoints with
  | first hauthority hiterator =>
      simp only at hauthority hiterator
      subst hauthority hiterator
      cases checked <;> rfl
  | again hauthority hrest =>
      simp only at hauthority hrest
      subst hauthority hrest
      cases checked <;> rfl

theorem assemble_next : (nextCall checked
    { s with receiver := ⟨.scalar (.iterator xs position), false⟩ }).terminals.assemble nextFunction
      (.call ⟨1⟩)
      = (.ok ⟨[], [], some (.iterator xs position)⟩,
        (nextCall checked
          { s with receiver := ⟨.scalar (.iterator xs position), true⟩ }).terminals) := by
  rw [← arguments_items]
  rfl

theorem bind_next (hhost : Provides host path f) (handle : Option Callable) :
    (⟨graph path, host, checked⟩ : Context).bind nextFunction (.call ⟨1⟩) handle
      (some (.iterator xs position)) = (.ok (.working Host.next), handle) := by
  have hmember : host.resolveMember (.iterator xs position) (memberOf "next")
      = some (.working Host.next) := hhost.next xs position
  simp only [Context.bind, nextFunction, hmember]

/-- A visit of `next` takes the item at the position. -/
theorem visit_next (hhost : Provides host path f) (hkept : Kept f handles)
    (hpoints : s.Points xs position)
    (hx : xs[position]? = some x) :
    Walk.visit ⟨graph path, host, checked⟩ run 0 ⟨1⟩ (walk path checked xs s handles log)
      = some (.ok (some ⟨2⟩), walk path checked xs (s.taken xs position x) handles
          (logged log [entry ⟨1⟩ ⟨1⟩ .completed])) := by
  have hreply : Invocation.send ⟨[], [], some (.iterator xs position)⟩ (.working Host.next)
      = ⟨.ok x, some (.iterator xs (position + 1))⟩ := Host.send_next hx
  have hpublish : (nextCall checked
      { s with receiver := ⟨.scalar (.iterator xs position), true⟩ }).terminals.publish x
        (some (.iterator xs (position + 1)))
      = (.ok (), (nextCall checked (s.taken xs position x)).terminals) := by
    cases checked <;> rfl
  have hinvoke : (⟨graph path, host, checked⟩ : Context).invoke nextFunction
      ⟨nextCall checked { s with receiver := ⟨.scalar (.iterator xs position), false⟩ }, none, none,
        log.visit ⟨1⟩⟩
      = (.ok (), ⟨nextCall checked (s.taken xs position x), none, none, log.visit ⟨1⟩⟩) :=
    Context.invoke_completed assemble_next (bind_next hhost none) hreply hpublish
  refine (Walk.visit_eq_of_invoke (ingest_next hpoints) rfl rfl rfl hkept.next rfl hinvoke).trans ?_
  cases checked <;> rfl

/-- A visit of `next` beyond the list takes nothing but the receiver. -/
theorem visit_next_exhausted (hhost : Provides host path f) (hkept : Kept f handles)
    (hpoints : s.Points xs position) (hnone : xs[position]? = none) :
    Walk.visit ⟨graph path, host, checked⟩ run 0 ⟨1⟩ (walk path checked xs s handles log)
      = some (.ok (some ⟨3⟩), walk path checked xs
          { s with receiver := ⟨.scalar (.iterator xs position), true⟩ } handles
          (logged log [entry ⟨1⟩ ⟨1⟩ .exhausted])) := by
  have hreply : (Invocation.send ⟨[], [], some (.iterator xs position)⟩ (.working Host.next)).result
      = .error .exhausted := congrArg Reply.result (Host.send_next_of_none hnone)
  have hinvoke : (⟨graph path, host, checked⟩ : Context).invoke nextFunction
      ⟨nextCall checked { s with receiver := ⟨.scalar (.iterator xs position), false⟩ }, none, none,
        log.visit ⟨1⟩⟩
      = (.error (.exhausted (.call ⟨1⟩)),
        ⟨nextCall checked { s with receiver := ⟨.scalar (.iterator xs position), true⟩ }, none,
          none,
          log.visit ⟨1⟩⟩) :=
    Context.invoke_exhausted assemble_next (bind_next hhost none) hreply
  refine (Walk.visit_eq_of_invoke (ingest_next hpoints) rfl rfl rfl hkept.next rfl hinvoke).trans ?_
  cases checked <;> rfl

/-- After the function its argument is read, and its result is published and appended. -/
def State.answered (s : State) (x y : Value) : State :=
  { s with argument := ⟨.scalar x, true⟩, result := ⟨.scalar y, false⟩, items := s.items.append y }

/-- The inputs of the function are ingested. -/
theorem ingest_body (hitem : s.item = ⟨.scalar x, false⟩) :
    (Flow.ingestAll ((walk path checked xs s handles log).scene.frame.wiring.inputSlots ⟨2⟩)).run
      (walk path checked xs s handles log).scene = (.ok (), ⟨frame path checked xs
        { s with argument := ⟨.scalar x, false⟩ }, none⟩) := by
  obtain ⟨_, _, _, _, _, _, _, _, _, _, _⟩ := s
  simp only at hitem
  subst hitem
  cases checked <;> rfl

theorem assemble_body :
    (bodyCall path checked { s with argument := ⟨.scalar x, false⟩ }).terminals.assemble
    (bodyFunction path) (.call ⟨2⟩) = (.ok ⟨[x], [], none⟩,
      (bodyCall path checked { s with argument := ⟨.scalar x, true⟩ }).terminals) := by
  rw [← arguments_positional]
  rfl

theorem bind_body (hhost : Provides host path f) (hkept : Kept f handles) :
    (⟨graph path, host, checked⟩ : Context).bind (bodyFunction path) (.call ⟨2⟩)
      (Assoc.find? handles ⟨2⟩) none = (.ok f, some f) := by
  cases hhandle : Assoc.find? handles ⟨2⟩ with
  | none => simp [Context.bind, bodyFunction, hhost.body]
  | some f' =>
      obtain rfl := hkept.body f' hhandle
      simp [Context.bind]

/-- A visit of the function that answers with a value. -/
theorem visit_body (hhost : Provides host path f) (hkept : Kept f handles)
    (hitem : s.item = ⟨.scalar x, false⟩) (hy : answer f x = .ok y) :
    Walk.visit ⟨graph path, host, checked⟩ run 0 ⟨2⟩ (walk path checked xs s handles log)
      = some (.ok (some ⟨1⟩), walk path checked xs (s.answered x y) (Assoc.insert handles ⟨2⟩ f)
          (logged log [entry ⟨2⟩ ⟨2⟩ .completed])) := by
  have hreply : Invocation.send ⟨[x], [], none⟩ f = ⟨.ok y, none⟩ := by
    simp [Invocation.send, ← hy, answer]
  have hpublish :
      (bodyCall path checked { s with argument := ⟨.scalar x, true⟩ }).terminals.publish y none
      = (.ok (), (bodyCall path checked (s.answered x y)).terminals) := by
    cases checked <;> rfl
  have hinvoke : (⟨graph path, host, checked⟩ : Context).invoke (bodyFunction path)
      ⟨bodyCall path checked { s with argument := ⟨.scalar x, false⟩ },
        Assoc.find? handles ⟨2⟩, none,
        log.visit ⟨2⟩⟩
      = (.ok (), ⟨bodyCall path checked (s.answered x y), some f, none, log.visit ⟨2⟩⟩) :=
    Context.invoke_completed assemble_body (bind_body hhost hkept) hreply hpublish
  refine (Walk.visit_eq_of_invoke (ingest_body hitem) rfl rfl rfl rfl rfl hinvoke).trans ?_
  cases checked <;> rfl

/-- The fault of a visit of the function that answers with a fault. -/
def bodyFault (x : Value) : HostFault → RunFault
  | .exhausted => .exhausted (.call ⟨2⟩)
  | fault => .implementationFailure (.call ⟨2⟩) "body" fault.text (Arguments.text ⟨[x], [], none⟩)

theorem bodyFault_eq {fault : HostFault} (hfault : fault ≠ .exhausted) : bodyFault x fault
    = .implementationFailure (.call ⟨2⟩) "body" fault.text (Arguments.text ⟨[x], [], none⟩) := by
  unfold bodyFault
  split
  · exact absurd rfl hfault
  · rfl

/-- A visit of the function that answers with a fault. -/
theorem visit_body_failed {fault : HostFault} (hhost : Provides host path f)
    (hkept : Kept f handles)
    (hitem : s.item = ⟨.scalar x, false⟩) (hx : answer f x = .error fault) :
    ∃ w, Walk.visit ⟨graph path, host, checked⟩ run 0 ⟨2⟩ (walk path checked xs s handles log)
      = some (.error (bodyFault x fault), w) ∧ w.log = logged log [entry ⟨2⟩ ⟨2⟩ .failed] := by
  have hreply : (Invocation.send ⟨[x], [], none⟩ f).result = .error fault := hx
  have hinvoke : ∃ a, (⟨graph path, host, checked⟩ : Context).invoke (bodyFunction path)
      ⟨bodyCall path checked { s with argument := ⟨.scalar x, false⟩ },
        Assoc.find? handles ⟨2⟩, none,
        log.visit ⟨2⟩⟩
      = (.error (bodyFault x fault), a) ∧ a.log = log.visit ⟨2⟩ := by
    by_cases hfault : fault = .exhausted
    · subst hfault
      exact ⟨_, Context.invoke_exhausted assemble_body (bind_body hhost hkept) hreply, rfl⟩
    · rw [bodyFault_eq hfault]
      exact ⟨_, Context.invoke_failed assemble_body (bind_body hhost hkept) hreply hfault, rfl⟩
  obtain ⟨a, hinvoke, hlog⟩ := hinvoke
  have hsuccessor : ∀ iterate after, (bodyCall path checked
      { s with argument := ⟨.scalar x, false⟩ }).successor ≠ .loop iterate after := by
    intro iterate after h
    exact absurd h (by simp [bodyCall, AppliedCall.ofDescription])
  refine ⟨_, (Walk.visit_eq_of_invoke (ingest_body hitem) rfl rfl rfl rfl rfl hinvoke).trans
    (congrArg some (Walk.afterCall_failed hsuccessor)), ?_⟩
  simp only [Walk.record, Walk.keep, hlog]
  rfl

/-- A visit of `pack` makes a list of what has accumulated. -/
theorem visit_pack {ys : List Value} (hhost : Provides host path f) (hkept : Kept f handles)
    (hitems : s.items.Collects ys) :
    Walk.visit ⟨graph path, host, checked⟩ run 0 ⟨3⟩ (walk path checked xs s handles log)
      = some (.ok none, walk path checked xs
          { s with
            items := s.items.consume, packed := ⟨.scalar (.list ys), false⟩
            out := ⟨.scalar (.list ys), false⟩ }
          (Assoc.insert handles ⟨3⟩ (.reading fun inv => .ok (.list inv.args)))
          (logged log [entry ⟨3⟩ ⟨3⟩ .completed])) := by
  have hresolve : ∀ t : Terminal, t.cell = s.items →
      t.resolve packFunction (.call ⟨3⟩) ⟨"items", .any, .varPositional, none⟩ =
        .ok (.list ys) := by
    intro t ht
    rw [Terminal.resolve_of_collects (ht ▸ hitems), Param.collected]
    cases ys <;> rfl
  have hall : (packCall checked s).terminals.resolveAll packFunction (.call ⟨3⟩) =
      .ok ([.list ys], none) := by
    unfold Terminals.resolveAll
    change (List.mapM _ [(_, holding _ s.items)] >>= _) = _
    simp only [List.mapM_cons, List.mapM_nil]
    rw [hresolve _ (by rfl)]
    rfl
  have hassemble : (packCall checked s).terminals.assemble packFunction (.call ⟨3⟩)
      = (.ok ⟨ys, [], none⟩, (packCall checked { s with items := s.items.consume }).terminals) := by
    rw [Terminals.assemble, hall, ← arguments_items]
    rfl
  have hbind : (⟨graph path, host, checked⟩ : Context).bind packFunction (.call ⟨3⟩) none none
      = (.ok (.reading fun inv => .ok (.list inv.args)),
        some (.reading fun inv => .ok (.list inv.args))) := by
    simp [Context.bind, packFunction, hhost.pack]
  have hpublish :
      (packCall checked { s with items := s.items.consume }).terminals.publish (.list ys) none
      = (.ok (), (packCall checked
        { s with items := s.items.consume, packed := ⟨.scalar (.list ys), false⟩ }).terminals) := by
    cases checked <;> rfl
  have hinvoke : (⟨graph path, host, checked⟩ : Context).invoke packFunction
      ⟨packCall checked s, none, none, log.visit ⟨3⟩⟩
      = (.ok (), ⟨packCall checked
        { s with items := s.items.consume, packed := ⟨.scalar (.list ys), false⟩ },
        some (.reading fun inv => .ok (.list inv.args)), none, log.visit ⟨3⟩⟩) :=
    Context.invoke_completed hassemble hbind rfl hpublish
  refine (Walk.visit_eq_of_invoke (s := (walk path checked xs s handles log).scene) ?_ rfl rfl
    rfl hkept.pack
    rfl hinvoke).trans ?_
  · cases checked <;> rfl
  · cases checked <;> rfl

end Visits

/-! ## Rounds -/

/-- The entries of rounds through the loop. -/
def rounds (n : Nat) : List TraceEntry :=
  (List.replicate n [entry ⟨1⟩ ⟨1⟩ .completed, entry ⟨2⟩ ⟨2⟩ .completed]).flatten

theorem rounds_succ (n : Nat) :
    rounds (n + 1) = [entry ⟨1⟩ ⟨1⟩ .completed, entry ⟨2⟩ ⟨2⟩ .completed] ++ rounds n := by
  simp [rounds, List.replicate_succ]

theorem map_call_rounds (n : Nat) :
    (rounds n).map (·.call) = (List.replicate n [⟨1⟩, ⟨2⟩]).flatten := by
  simp [rounds, entry]

@[simp] theorem logged_logged (log : Log) (entries entries' : List TraceEntry) :
    logged (logged log entries) entries' = logged log (entries ++ entries') := by
  simp [logged]

theorem visits_logged (log : Log) (entries : List TraceEntry) :
    (logged log entries).visits = (entries.map (·.call)).reverse ++ log.visits := by
  induction entries generalizing log with
  | nil => rfl
  | cons e rest ih =>
      have hrest : logged log (e :: rest) = logged ((log.visit e.call).record e) rest := rfl
      rw [hrest, ih]
      simp [Log.record, Log.visit]

theorem trace_logged (log : Log) (entries : List TraceEntry) :
    (logged log entries).trace = log.trace.map (entries.reverse ++ ·) := by
  induction entries generalizing log with
  | nil => simp [logged]
  | cons e rest ih =>
      have hrest : logged log (e :: rest) = logged ((log.visit e.call).record e) rest := rfl
      rw [hrest, ih]
      cases hlog : log.trace <;> simp [Log.record, Log.visit, hlog]

/-- The function answers the values to the items, each to its own. -/
abbrev Answers (f : Callable) : List Value → List Value → Prop :=
  List.Forall₂ fun x y => answer f x = .ok y

/-- The function answers to all items, or there is a first one for which it fails. -/
theorem answers_or_fails (f : Callable) (xs : List Value) : (∃ ys, Answers f xs ys) ∨
    ∃ done ys x rest fault, xs = done ++ x :: rest ∧ Answers f done ys ∧
      answer f x = .error fault := by
  induction xs with
  | nil => exact .inl ⟨[], .nil⟩
  | cons x xs ih =>
      cases hx : answer f x with
      | error fault => exact .inr ⟨[], [], x, xs, fault, rfl, .nil, hx⟩
      | ok y =>
          rcases ih with ⟨ys, hys⟩ | ⟨done, ys, x', rest, fault, rfl, hys, hfault⟩
          · exact .inl ⟨y :: ys, .cons hx hys⟩
          · exact .inr ⟨x :: done, y :: ys, x', rest, fault, rfl, .cons hx hys, hfault⟩

section Rounds

variable {path : String} {checked : Bool} {xs : List Value} {host : Host} {f : Callable} {s : State}
  {handles : Assoc CallId Callable} {log : Log} {position : Nat} {x y : Value}

/-- What is kept stays so when the implementation of the function is kept. -/
theorem Kept.insert_body (h : Kept f handles) : Kept f (Assoc.insert handles ⟨2⟩ f) where
  next := by
    rw [Assoc.find?_insert, if_neg (by decide)]
    exact h.next
  body f' hf' := by
    rw [Assoc.find?_insert_self] at hf'
    exact (Option.some.inj hf').symm
  pack := by
    rw [Assoc.find?_insert, if_neg (by decide)]
    exact h.pack

/-- A round takes the item at the position, and its result accumulates. -/
theorem steps_round {fuel : Nat} (hhost : Provides host path f) (hkept : Kept f handles)
    (hpoints : s.Points xs position) (hx : xs[position]? = some x) (hy : answer f x = .ok y) :
    Walk.steps ⟨graph path, host, checked⟩ (fuel + 2) 0 (some ⟨1⟩)
      (walk path checked xs s handles log)
      = Walk.steps ⟨graph path, host, checked⟩ fuel 0 (some ⟨1⟩)
          (walk path checked xs ((s.taken xs position x).answered x y) (Assoc.insert handles ⟨2⟩ f)
            (logged log [entry ⟨1⟩ ⟨1⟩ .completed, entry ⟨2⟩ ⟨2⟩ .completed])) := by
  rw [Walk.steps, visit_next hhost hkept hpoints hx]
  simp only
  rw [Walk.steps, visit_body hhost hkept rfl hy]
  simp

variable (checked log)

/-- **Rounds through the loop compute the function on the items in order.**  By induction on the
items that are done, the next round taking the first of what is left of the list. -/
theorem steps_rounds (hhost : Provides host path f) {done rest ys before : List Value}
    (hdone : Answers f done ys) (hleft : xs.drop position = done ++ rest) (hkept : Kept f handles)
    (hpoints : s.Points xs position) (hitems : s.items.Collects before) :
    ∃ s' handles', s'.Points xs (position + done.length) ∧ Kept f handles' ∧
      s'.items.Collects (before ++ ys) ∧ ∀ fuel,
      Walk.steps ⟨graph path, host, checked⟩ (fuel + 2 * done.length) 0 (some ⟨1⟩)
          (walk path checked xs s handles log)
        = Walk.steps ⟨graph path, host, checked⟩ fuel 0 (some ⟨1⟩)
          (walk path checked xs s' handles' (logged log (rounds done.length))) := by
  induction hdone generalizing position s handles log before with
  | nil => exact ⟨s, handles, hpoints, hkept, by simpa using hitems, fun _ => rfl⟩
  | @cons x y done ys hy hdone ih =>
      have hx : xs[position]? = some x := by
        rw [← List.head?_drop, hleft]
        rfl
      have hleft' : xs.drop (position + 1) = done ++ rest := by
        rw [← List.drop_drop, hleft]
        rfl
      have hpoints' : ((s.taken xs position x).answered x y).Points xs (position + 1) :=
        .again rfl rfl
      obtain ⟨s', handles', hpoints', hkept', hitems', hsteps⟩ :=
        ih (logged log [entry ⟨1⟩ ⟨1⟩ .completed,
        entry ⟨2⟩ ⟨2⟩ .completed]) hleft' hkept.insert_body hpoints' (hitems.append y)
      refine ⟨s', handles', ?_, hkept', by simpa using hitems', fun fuel => ?_⟩
      · rw [List.length_cons, Nat.add_comm done.length, ← Nat.add_assoc]
        exact hpoints'
      · have hfuel : fuel + 2 * (x :: done).length = fuel + 2 * done.length + 2 := by
          simp only [List.length_cons]
          omega
        rw [hfuel, steps_round hhost hkept hpoints hx hy, hsteps, logged_logged, List.length_cons,
          rounds_succ]

/-- Beyond the list the loop is left, and the results become the list. -/
theorem steps_exhausted (fuel : Nat) {ys : List Value} (hhost : Provides host path f)
    (hkept : Kept f handles)
    (hpoints : s.Points xs position) (hnone : xs[position]? = none) (hitems : s.items.Collects ys) :
    ∃ w, Walk.steps ⟨graph path, host, checked⟩ (fuel + 2) 0 (some ⟨1⟩)
      (walk path checked xs s handles log)
        = some (.ok (), w) ∧
      Assoc.mapValues Engine.shown w.scene.frame.vars = [("xs", .list xs), ("out", .list ys)] ∧
      w.scene.boundary = none ∧
      w.log = logged log [entry ⟨1⟩ ⟨1⟩ .exhausted, entry ⟨3⟩ ⟨3⟩ .completed] := by
  rw [Walk.steps, visit_next_exhausted hhost hkept hpoints hnone]
  simp only
  rw [Walk.steps,
    visit_pack (s := { s with receiver := ⟨.scalar (.iterator xs position), true⟩ }) hhost hkept
    hitems]
  simp only [Walk.steps, logged_logged]
  exact ⟨_, rfl, rfl, rfl, rfl⟩

/-- An item for which the function fails ends the walk. -/
theorem steps_failed (fuel : Nat) {fault : HostFault} (hhost : Provides host path f)
    (hkept : Kept f handles)
    (hpoints : s.Points xs position) (hx : xs[position]? = some x)
    (hfault : answer f x = .error fault) :
    ∃ w, Walk.steps ⟨graph path, host, checked⟩ (fuel + 2) 0 (some ⟨1⟩)
      (walk path checked xs s handles log)
        = some (.error (bodyFault x fault), w) ∧
      w.log = logged log [entry ⟨1⟩ ⟨1⟩ .completed, entry ⟨2⟩ ⟨2⟩ .failed] := by
  obtain ⟨w, hvisit, hlog⟩ : ∃ w, Walk.visit ⟨graph path, host, checked⟩
      (Walk.runner (Walk.steps ⟨graph path, host, checked⟩ fuel)) 0 ⟨2⟩
      (walk path checked xs (s.taken xs position x) handles (logged log [entry ⟨1⟩ ⟨1⟩ .completed]))
      = some (.error (bodyFault x fault), w) ∧
      w.log = logged (logged log [entry ⟨1⟩ ⟨1⟩ .completed]) [entry ⟨2⟩ ⟨2⟩ .failed] :=
    visit_body_failed hhost hkept rfl hfault
  rw [Walk.steps, visit_next hhost hkept hpoints hx]
  simp only
  rw [Walk.steps, hvisit]
  exact ⟨w, rfl, by simp [hlog]⟩

end Rounds

end MapLoop

namespace Engine

open MapLoop

/-- The variables are bound and nothing is seeded, so that a run is a walk from the state without
contents. -/
theorem executeWithin_eq_steps {e : Engine} {path : String} {host : Host} {checked : Bool}
    {xs : List Value}
    {fuel : Nat} {r : Except RunFault Unit} {w : Walk}
    (hcontext : e.context = ⟨graph path, host, checked⟩)
    (hsteps : Walk.steps ⟨graph path, host, checked⟩ fuel 0 (some ⟨0⟩)
      (walk path checked xs {} [] (Log.start e.tracing)) = some (r, w))
    (hboundary : r = .ok () → w.scene.boundary = none) :
    ∃ e', e.executeWithin fuel (.composition ⟨0⟩) [("xs", .list xs)]
        = some (e'.escaped (r.map fun _ => Assoc.mapValues shown w.scene.frame.vars), e') ∧
        e'.log = w.log := by
  obtain ⟨context, tracing, log, last⟩ := e
  simp only at hcontext hsteps
  subst hcontext
  have hrun : Walk.run ⟨graph path, host, checked⟩ fuel 0
      (Walk.begin (.mk (frame path checked xs {}) [] []) none (Log.start tracing)) =
      some (r, w) := by
    have hseed : (walk path checked xs {} [] (Log.start tracing)).flow Flow.seed
        = (.ok (), walk path checked xs {} [] (Log.start tracing)) := by
      simp only [Walk.flow, walk, seed_eq]
    have hstart : (walk path checked xs {} [] (Log.start tracing)).scene.frame.start = some ⟨0⟩ :=
      rfl
    change Walk.around _ (walk path checked xs {} [] (Log.start tracing)) = _
    simp only [Walk.around, hseed, hstart, hsteps]
    cases r with
    | error fault => rfl
    | ok _ => simp only [hboundary rfl]
  obtain ⟨f, hf, hbind⟩ := bindVariables_eq path checked xs
  have hcomposition : (graph path).composition ⟨0⟩ = .ok composition := rfl
  have hrepresents : composition.represents = none := rfl
  refine ⟨⟨⟨graph path, host, checked⟩, tracing, w.log, some (.standalone w.toInstance)⟩, ?_, rfl⟩
  simp only [executeWithin, runTarget, hcomposition, hrepresents, runStandalone, hf, hbind, hrun]

section Run

variable {e : Engine} {path : String} {host : Host} {f : Callable} {checked : Bool}
  {xs : List Value} {fuel : Nat}

/-- A walk begins with the visit of `iter`, and goes through the loop for the items that are
done. -/
theorem steps_start (checked : Bool) (log : Log) (hhost : Provides host path f)
    {done rest ys : List Value}
    (hxs : xs = done ++ rest) (hdone : Answers f done ys) :
    ∃ s handles, s.Points xs done.length ∧ Kept f handles ∧ s.items.Collects ys ∧ ∀ fuel,
      Walk.steps ⟨graph path, host, checked⟩ (fuel + 2 * done.length + 1) 0 (some ⟨0⟩)
          (walk path checked xs {} [] log)
        = Walk.steps ⟨graph path, host, checked⟩ fuel 0 (some ⟨1⟩)
          (walk path checked xs s handles
            (logged log (entry ⟨0⟩ ⟨0⟩ .completed :: rounds done.length))) := by
  have hkept : Kept f [(⟨0⟩, .unary Host.iter)] :=
    ⟨rfl, fun _ h => absurd h (by simp [Assoc.find?]), rfl⟩
  have hpoints : (State.begun xs).Points xs 0 := .first rfl rfl
  obtain ⟨s, handles, hpoints, hkept, hitems, hsteps⟩ := steps_rounds checked
    (logged log [entry ⟨0⟩ ⟨0⟩ .completed]) hhost hdone (by simpa using hxs) hkept hpoints
    (.nothing rfl)
  refine ⟨s, handles, by simpa using hpoints, hkept, by simpa using hitems, fun fuel => ?_⟩
  rw [Walk.steps, visit_iter hhost]
  simp only
  rw [hsteps, logged_logged, List.singleton_append]

theorem executeWithin_of_answers (hcontext : e.context = ⟨graph path, host, checked⟩)
    (hhost : Provides host path f) {ys : List Value} (hys : Answers f xs ys)
    (hfuel : 2 * xs.length + 3 ≤ fuel) :
    ∃ e', e.executeWithin fuel (.composition ⟨0⟩) [("xs", .list xs)]
        = some (.ok [("xs", .list xs), ("out", .list ys)], e') ∧
      e'.log = logged (Log.start e.tracing) (entry ⟨0⟩ ⟨0⟩ .completed :: (rounds xs.length ++
        [entry ⟨1⟩ ⟨1⟩ .exhausted, entry ⟨3⟩ ⟨3⟩ .completed])) := by
  obtain ⟨s, handles, hpoints, hkept, hitems, hsteps⟩ :=
    steps_start checked (Log.start e.tracing) hhost
    (List.append_nil xs).symm hys
  obtain ⟨extra, rfl⟩ := Nat.exists_eq_add_of_le' hfuel
  obtain ⟨w, hexhausted, hvars, hboundary, hlog⟩ :=
    steps_exhausted checked _ extra hhost hkept hpoints
    (by simp) hitems
  have hfuel : extra + (2 * xs.length + 3) = extra + 2 + 2 * xs.length + 1 := by omega
  rw [hfuel]
  obtain ⟨e', hexecute, hlog'⟩ := executeWithin_eq_steps hcontext ((hsteps _).trans hexhausted)
    fun _ => hboundary
  refine ⟨e', hexecute.trans ?_, hlog'.trans (hlog.trans (by simp))⟩
  rw [Except.map, hvars]
  rfl

theorem executeWithin_of_fails (hcontext : e.context = ⟨graph path, host, checked⟩)
    (hhost : Provides host path f) {done ys rest : List Value} {x : Value} {fault : HostFault}
    (hxs : xs = done ++ x :: rest) (hys : Answers f done ys) (hfault : answer f x = .error fault)
    (hfuel : 2 * done.length + 3 ≤ fuel) :
    ∃ e', e.executeWithin fuel (.composition ⟨0⟩) [("xs", .list xs)]
        = some (e'.escaped (.error (bodyFault x fault)), e') ∧
      e'.log = logged (Log.start e.tracing) (entry ⟨0⟩ ⟨0⟩ .completed :: (rounds done.length ++
        [entry ⟨1⟩ ⟨1⟩ .completed, entry ⟨2⟩ ⟨2⟩ .failed])) := by
  obtain ⟨s, handles, hpoints, hkept, -, hsteps⟩ :=
    steps_start checked (Log.start e.tracing) hhost hxs
    hys
  obtain ⟨extra, rfl⟩ := Nat.exists_eq_add_of_le' hfuel
  obtain ⟨w, hfailed, hlog⟩ :=
    steps_failed checked _ extra hhost hkept hpoints (by simp [hxs]) hfault
  have hfuel : extra + (2 * done.length + 3) = extra + 2 + 2 * done.length + 1 := by omega
  rw [hfuel]
  obtain ⟨e', hexecute, hlog'⟩ := executeWithin_eq_steps hcontext ((hsteps _).trans hfailed)
    fun h => absurd h (by simp)
  exact ⟨e', hexecute, hlog'.trans (hlog.trans (by simp))⟩

end Run

/-- The visits of a run that has written down the entries, and next its trace. -/
theorem visits_of_log {e e' : Engine} {entries : List TraceEntry}
    (h : e'.log = logged (Log.start e.tracing) entries) : e'.visits = entries.map (·.call) := by
  rw [visits, h, visits_logged]
  simp [Log.start]

theorem trace?_of_log {e e' : Engine} {entries : List TraceEntry} (htracing : e.tracing = true)
    (h : e'.log = logged (Log.start e.tracing) entries) : e'.trace? = some entries := by
  rw [trace?, h, trace_logged]
  simp [Log.start, htracing]

/-- **The loop computes `map`.**  With any function under a path of its own and on any list the run
ends.  If the function answers to all items then the results are the list of its answers, after as
many rounds as there are items, and otherwise the run fails at the first item for which the function
fails, with its fault, and the rounds before are completed. -/
theorem maps_of_executeWithin {e : Engine} {path : String} {f : Callable} {checked : Bool}
    {xs : List Value}
    {fuel : Nat}
    (hcontext : e.context = ⟨graph path, (Registry.standard.register path f).host, checked⟩)
    (hiter : path ≠ "iter") (hpack : path ≠ "pack") (hfuel : 2 * xs.length + 3 ≤ fuel) :
    ∃ r e', e.executeWithin fuel (.composition ⟨0⟩) [("xs", .list xs)] = some (r, e') ∧
      (∀ ys, Answers f xs ys →
        r = .ok [("xs", .list xs), ("out", .list ys)] ∧
        e'.visits = ⟨0⟩ :: ((List.replicate xs.length [⟨1⟩, ⟨2⟩]).flatten ++ [⟨1⟩, ⟨3⟩]) ∧
        (e.tracing = true → e'.trace? = some (entry ⟨0⟩ ⟨0⟩ .completed :: (rounds xs.length ++
          [entry ⟨1⟩ ⟨1⟩ .exhausted, entry ⟨3⟩ ⟨3⟩ .completed])))) ∧
      ∀ done ys x rest fault, xs = done ++ x :: rest → Answers f done ys →
        answer f x = .error fault →
        fault ≠ .exhausted →
        r = .error (.implementationFailure (.call ⟨2⟩) "body" fault.text
          (Arguments.text ⟨[x], [], none⟩)) ∧
        e'.visits = ⟨0⟩ :: ((List.replicate done.length [⟨1⟩, ⟨2⟩]).flatten ++ [⟨1⟩, ⟨2⟩]) ∧
        (e.tracing = true → e'.trace? = some (entry ⟨0⟩ ⟨0⟩ .completed :: (rounds done.length ++
          [entry ⟨1⟩ ⟨1⟩ .completed, entry ⟨2⟩ ⟨2⟩ .failed]))) := by
  have hhost : Provides (Registry.standard.register path f).host path f :=
    provides_standard f hiter hpack
  -- a run has one result, which is that of each of the two lemmas where its items are as that
  -- needs them
  have hend :
      ∃ r e', e.executeWithin fuel (.composition ⟨0⟩) [("xs", .list xs)] = some (r, e') := by
    rcases answers_or_fails f xs with ⟨ys, hys⟩ | ⟨done, ys, x, rest, fault, hxs, hys, hfault⟩
    · obtain ⟨e', hexecute, -⟩ := executeWithin_of_answers hcontext hhost hys hfuel
      exact ⟨_, e', hexecute⟩
    · have hfuel : 2 * done.length + 3 ≤ fuel := by
        have hlength : xs.length = done.length + (rest.length + 1) := by simp [hxs]
        omega
      obtain ⟨e', hexecute, -⟩ := executeWithin_of_fails hcontext hhost hxs hys hfault hfuel
      exact ⟨_, e', hexecute⟩
  obtain ⟨r, e', hexecute⟩ := hend
  refine ⟨r, e', hexecute, ?_, ?_⟩
  · intro ys hys
    obtain ⟨e'', hexecute', hlog⟩ := executeWithin_of_answers hcontext hhost hys hfuel
    obtain ⟨rfl, rfl⟩ := Prod.mk.inj (Option.some.inj (hexecute.symm.trans hexecute'))
    refine ⟨rfl, ?_, fun htracing => ?_⟩
    · rw [visits_of_log hlog]
      simp [map_call_rounds, entry]
    · exact trace?_of_log htracing hlog
  · intro done ys x rest fault hxs hys hfault hne
    have hfuel : 2 * done.length + 3 ≤ fuel := by
      have hlength : xs.length = done.length + (rest.length + 1) := by simp [hxs]
      omega
    obtain ⟨e'', hexecute', hlog⟩ := executeWithin_of_fails hcontext hhost hxs hys hfault hfuel
    obtain ⟨rfl, rfl⟩ := Prod.mk.inj (Option.some.inj (hexecute.symm.trans hexecute'))
    refine ⟨?_, ?_, fun htracing => ?_⟩
    · rw [bodyFault_eq hne]
      rfl
    · rw [visits_of_log hlog]
      simp [map_call_rounds, entry]
    · exact trace?_of_log htracing hlog

end Engine

/-! ### Negation on a list -/

namespace Sample

/-- Negates a truth value. -/
def negate : Callable := .unary fun
  | .bool b => .ok (.bool !b)
  | v => .error (.type "bool" v)

/-- An engine for the loop that negates. -/
def negating : Engine :=
  .new (MapLoop.graph "negate") (Registry.standard.register "negate" negate).host
    { tracing := true }

end Sample

/-- Two items are negated in two rounds; a third that is no truth value fails. -/
theorem Engine.maps_of_executeWithin_sample :
    (∃ e',
      Sample.negating.executeWithin 9 (.composition ⟨0⟩) [("xs", .list [.bool true, .bool false])]
        = some (.ok [("xs", .list [.bool true, .bool false]),
          ("out", .list [.bool false, .bool true])], e') ∧
      e'.visits = [⟨0⟩, ⟨1⟩, ⟨2⟩, ⟨1⟩, ⟨2⟩, ⟨1⟩, ⟨3⟩]) ∧
    ∃ e', Sample.negating.executeWithin 9 (.composition ⟨0⟩)
      [("xs", .list [.bool true, .none, .bool false])]
        = some (.error (.implementationFailure (.call ⟨2⟩) "body" (HostFault.type "bool" .none).text
          (Arguments.text ⟨[.none], [], none⟩)), e') ∧
      e'.visits = [⟨0⟩, ⟨1⟩, ⟨2⟩, ⟨1⟩, ⟨2⟩] := by
  have hiter : "negate" ≠ "iter" := by decide
  have hpack : "negate" ≠ "pack" := by decide
  constructor
  · obtain ⟨r, e', hexecute, hmaps, -⟩ : ∃ r e', Sample.negating.executeWithin 9 (.composition ⟨0⟩)
        [("xs", .list [.bool true, .bool false])] = some (r, e') ∧ _ ∧ _ :=
      maps_of_executeWithin rfl hiter hpack (by decide)
    obtain ⟨rfl, hvisits, -⟩ := hmaps [.bool false, .bool true] (.cons rfl (.cons rfl .nil))
    exact ⟨e', hexecute, hvisits⟩
  · obtain ⟨r, e', hexecute, -, hfails⟩ : ∃ r e', Sample.negating.executeWithin 9 (.composition ⟨0⟩)
        [("xs", .list [.bool true, .none, .bool false])] = some (r, e') ∧ _ ∧ _ :=
      maps_of_executeWithin rfl hiter hpack (by decide)
    obtain ⟨rfl, hvisits, -⟩ :=
      hfails [.bool true] [.bool false] .none [.bool false] _ rfl (.cons rfl .nil)
      rfl (by simp)
    exact ⟨e', hexecute, hvisits⟩

end CallFlow
