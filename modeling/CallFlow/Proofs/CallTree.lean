import CallFlow.Proofs.Stages

/-!
# The tree of visits

A run writes down its visits twice: the calls when their visits begin, and the traced entries when
they end.  Both list one forest (`Log.Grows`), the first before and the second behind the visits
that a visit has below it, which are those of the body that it ran (`VisitTree.Fits`).  A visit
that fails or is exhausted still ends, and so does every visit around it; only a visit of a call
that does not exist is begun and never ends.  This is shown by induction on the fuel, for runs of
bodies along with the walk around them, and then of whole executions
(`Engine.lists_tree_of_executeWithin`).
-/

namespace CallFlow

/-! ## Trees -/

/-- A visit that has ended, with the visits of the body that it ran, in order. -/
inductive VisitTree where
  | node (entry : TraceEntry) (nested : List VisitTree)

namespace VisitTree

mutual

/-- The visits of a tree, in the order in which they begin. -/
def preorder : VisitTree → List TraceEntry
  | node entry nested => entry :: preorders nested

/-- The visits of a forest, in the order in which they begin. -/
def preorders : List VisitTree → List TraceEntry
  | [] => []
  | t :: rest => t.preorder ++ preorders rest

end

mutual

/-- The visits of a tree, in the order in which they end. -/
def postorder : VisitTree → List TraceEntry
  | node entry nested => postorders nested ++ [entry]

/-- The visits of a forest, in the order in which they end. -/
def postorders : List VisitTree → List TraceEntry
  | [] => []
  | t :: rest => t.postorder ++ postorders rest

end

@[simp] theorem preorders_append (ts ts' : List VisitTree) :
    preorders (ts ++ ts') = preorders ts ++ preorders ts' := by
  induction ts with
  | nil => rfl
  | cons t rest ih => simp [preorders, ih]

@[simp] theorem postorders_append (ts ts' : List VisitTree) :
    postorders (ts ++ ts') = postorders ts ++ postorders ts' := by
  induction ts with
  | nil => rfl
  | cons t rest ih => simp [postorders, ih]

mutual

/-- Both orders list the same visits. -/
theorem postorder_perm : (t : VisitTree) → t.postorder.Perm t.preorder
  | node entry nested => by
      rw [postorder, preorder]
      exact (List.perm_append_comm).trans ((postorders_perm nested).cons entry)

theorem postorders_perm : (ts : List VisitTree) → (postorders ts).Perm (preorders ts)
  | [] => .nil
  | t :: rest => by
      rw [postorders, preorders]
      exact t.postorder_perm.append (postorders_perm rest)

end

end VisitTree

/-- The visit is one in a composition of the graph, with the number of bodies around it: it visits a
call of the composition for the function that this calls, and it is exhausted only if the call is a
loop node. -/
structure TraceEntry.VisitsIn (g : Graph) (depth : Nat) (id : CompositionId)
    (e : TraceEntry) : Prop where
  depth : e.depth = depth
  composition : e.composition = id
  declared : ∃ c decl d, g.composition id = .ok c ∧ c.applied? e.call = some decl ∧
    g.function decl.function = .ok d ∧ e.function = d.id ∧
    (e.outcome = .exhausted → decl.successor.isLoop = true)

/-- The tree is one of visits in a composition, with the number of bodies around its root: the
visits below a visit are, one body deeper, in the composition that is the body of its function. -/
inductive VisitTree.Fits (g : Graph) : Nat → CompositionId → VisitTree → Prop where
  | leaf {depth : Nat} {id : CompositionId} {e : TraceEntry} (visits : e.VisitsIn g depth id) :
      Fits g depth id (.node e [])
  | nested {depth : Nat} {id bodyId : CompositionId} {e : TraceEntry} {ts : List VisitTree}
      {d : Description} (visits : e.VisitsIn g depth id) (function : g.function e.function = .ok d)
      (hasBody : d.body = some bodyId) (fits : ∀ t ∈ ts, Fits g (depth + 1) bodyId t) :
      Fits g depth id (.node e ts)

/-! ## What is written down -/

namespace Log

/-- Between the two logs the visits of the forest were written down. -/
structure Grows (l l' : Log) (forest : List VisitTree) : Prop where
  visits : l'.visits = ((VisitTree.preorders forest).map (·.call)).reverse ++ l.visits
  trace : l'.trace = l.trace.map ((VisitTree.postorders forest).reverse ++ ·)

variable {l l' l'' : Log} {forest forest' : List VisitTree} {e : TraceEntry}

theorem Grows.refl (l : Log) : l.Grows l [] :=
  ⟨rfl, by simp [VisitTree.postorders]⟩

theorem Grows.trans (h : l.Grows l' forest) (h' : l'.Grows l'' forest') :
    l.Grows l'' (forest ++ forest') := by
  constructor
  · rw [h'.visits, h.visits]
    simp
  · rw [h'.trace, h.trace, Option.map_map]
    congr 1
    funext t
    simp

/-- A visit is written down before and behind the visits below it. -/
theorem Grows.node (h : (l.visit e.call).Grows l' forest) :
    l.Grows (l'.record e) [.node e forest] := by
  have hvisits := h.visits
  have htrace := h.trace
  constructor
  · show l'.visits = _
    rw [hvisits]
    simp [visit, VisitTree.preorders, VisitTree.preorder]
  · show l'.trace.map (e :: ·) = _
    rw [htrace, Option.map_map]
    simp only [VisitTree.postorders, VisitTree.postorder, List.append_nil, List.reverse_append]
    rfl

/-- Between the two logs a forest of visits in a composition was written down. -/
def Lists (g : Graph) (depth : Nat) (id : CompositionId) (l l' : Log) : Prop :=
  ∃ forest, l.Grows l' forest ∧ ∀ t ∈ forest, t.Fits g depth id

variable {g : Graph} {depth : Nat} {id : CompositionId}

theorem Lists.refl (l : Log) : l.Lists g depth id l := ⟨[], .refl l, by simp⟩

theorem Lists.trans (h : l.Lists g depth id l') (h' : l'.Lists g depth id l'') :
    l.Lists g depth id l'' := by
  obtain ⟨forest, hgrows, hfits⟩ := h
  obtain ⟨forest', hgrows', hfits'⟩ := h'
  refine ⟨forest ++ forest', hgrows.trans hgrows', ?_⟩
  intro t ht
  rcases List.mem_append.1 ht with ht | ht
  · exact hfits t ht
  · exact hfits' t ht

/-- What the body of a visit wrote down: nothing if none was run, else visits in the body, one body
deeper. -/
def ListsBody (g : Graph) (depth : Nat) (function : FunctionId) (l l' : Log) : Prop :=
  l' = l ∨ ∃ d id, g.function function = .ok d ∧ d.body = some id ∧ l.Lists g (depth + 1) id l'

/-- A visit lists a tree, if the body that it runs lists a forest. -/
theorem ListsBody.visited (h : (l.visit e.call).ListsBody g depth e.function l')
    (he : e.VisitsIn g depth id) : l.Lists g depth id (l'.record e) := by
  rcases h with rfl | ⟨d, bodyId, hd, hbody, forest, hgrows, hfits⟩
  · exact ⟨_, (Grows.refl _).node, by simpa using .leaf he⟩
  · exact ⟨_, hgrows.node, by simpa using .nested he hd hbody hfits⟩

end Log

/-- No call was missing: the result is not the fault of a visit that begins and never ends. -/
def NoCallMissing {α : Type} (r : Except RunFault α) : Prop :=
  ∀ id call, r ≠ .error (.graph (.callNotFound id call))

theorem NoCallMissing.of_ok {α : Type} (a : α) : NoCallMissing (.ok a : Except RunFault α) := by
  intro id call h
  exact absurd h (by simp)

theorem NoCallMissing.of_map {α β : Type} {f : α → β} {r : Except RunFault α}
    (h : NoCallMissing (r.map f)) : NoCallMissing r := by
  intro id call hr
  exact h id call (by rw [hr]; rfl)

theorem NoCallMissing.of_error {α β : Type} {fault : RunFault}
    (h : NoCallMissing (.error fault : Except RunFault α)) :
    NoCallMissing (.error fault : Except RunFault β) := by
  intro id call heq
  exact h id call (by rw [Except.error.inj heq])

/-! ## What a walk writes down -/

/-- The calls of a grounded walk are those that its composition declares. -/
theorem Walk.Grounded.applied {ctx : Context} {w : Walk} (h : w.Grounded ctx) {call : CallId}
    {applied : AppliedCall} (hcall : Assoc.find? w.scene.frame.calls call = some applied) :
    ∃ c decl d, ctx.graph.composition w.scene.frame.id = .ok c ∧ c.applied? call = some decl ∧
      ctx.graph.function decl.function = .ok d ∧ applied.function = d.id ∧
      applied.successor = decl.successor := by
  obtain ⟨⟨id, inputs, w₀, hbegins, hkeeps, -⟩, -⟩ := h
  have hid : w.scene.frame.id = id :=
    (Frame.id_of_reset_eq (hkeeps.frame hbegins.closed)).trans hbegins.frame_id
  rw [hid]
  exact hbegins.applied hkeeps hcall

/-- A call that is found is visited for the function that it is declared with. -/
theorem Walk.Grounded.visitsIn {ctx : Context} {w : Walk} (h : w.Grounded ctx) {id : CallId}
    {call : AppliedCall} (hfound : Assoc.find? w.scene.frame.calls id = some call) (depth : Nat)
    (result : Except RunFault Unit) :
    TraceEntry.VisitsIn ctx.graph depth w.scene.frame.id
      ⟨depth, w.scene.frame.id, id, call.function, outcomeOf call.successor result⟩ := by
  obtain ⟨c, decl, d, hc, hdecl, hd, hfunction, hsuccessor⟩ := h.applied hfound
  refine ⟨rfl, rfl, c, decl, d, hc, hdecl, hd, hfunction, ?_⟩
  intro houtcome
  rw [← hsuccessor]
  exact isLoop_of_outcomeOf houtcome

namespace Walk

/-- Walks with the fuel list forests of visits in the compositions that they walk. -/
def StepsList (ctx : Context) (fuel : Nat) : Prop :=
  ∀ {depth : Nat} {next : Option CallId} {w w' : Walk} {r : Except RunFault Unit}, w.Grounded ctx →
    steps ctx fuel depth next w = some (r, w') → NoCallMissing r →
    w.log.Lists ctx.graph depth w.scene.frame.id w'.log

variable {ctx : Context} {fuel depth : Nat}

/-- A run of an instance writes down what its walk does. -/
theorem lists_around (hsteps : StepsList ctx fuel) {w w' : Walk} {r : Except RunFault Unit}
    (hw : w.Grounded ctx) (h : around (steps ctx fuel depth) w = some (r, w'))
    (hr : NoCallMissing r) :
    w.log.Lists ctx.graph depth w.scene.frame.id w'.log := by
  rcases around_eq_some h with ⟨fault, s, -, -, rfl⟩ | ⟨s, r₁, w₁, hseed, hwalk, hend⟩
  · exact .refl _
  · have hseeded : w.flow Flow.seed = (.ok (), { w with scene := s }) := by simp [flow, hseed]
    have hgrounded := hw.flow (Flow.evolves_seed w.scene).keeps hseeded
    have hid : s.frame.id = w.scene.frame.id := by
      have hevolves := Flow.evolves_seed w.scene
      rw [hseed] at hevolves
      exact hevolves.id
    have hlists : NoCallMissing r₁ → w.log.Lists ctx.graph depth s.frame.id w₁.log :=
      hsteps hgrounded hwalk
    rw [hid] at hlists
    rcases hend with ⟨rfl, rfl, -⟩ | ⟨s₁, rfl, -, -, rfl⟩
    · exact hlists hr
    · exact hlists (.of_ok ())

end Walk

namespace Context

variable {ctx : Context} {fuel depth : Nat} {a a' : Active} {r : Except RunFault Unit}

/-- **A call writes down what its body does**, and nothing if it is executed by its
implementation. -/
theorem listsBody_execute (hsteps : Walk.StepsList ctx fuel) (ha : a.Grounded ctx)
    (h : ctx.execute (Walk.runner (Walk.steps ctx fuel)) depth a = some (r, a'))
    (hr : NoCallMissing r) : a.log.ListsBody ctx.graph depth a.call.function a'.log := by
  cases performs_of_execute h with
  | unknown _ | unprepared _ _ _ | notSetUp _ _ _ _ => exact .inl rfl
  | invoked _ _ hinvoke => exact .inl (log_invoke hinvoke)
  | @ran d id ts body _ _ hd hid hprepare hset hran =>
      have hcall : (Stage.call depth a).Grounded ctx := ha
      have hgrounded := (hcall.leads (.nested hd hid hprepare hset)).1
      have hbegins : (Walk.begin body.reset (some ts.resetOutputs) a.log).Begins ctx id [] :=
        .body (arises_bodyOf (ha.arises d id _ hd hid) hset)
      obtain ⟨w', hrun, rfl⟩ := Walk.runner_eq_some hran
      have hlists := Walk.lists_around hsteps hgrounded hrun hr
      rw [hbegins.frame_id] at hlists
      exact .inr ⟨d, id, hd, hid, hlists⟩

end Context

namespace Walk

variable {ctx : Context} {fuel depth : Nat}

/-- **A visit writes down a tree**, however it ends, unless it cannot ingest its inputs. -/
theorem lists_visit (hsteps : StepsList ctx fuel) {id : CallId} {w w' : Walk}
    {r : Except RunFault (Option CallId)} (hw : w.Grounded ctx)
    (h : visit ctx (runner (steps ctx fuel)) depth id w = some (r, w')) (hr : NoCallMissing r) :
    w.log.Lists ctx.graph depth w.scene.frame.id w'.log := by
  rcases visit_cases h with ⟨fault, rfl, hrefuses⟩ | ⟨v, rfl, hexecutes⟩
  · cases hrefuses with
    | inputs _ => exact .refl _
    | missing _ _ => exact absurd rfl (hr _ _)
  · obtain ⟨hingest, hfound, hexecute, -, -, hafter⟩ := hexecutes
    rename_i s call result a
    have hevolves := evolves_ingestAll hingest
    have hflow : w.flow (Flow.ingestAll (w.scene.frame.wiring.inputSlots v.call))
        = (.ok (), { w with scene := s }) := by simp [flow, hingest]
    have hbetween : (Stage.between depth (.ok (some v.call)) w).Grounded ctx := hw
    have hcall := hbetween.leads (.entered hflow hfound)
    have hgrounded : ({ w with scene := s } : Walk).Grounded ctx := 
      hw.flow (Flow.evolves_ingestAll w.scene _).keeps hflow
    -- the execution does not want for a call either, since no fault of this kind is caught
    have hresult : NoCallMissing result := by
      intro compositionId callId hmissing
      subst hmissing
      obtain ⟨rfl, -⟩ := Prod.mk.inj hafter
      exact hr compositionId callId rfl
    have hlists := Context.listsBody_execute hsteps hcall hexecute hresult
    have hvisits := hgrounded.visitsIn hfound depth result
    have hlog : w'.log = a.log.record
        ⟨depth, s.frame.id, v.call, call.function, outcomeOf call.successor result⟩ :=
        log_afterCall hafter
    rw [hlog, ← hevolves.id]
    exact hlists.visited hvisits

/-- **Walks write down forests of visits in the compositions that they walk.** -/
theorem stepsList (ctx : Context) (fuel : Nat) : StepsList ctx fuel := by
  intro depth next w w' r hw h
  refine induction_on_steps (P := fun depth _ w r w' => w.Grounded ctx → NoCallMissing r →
    w.log.Lists ctx.graph depth w.scene.frame.id w'.log) ?_ ?_ ?_ h hw
  · intro depth w _ _
    exact .refl _
  · intro fuel depth id w fault w' hbodies hvisit hw hr
    exact lists_visit (fun hw h hr => hbodies h hw hr) hw hvisit hr.of_error
  · intro fuel depth id w next w₁ r w' hbodies hvisit hlater hw hr
    have hbetween : (Stage.between depth (.ok (some id)) w).Grounded ctx := hw
    have hvisited := lists_visit (fun hw h hr => hbodies h hw hr) hw hvisit (.of_ok _)
    have hlists := hlater (hbetween.leads (.visited hvisit)) hr
    have hkept := (keeps_visit (faithful_runner ctx fuel) hvisit).frame hw.closed
    rw [Frame.id_of_reset_eq hkept] at hlists
    exact hvisited.trans hlists

end Walk

namespace Engine

variable {e e' : Engine} {fuel : Nat} {target : RunTarget} {inputs : List (String × Value)}
  {r : Except RunFault (List (String × Value))}

/-- Where the outermost visits of an execution take place, with the number of bodies around them: in
the composition that is executed by itself, or in the body of the function that is executed. -/
inductive Outermost (e : Engine) (target : RunTarget) : Nat → CompositionId → Prop where
  | standalone {id : CompositionId} {c : Composition} (target : target = .composition id)
      (composition : e.context.graph.composition id = .ok c) (represents : c.represents = none) :
      Outermost e _ 0 id
  | body {key : FunctionId} {d d' : Description} {id : CompositionId}
      (target : e.functionOf? target = some key) (called : e.context.graph.function key = .ok d)
      (function : e.context.graph.function d.id = .ok d') (hasBody : d'.body = some id) :
      Outermost e _ 1 id

/-- Between the two logs a forest of visits of an execution was written down. -/
def Lists (e : Engine) (target : RunTarget) (l l' : Log) : Prop :=
  ∃ forest, l.Grows l' forest ∧
    ∀ t ∈ forest, ∃ depth id, e.Outermost target depth id ∧ t.Fits e.context.graph depth id

theorem Lists.refl (e : Engine) (target : RunTarget) (l : Log) : e.Lists target l l :=
  ⟨[], .refl l, by simp⟩

theorem Outermost.lists {depth : Nat} {id : CompositionId} {l l' : Log}
    (h : e.Outermost target depth id) (hlists : l.Lists e.context.graph depth id l') :
    e.Lists target l l' := by
  obtain ⟨forest, hgrows, hfits⟩ := hlists
  exact ⟨forest, hgrows, fun t ht => ⟨depth, id, h, hfits t ht⟩⟩

theorem lists_runTarget (hlog : e.log = Log.start e.tracing)
    (h : e.runTarget fuel target inputs = some (r, e')) (hr : NoCallMissing r) :
    e.Lists target e.log e'.log := by
  cases ends_of_runTarget hlog h with
  | refused _ => exact .refl e target _
  | @called _ a _ hopens hexecute =>
      have hbody := Context.listsBody_execute (Walk.stepsList e.context fuel)
        (Stage.grounded_of_opens hopens) hexecute hr.of_map
      cases hopens with
      | function htarget hd _ =>
          rw [hlog]
          rcases hbody with hnothing | ⟨d', bodyId, hd', hid, hlists⟩
          · rw [show a.log = Log.start e.tracing from hnothing]
            exact .refl e target _
          · exact Outermost.lists (.body htarget hd hd' hid) hlists
  | ran hopens hrun =>
      have hlists :=
        Walk.lists_around (Walk.stepsList e.context fuel) (Stage.grounded_of_opens hopens).1
        hrun hr.of_map
      cases hopens with
      | standalone htarget hc hnone hf hbind =>
          rw [(Walk.Begins.standalone hf hbind).frame_id] at hlists
          rw [hlog]
          exact Outermost.lists (.standalone htarget hc hnone) hlists

/-- **Visits and trace list one forest.**  After an execution with tracing, successful or not, the
calls whose visits have begun are those of a forest in preorder, and the traced visits are those of
the same forest in postorder, unless a call was missing. -/
theorem lists_tree_of_executeWithin (htracing : e.tracing = true)
    (h : e.executeWithin fuel target inputs = some (r, e')) (hr : NoCallMissing r) :
    ∃ forest, e'.visits = (VisitTree.preorders forest).map (·.call) ∧
      e'.trace? = some (VisitTree.postorders forest) ∧
      e'.visits.length = (VisitTree.postorders forest).length ∧
      ∀ t ∈ forest, ∃ depth id, e.Outermost target depth id ∧ t.Fits e.context.graph depth id := by
  unfold executeWithin at h
  split at h
  · exact absurd h (by simp)
  · rename_i result e₁ hrun
    obtain ⟨rfl, rfl⟩ := Prod.mk.inj (Option.some.inj h)
    have hresult : NoCallMissing result := by
      intro id call hmissing
      exact hr id call (by rw [hmissing]; rfl)
    obtain ⟨forest, hgrows, hfits⟩ := lists_runTarget rfl hrun hresult
    have hvisits : e₁.visits = (VisitTree.preorders forest).map (·.call) := by
      rw [visits, hgrows.visits]
      simp [Log.start]
    refine ⟨forest, hvisits, ?_, ?_, fun t ht => ?_⟩
    · rw [trace?, hgrows.trace]
      simp [Log.start, htracing]
    · rw [hvisits, List.length_map, (VisitTree.postorders_perm forest).length_eq]
    · obtain ⟨depth, id, houtermost, ht⟩ := hfits t ht
      refine ⟨depth, id, ?_, ht⟩
      cases houtermost with
      | standalone htarget hc hnone => exact .standalone htarget hc hnone
      | body htarget hd hd' hid => exact .body htarget hd hd' hid

end Engine

/-! ### An exhaustion that unwinds two bodies -/

namespace Sample

/-- A loop node that calls `search`, whose body calls `look`, whose body calls `stop`, which signals
exhaustion; behind the loop there is a call of `rest`. -/
def unwinding : Engine :=
  .new (.ofParts "unwinding"
      [{ Description.plain ⟨0⟩ "stop" [] with implementation := some "stop" },
        { Description.plain ⟨1⟩ "look" [] with body := some ⟨1⟩ },
        { Description.plain ⟨2⟩ "search" [] with body := some ⟨2⟩ },
        { Description.plain ⟨3⟩ "rest" [] with implementation := some "rest" }]
      [{ id := ⟨0⟩, name := "main", represents := none, starts := [⟨0⟩], mappings := []
         calls := [⟨⟨0⟩, ⟨2⟩, .loop ⟨0⟩ (some ⟨1⟩), none⟩, ⟨⟨1⟩, ⟨3⟩, .stop, none⟩] },
        { id := ⟨1⟩, name := "look", represents := some ⟨1⟩, starts := [⟨2⟩], mappings := []
          calls := [⟨⟨2⟩, ⟨0⟩, .stop, none⟩] },
        { id := ⟨2⟩, name := "search", represents := some ⟨2⟩, starts := [⟨3⟩], mappings := []
          calls := [⟨⟨3⟩, ⟨1⟩, .stop, none⟩] }])
    { resolve path :=
      some (.reading fun _ => if path = "stop" then .error .exhausted else .ok .none)
      resolveMember _ _ := none }
    { tracing := true }

end Sample

/-- The exhausted visit of the loop node has two visits below it, each inside of the other; the one
behind the loop has none. -/
theorem Engine.lists_tree_of_executeWithin_sample : ∃ outputs e' forest,
    Sample.unwinding.executeWithin 4 (.composition ⟨0⟩) [] = some (.ok outputs, e') ∧
      e'.visits = [⟨0⟩, ⟨3⟩, ⟨2⟩, ⟨1⟩] ∧
      e'.trace? = some [⟨2, ⟨1⟩, ⟨2⟩, ⟨0⟩, .failed⟩, ⟨1, ⟨2⟩, ⟨3⟩, ⟨1⟩, .failed⟩,
        ⟨0, ⟨0⟩, ⟨0⟩, ⟨2⟩, .exhausted⟩, ⟨0, ⟨0⟩, ⟨1⟩, ⟨3⟩, .completed⟩] ∧
      e'.visits = (VisitTree.preorders forest).map (·.call) ∧
      e'.trace? = some (VisitTree.postorders forest) ∧
      e'.visits.length = (VisitTree.postorders forest).length ∧
      ∀ t ∈ forest, ∃ depth id, Sample.unwinding.Outermost (.composition ⟨0⟩) depth id ∧
        t.Fits Sample.unwinding.context.graph depth id := by
  have hcheck : (Sample.unwinding.executeWithin 4 (.composition ⟨0⟩) []).any (fun ran =>
      ran.1.toOption.isSome && ran.2.visits == [⟨0⟩, ⟨3⟩, ⟨2⟩, ⟨1⟩] &&
      ran.2.trace? == some [⟨2, ⟨1⟩, ⟨2⟩, ⟨0⟩, .failed⟩, ⟨1, ⟨2⟩, ⟨3⟩, ⟨1⟩, .failed⟩,
        ⟨0, ⟨0⟩, ⟨0⟩, ⟨2⟩, .exhausted⟩, ⟨0, ⟨0⟩, ⟨1⟩, ⟨3⟩, .completed⟩]) = true := by
    decide +kernel
  obtain ⟨⟨r, e'⟩, hexecute, hcheck⟩ := (Option.any_eq_true ..).1 hcheck
  simp only [Bool.and_eq_true, beq_iff_eq] at hcheck
  obtain ⟨⟨hr, hvisits⟩, htrace⟩ := hcheck
  cases r with
  | error fault => exact absurd hr (by simp [Except.toOption])
  | ok outputs =>
      obtain ⟨forest, htree⟩ := lists_tree_of_executeWithin rfl hexecute (.of_ok outputs)
      exact ⟨outputs, e', forest, hexecute, hvisits, htrace, htree⟩

end CallFlow
