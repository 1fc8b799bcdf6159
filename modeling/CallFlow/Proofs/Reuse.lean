import CallFlow.Engine
import CallFlow.Proofs.Alike

/-!
# Instances that run again

An instance keeps handles and bodies from one run to the next, and whatever its runs have written.
After a reset none of this matters: an instance with any history runs as one that was just set up
(`Instance.Arises.run_reset`).

So a run begins in one of two ways (`Walk.Begins`), and the runs of bodies inside of it begin so too
(`Walk.begins_of_bodyOf`).
-/

namespace CallFlow

/-! ## Histories of an instance -/

/-- What a run shows: its result, its scene and its log. -/
def Walk.shown (ran : Fueled Unit Walk) : Option (Except RunFault Unit × Scene × Log) :=
  ran.map fun (r, w) => (r, w.scene, w.log)

/-- Binding an input writes the variable with its name, which has to be there. -/
theorem Engine.bindVariables_cons_eq_ok {f f' : Frame} {name : String} {v : Value}
    {rest : List (String × Value)} (h : bindVariables f ((name, v) :: rest) = .ok f') :
    ∃ t t', Assoc.find? f.vars name = some t ∧ t.write none v = .ok t' ∧
      bindVariables { f with vars := Assoc.insert f.vars name t' } rest = .ok f' := by
  rw [bindVariables] at h
  split at h
  · exact absurd h (by simp)
  · rename_i t ht
    split at h
    · exact absurd h (by simp)
    · rename_i t' ht'
      exact ⟨t, t', ht, ht', h⟩

theorem Frame.reset_bindVariables {f f' : Frame} {inputs : List (String × Value)}
    (h : Engine.bindVariables f inputs = .ok f') : f'.reset = f.reset := by
  induction inputs generalizing f with
  | nil =>
      cases h
      rfl
  | cons input rest ih =>
      obtain ⟨name, v⟩ := input
      obtain ⟨t, t', ht, ht', hrest⟩ := Engine.bindVariables_cons_eq_ok h
      have hvars : Assoc.mapValues Terminal.reset (Assoc.insert f.vars name t')
          = Assoc.mapValues Terminal.reset f.vars :=
        Assoc.mapValues_insert_of_find? ht (Terminal.reset_write ht')
      rw [ih hrest]
      simp [Frame.reset, hvars]

/-- The instance was set up for the composition, and then it was reset, given inputs and run, in any
order and as often as it may be.  Runs may be of any depth, for any boundary, and end in any way. -/
inductive Instance.Arises (ctx : Context) (id : CompositionId) : Instance → Prop where
  | ofGraph {inst : Instance} (setUp : Instance.ofGraph ctx.graph id ctx.checked = .ok inst) :
      Arises ctx id inst
  | reset {inst : Instance} (before : Arises ctx id inst) : Arises ctx id inst.reset
  | bound {f f' : Frame} {handles : List (CallId × Callable)} {bodies : List (CallId × Instance)}
      {inputs : List (String × Value)} (before : Arises ctx id (.mk f handles bodies))
      (bind : Engine.bindVariables f inputs = .ok f') : Arises ctx id (.mk f' handles bodies)
  | run {inst : Instance} {fuel depth : Nat} {boundary : Option Terminals} {log : Log} {w : Walk}
      {r : Except RunFault Unit} (before : Arises ctx id inst)
      (ran : Walk.run ctx fuel depth (Walk.begin inst boundary log) = some (r, w)) :
      Arises ctx id w.toInstance

namespace Instance

variable {ctx : Context} {id : CompositionId}

theorem alike_begin {inst inst' : Instance} (h : inst.Sound ctx id) (h' : inst'.Sound ctx id)
    (hframe : inst.frame = inst'.frame) (boundary : Option Terminals) (log : Log) :
    (Walk.begin inst boundary log).Alike ctx id (Walk.begin inst' boundary log) :=
  ⟨by simp [Walk.begin, hframe], rfl, by cases inst; exact h, by cases inst'; exact h'⟩

/-- **What an instance keeps is what it would find anew**, whatever its history. -/
theorem Arises.sound {inst : Instance} (h : inst.Arises ctx id) : inst.Sound ctx id := by
  induction h with
  | ofGraph hinst => exact sound_ofGraph hinst
  | reset _ ih => exact ih.reset
  | bound _ hbind ih => exact ih.withFrame (Frame.reset_bindVariables hbind)
  | @run inst fuel depth boundary log w r _ hran ih =>
      have hmatches := Walk.alike_run (alike_begin ih ih rfl boundary log) fuel depth
      rw [hran] at hmatches
      cases hmatches with
      | some halike => exact halike.left

/-- **An instance with any history runs, after a reset, as one that was just set up**: both give the
same result, the same scene with the same boundary, and the same log. -/
theorem Arises.run_reset {inst : Instance} (h : inst.Arises ctx id) :
    ∃ fresh, Instance.ofGraph ctx.graph id ctx.checked = .ok fresh ∧
      ∀ fuel depth boundary log,
        Walk.shown (Walk.run ctx fuel depth (Walk.begin inst.reset boundary log))
          = Walk.shown (Walk.run ctx fuel depth (Walk.begin fresh boundary log)) := by
  have hsound := h.sound.reset
  have hframe : Frame.ofGraph ctx.graph id ctx.checked = .ok inst.reset.frame := by
    rw [frame_reset]
    exact h.sound.frame_eq
  have hfresh : Instance.ofGraph ctx.graph id ctx.checked = .ok (.mk inst.reset.frame [] []) := by
    simp [Instance.ofGraph, hframe, Except.map]
  refine ⟨_, hfresh, ?_⟩
  intro fuel depth boundary log
  have hmatches := Walk.alike_run
    (alike_begin hsound (sound_ofGraph hfresh) rfl boundary log) fuel depth
  revert hmatches
  generalize Walk.run ctx fuel depth (Walk.begin inst.reset boundary log) = x
  generalize Walk.run ctx fuel depth (Walk.begin _ boundary log) = x'
  rintro (_ | ⟨halike⟩)
  · rfl
  · simp [Walk.shown, halike.scene, halike.log]

end Instance

/-! ### A branch -/

namespace Sample

/-- Negation, whose implementation stands under its name. -/
def negation : Description :=
  { Description.plain ⟨0⟩ "not" [⟨"a", .any, .positional 0, none⟩] with
    implementation := some "not" }

/-- Call 0 negates truth and leads to call 1 or call 2.  The variable `flag` starts as truth and
then has the output of call 0; the variable `v` has a constant for each of the calls behind the
branch. -/
def branching : Composition where
  id := ⟨0⟩
  name := "branching"
  represents := none
  starts := [⟨0⟩]
  calls := [⟨⟨0⟩, ⟨0⟩, .branch (some ⟨1⟩) (some ⟨2⟩), none⟩, ⟨⟨1⟩, ⟨0⟩, .stop, none⟩,
    ⟨⟨2⟩, ⟨0⟩, .stop, none⟩]
  mappings := [
    ⟨.constant (.bool true), none, .call ⟨0⟩ (.param 0), none, none⟩,
    ⟨.constant (.bool true), none, .call ⟨1⟩ (.param 0), none, none⟩,
    ⟨.constant (.bool true), none, .call ⟨2⟩ (.param 0), none, none⟩,
    ⟨.constant (.bool true), none, .variable "flag", none, none⟩,
    ⟨.call ⟨0⟩ .output, none, .variable "flag", none, some ⟨0⟩⟩,
    ⟨.constant (.int 10), none, .variable "v", none, some ⟨1⟩⟩,
    ⟨.constant (.int 20), none, .variable "v", none, some ⟨2⟩⟩]

/-- A host that knows negation only. -/
def host : Host where
  resolve path := if path = "not" then some (.unary fun v => .ok (.bool (!v.truthy))) else none
  resolveMember _ _ := none

def context : Context := ⟨.ofParts "sample" [negation] [branching], host, true⟩

/-- The frame of the first composition of a graph. -/
def frameOf (ctx : Context) : Frame :=
  match Frame.ofGraph ctx.graph ⟨0⟩ ctx.checked with
  | .ok f => f
  | .error _ => ⟨⟨0⟩, "", none, none, [], .empty ⟨0⟩, []⟩

/-- The walk of a first run, with tracing on. -/
def startOf (ctx : Context) : Walk := .begin (.mk (frameOf ctx) [] []) none (.start true)

theorem ofGraph_eq : Frame.ofGraph context.graph ⟨0⟩ context.checked = .ok (frameOf context) := rfl

end Sample

/-- An instance that has run and keeps handles is an example. -/
theorem Instance.run_reset_sample : ∃ inst : Instance, inst.Arises Sample.context ⟨0⟩ ∧
    inst.handles.length = 2 ∧
    ∃ fresh, Instance.ofGraph Sample.context.graph ⟨0⟩ Sample.context.checked = .ok fresh ∧
      ∀ fuel depth boundary log,
        Walk.shown (Walk.run Sample.context fuel depth (Walk.begin inst.reset boundary log))
          = Walk.shown (Walk.run Sample.context fuel depth (Walk.begin fresh boundary log)) := by
  have hcheck : (Walk.run Sample.context 2 0 (Sample.startOf Sample.context)).any
      (fun ran => ran.2.toInstance.handles.length == 2) = true := by decide +kernel
  obtain ⟨⟨r, w⟩, hran, hhandles⟩ := (Option.any_eq_true ..).1 hcheck
  have harises : Instance.Arises Sample.context ⟨0⟩ w.toInstance :=
    .run (.ofGraph (by simp [Instance.ofGraph, Sample.ofGraph_eq, Except.map])) hran
  exact ⟨w.toInstance, harises, by simpa using hhandles, harises.run_reset⟩

/-! ## How runs begin -/

/-- The ways in which a run of a composition begins: by itself, in an instance that was just set up
and whose variables are bound to inputs, or for the terminals of a call, in an instance with any
history that was reset. -/
inductive Walk.Begins (ctx : Context) (id : CompositionId) :
    List (String × Value) → Walk → Prop where
  | standalone {f f' : Frame} {inputs : List (String × Value)} {log : Log}
      (setUp : Frame.ofGraph ctx.graph id ctx.checked = .ok f)
      (bind : Engine.bindVariables f.reset inputs = .ok f') :
      Begins ctx id inputs (begin (.mk f' [] []) none log)
  | body {inst : Instance} {ts : Terminals} {log : Log} (arises : inst.Arises ctx id) :
      Begins ctx id [] (begin inst.reset (some ts) log)

theorem Frame.id_of_reset_eq {f f' : Frame} (h : f'.reset = f.reset) : f'.id = f.id := by
  have hid : f'.reset.id = f.reset.id := by rw [h]
  exact hid

theorem Frame.start_of_reset_eq {f f' : Frame} (h : f'.reset = f.reset) : f'.start = f.start := by
  have hstart : f'.reset.start = f.reset.start := by rw [h]
  exact hstart

/-- Binding inputs changes variables only. -/
theorem Frame.eq_of_bindVariables {f f' : Frame} {inputs : List (String × Value)}
    (h : Engine.bindVariables f inputs = .ok f') : f' = { f with vars := f'.vars } := by
  induction inputs generalizing f with
  | nil =>
      cases h
      rfl
  | cons input rest ih =>
      obtain ⟨name, v⟩ := input
      obtain ⟨t, t', -, -, hrest⟩ := Engine.bindVariables_cons_eq_ok h
      have hbound := ih hrest
      exact hbound

/-- After binding inputs, a variable is bound to the last input with its name. -/
theorem Frame.bound_of_bindVariables {f f' : Frame} {inputs : List (String × Value)}
    (h : Engine.bindVariables f inputs = .ok f') (name : String) :
    (Assoc.find? f'.vars name).bind Terminal.peek
        = (Assoc.find? inputs.reverse name).or ((Assoc.find? f.vars name).bind Terminal.peek) ∧
      (Assoc.find? f'.vars name).any Terminal.isFresh
        = ((Assoc.find? inputs.reverse name).isSome
          || (Assoc.find? f.vars name).any Terminal.isFresh) := by
  induction inputs generalizing f with
  | nil =>
      cases h
      simp
  | cons input rest ih =>
      obtain ⟨n, v⟩ := input
      obtain ⟨t, t', -, ht', hrest⟩ := Engine.bindVariables_cons_eq_ok h
      obtain ⟨hpeek, hfresh⟩ := ih hrest
      have hwritten := Terminal.write_eq_ok ht'
      rw [hpeek, hfresh, List.reverse_cons, Assoc.find?_append]
      simp only [Assoc.find?_insert, Assoc.find?]
      by_cases hn : n = name
      · subst hn
        cases hlater : Assoc.find? rest.reverse n with
        | some _ => simp
        | none =>
            refine ⟨by simpa using Terminal.peek_write_none ht', ?_⟩
            rw [hwritten]
            simp [Terminal.isFresh, Cell.isFresh, Cell.isWritten, Cell.writeBy, Cell.write]
      · simp [hn]

namespace Walk.Begins

variable {ctx : Context} {id : CompositionId} {inputs : List (String × Value)} {w : Walk}

/-- A run begins in the frame that the graph gives, with the inputs in its variables and no other
contents. -/
theorem exists_frame (h : w.Begins ctx id inputs) :
    ∃ f, Frame.ofGraph ctx.graph id ctx.checked = .ok f ∧
      Engine.bindVariables f inputs = .ok w.scene.frame := by
  cases h with
  | standalone hf hbind => exact ⟨_, hf, by rwa [Frame.reset_of_ofGraph hf] at hbind⟩
  | @body inst ts log harises =>
      refine ⟨inst.frame.reset, harises.sound.frame_eq, ?_⟩
      simp [Engine.bindVariables, begin]

theorem closed (h : w.Begins ctx id inputs) : w.scene.frame.Closed := by
  obtain ⟨f, hf, hbind⟩ := h.exists_frame
  exact (Frame.closed_of_ofGraph hf).of_reset_eq (Frame.reset_bindVariables hbind)

/-- A run begins with the wiring that the graph gives. -/
theorem exists_wiring (h : w.Begins ctx id inputs) :
    ∃ f, Frame.ofGraph ctx.graph id ctx.checked = .ok f ∧ w.scene.frame.wiring = f.wiring := by
  obtain ⟨f, hf, hbind⟩ := h.exists_frame
  exact ⟨f, hf, by rw [Frame.eq_of_bindVariables hbind]⟩

theorem built (h : w.Begins ctx id inputs) : w.scene.frame.wiring.Built := by
  obtain ⟨f, hf, hwiring⟩ := h.exists_wiring
  rw [hwiring]
  exact Frame.built_of_ofGraph hf

/-- A run begins without authority. -/
theorem reset_wiring (h : w.Begins ctx id inputs) :
    w.scene.frame.wiring.reset = w.scene.frame.wiring := by
  obtain ⟨f, hf, hwiring⟩ := h.exists_wiring
  rw [hwiring]
  exact Frame.reset_wiring_of_ofGraph hf

/-- A run begins with the mappings of its composition. -/
theorem mappings (h : w.Begins ctx id inputs) :
    ∃ c used, ctx.graph.composition id = .ok c ∧
      w.scene.frame.wiring.mappings = Frame.liveMappings used c := by
  obtain ⟨f, hf, hbind⟩ := h.exists_frame
  obtain ⟨c, used, hc, -, hmappings⟩ := Frame.mappings_of_ofGraph hf
  have hwiring : w.scene.frame.wiring = f.wiring := by rw [Frame.eq_of_bindVariables hbind]
  exact ⟨c, used, hc, by rw [hwiring]; exact hmappings⟩

/-- A run begins in the composition that it is one of. -/
theorem frame_id (h : w.Begins ctx id inputs) : w.scene.frame.id = id := by
  obtain ⟨f, hf, hbind⟩ := h.exists_frame
  obtain ⟨c, used, -, -, -, -, -, -, hid⟩ := Frame.ofGraph_eq_ok hf
  rw [Frame.eq_of_bindVariables hbind]
  exact hid

/-- A run begins with the start that its composition declares. -/
theorem start_eq (h : w.Begins ctx id inputs) : ctx.graph.startOf id = .ok w.scene.frame.start := by
  obtain ⟨f, hf, hbind⟩ := h.exists_frame
  obtain ⟨c, used, -, -, hstart, -, -, -, -⟩ := Frame.ofGraph_eq_ok hf
  rw [Frame.eq_of_bindVariables hbind]
  exact hstart

/-- The calls of a run are those that its composition declares, each at the site of its own
identity. -/
theorem reset_applied (h : w.Begins ctx id inputs) {w' : Walk} (hkeeps : w.scene.Keeps w'.scene)
    {call : CallId} {applied : AppliedCall}
    (hcall : Assoc.find? w'.scene.frame.calls call = some applied) :
    ∃ c decl d, ctx.graph.composition id = .ok c ∧ c.applied? call = some decl ∧
      ctx.graph.function decl.function = .ok d ∧
      applied.reset = .ofDescription d (.call call) decl.successor decl.label ctx.checked := by
  obtain ⟨f, hf, hbind⟩ := h.exists_frame
  have hframe : w'.scene.frame.reset = f := by
    rw [hkeeps.frame h.closed, Frame.reset_bindVariables hbind, Frame.reset_of_ofGraph hf]
  have hfind : Assoc.find? f.calls call = some applied.reset := by
    rw [← hframe]
    simp [Frame.reset, hcall]
  exact Frame.applied_of_ofGraph hf hfind

/-- The calls of a run are those that its composition declares. -/
theorem applied (h : w.Begins ctx id inputs) {w' : Walk} (hkeeps : w.scene.Keeps w'.scene)
    {call : CallId} {applied : AppliedCall}
    (hcall : Assoc.find? w'.scene.frame.calls call = some applied) :
    ∃ c decl d, ctx.graph.composition id = .ok c ∧ c.applied? call = some decl ∧
      ctx.graph.function decl.function = .ok d ∧ applied.function = d.id ∧
      applied.successor = decl.successor := by
  obtain ⟨c, decl, d, hc, hdecl, hd, hreset⟩ := h.reset_applied hkeeps hcall
  refine ⟨c, decl, d, hc, hdecl, hd, ?_, ?_⟩
  · show applied.reset.function = d.id
    rw [hreset]
    rfl
  · show applied.reset.successor = decl.successor
    rw [hreset]
    rfl

/-- In the beginning a variable holds the last input with its name, and nothing else. -/
theorem bound (h : w.Begins ctx id inputs) (name : String) :
    w.scene.peek (.variable name) = Assoc.find? inputs.reverse name ∧
      (Assoc.find? w.scene.frame.vars name).any Terminal.isFresh
        = (w.scene.peek (.variable name)).isSome := by
  obtain ⟨f, hf, hbind⟩ := h.exists_frame
  obtain ⟨hbound, hfresh⟩ := Frame.bound_of_bindVariables hbind name
  -- a frame that was just set up holds no values
  have hunwritten : (Assoc.find? f.vars name).bind Terminal.peek = none ∧
      (Assoc.find? f.vars name).any Terminal.isFresh = false := by
    have hvars : Assoc.mapValues Terminal.reset f.vars = f.vars :=
      congrArg Frame.vars (Frame.reset_of_ofGraph hf)
    rw [← hvars, Assoc.find?_mapValues]
    cases Assoc.find? f.vars name <;> exact ⟨rfl, rfl⟩
  rw [hunwritten.1, Option.or_none] at hbound
  rw [hunwritten.2, Bool.or_false] at hfresh
  have hpeek : w.scene.peek (.variable name) = Assoc.find? inputs.reverse name := hbound
  exact ⟨hpeek, by rw [hpeek]; exact hfresh⟩

end Walk.Begins

/-! ## Runs of bodies -/

/-- Every body that is kept of a call has arisen from runs of its own. -/
def Instance.Nests (ctx : Context) (inst : Instance) : Prop :=
  ∀ (call : CallId) (d : Description) (bodyId : CompositionId) (body : Instance),
    inst.frame.Describes ctx.graph call d → d.body = some bodyId →
    Assoc.find? inst.bodies call = some body → body.Arises ctx bodyId

namespace Context

variable {ctx : Context} {a a' : Active}

/-- A body that is kept or set up now has arisen, if what is kept has. -/
theorem arises_bodyOf {id : CompositionId} {kept : Option Instance} {body : Instance}
    (hkept : ∀ {inst}, kept = some inst → inst.Arises ctx id)
    (h : ctx.bodyOf id kept = .ok body) : body.Arises ctx id := by
  cases kept with
  | none => exact .ofGraph h
  | some inst =>
      obtain rfl := Except.ok.inj h
      exact hkept rfl

theorem body_invoke {d : Description} {r : Except RunFault Unit} (h : ctx.invoke d a = (r, a')) :
    a'.body = a.body := by
  cases invokes_of_invoke h <;> rfl

/-- The body that an execution leaves has arisen, if the one that was there has. -/
theorem arises_execute {fuel depth : Nat} {r : Except RunFault Unit}
    (h : ctx.execute (Walk.runner (Walk.steps ctx fuel)) depth a = some (r, a'))
    {d : Description} {bodyId : CompositionId} (hd : ctx.graph.function a.call.function = .ok d)
    (hid : d.body = some bodyId) (hbefore : ∀ {body}, a.body = some body → body.Arises ctx bodyId)
    {body : Instance} (hbody : a'.body = some body) : body.Arises ctx bodyId := by
  cases performs_of_execute h with
  | unknown _ | unprepared _ _ _ | notSetUp _ _ _ _ => exact hbefore hbody
  | invoked _ _ hinvoke => exact hbefore ((body_invoke hinvoke).symm.trans hbody)
  | ran hd' hid' _ hset hran =>
      obtain rfl := Except.ok.inj (hd.symm.trans hd')
      obtain rfl := Option.some.inj (hid.symm.trans hid')
      obtain ⟨w, hw, rfl⟩ := Walk.runner_eq_some hran
      obtain rfl : w.toInstance = body := Option.some.inj hbody
      exact .run (.reset (arises_bodyOf hbefore hset)) hw

end Context

namespace Walk

variable {ctx : Context} {id : CompositionId} {inputs : List (String × Value)} {depth : Nat}
  {w₀ w w' : Walk} {history : List Visit} {r : Except RunFault (Option CallId)}

/-- What is kept of calls counts for another scene in which the same is declared. -/
theorem nests_withScene (h : w.toInstance.Nests ctx) (hclosed : w.scene.frame.Closed)
    (hkeeps : w.scene.Keeps w'.scene) (hbodies : w'.bodies = w.bodies) :
    w'.toInstance.Nests ctx := by
  intro call d bodyId body hd hid hbody
  change Assoc.find? w'.bodies call = some body at hbody
  rw [hbodies] at hbody
  exact h call d bodyId body (hd.of_reset_eq (hkeeps.frame hclosed)) hid hbody

/-- A visit leaves bodies that have arisen, if there were no others. -/
theorem Executes.nests {fuel : Nat} {v : Visit}
    (h : Executes ctx (runner (steps ctx fuel)) depth w v r w') (hclosed : w.scene.frame.Closed)
    (hnests : w.toInstance.Nests ctx) : w'.toInstance.Nests ctx := by
  have hkeeps := h.keeps (faithful_runner ctx fuel)
  obtain ⟨hingest, hfound, hexecute, -, -, hafter⟩ := h
  rename_i s call result a
  have hbodies : w'.bodies = (w.keep v.call a).bodies := by
    rcases afterCall_cases hafter with ⟨-, -, settled, s', -, rfl, -⟩ | ⟨-, rfl⟩ <;> rfl
  intro call' d bodyId body hd hid hbody
  have hbefore : w.scene.frame.Describes ctx.graph call' d := hd.of_reset_eq (hkeeps.frame hclosed)
  change Assoc.find? w'.bodies call' = some body at hbody
  rw [hbodies] at hbody
  cases hkept : a.body with
  | none =>
      simp only [keep, hkept] at hbody
      exact hnests call' d bodyId body hbefore hid hbody
  | some inst =>
      simp only [keep, hkept, Assoc.find?_insert] at hbody
      split at hbody
      · rename_i hcall
        subst hcall
        obtain rfl := Option.some.inj hbody
        have hdescribes : s.frame.Describes ctx.graph v.call d :=
          hbefore.of_reset_eq ((evolves_ingestAll hingest).keeps.frame hclosed).symm
        obtain ⟨applied, happlied, hfunction⟩ := hdescribes
        obtain rfl : call = applied := Option.some.inj (hfound.symm.trans happlied)
        refine Context.arises_execute hexecute hfunction hid ?_ hkept
        intro body hbody
        exact hnests _ d bodyId body hbefore hid hbody
      · exact hnests call' d bodyId body hbefore hid hbody

/-- **Bodies that a run keeps have arisen**, if there were no others in the beginning. -/
theorem Reaches.nests (h : Reaches ctx depth w₀ history r w) (hclosed : w₀.scene.frame.Closed)
    (hnests : w₀.toInstance.Nests ctx) : w.toInstance.Nests ctx := by
  induction h with
  | @seeded s hseed =>
      have hseeded := (Flow.evolves_seed w₀.scene).keeps
      rw [hseed] at hseeded
      have hkeeps : w₀.scene.Keeps ({ w₀ with scene := s } : Walk).scene := hseeded
      exact nests_withScene hnests hclosed hkeeps rfl
  | refused hbefore hrefuses ih =>
      refine nests_withScene ih (hbefore.keeps.closed hclosed) hrefuses.evolves.keeps ?_
      cases hrefuses <;> rfl
  | executed hbefore hexecutes ih => exact hexecutes.nests (hbefore.keeps.closed hclosed) ih

/-- A run leaves bodies that have arisen, if there were no others in the beginning. -/
theorem nests_run {fuel : Nat} {result : Except RunFault Unit} (hclosed : w.scene.frame.Closed)
    (hnests : w.toInstance.Nests ctx) (h : run ctx fuel depth w = some (result, w')) :
    w'.toInstance.Nests ctx := by
  rcases around_eq_some h with ⟨fault, s, hseed, -, rfl⟩ | ⟨s, r₁, w₁, hseed, hsteps, hend⟩
  · have hseeded := (Flow.evolves_seed w.scene).keeps
    rw [hseed] at hseeded
    have hkeeps : w.scene.Keeps ({ w with scene := s } : Walk).scene := hseeded
    exact nests_withScene hnests hclosed hkeeps rfl
  · obtain ⟨history, hreaches⟩ := steps_reaches (.seeded hseed) hsteps
    have hwalked := hreaches.nests hclosed hnests
    rcases hend with ⟨-, rfl, -⟩ | ⟨s₁, -, -, hfinish, rfl⟩
    · exact hwalked
    · have hfinished := (Flow.evolves_finish w₁.scene).keeps
      rw [hfinish] at hfinished
      have hkeeps : w₁.scene.Keeps ({ w₁ with scene := s₁ } : Walk).scene := hfinished
      exact nests_withScene hwalked (hreaches.keeps.closed hclosed) hkeeps rfl

end Walk

/-- **Bodies inside of instances have histories of the same kind**, at every depth. -/
theorem Instance.Arises.nests {ctx : Context} {id : CompositionId} {inst : Instance}
    (h : inst.Arises ctx id) : inst.Nests ctx := by
  induction h with
  | @ofGraph inst hinst =>
      intro call d bodyId body _ _ hbody
      obtain ⟨f, -, rfl⟩ := ofGraph_eq_ok hinst
      exact absurd hbody (by simp [bodies])
  | @reset inst _ ih =>
      intro call d bodyId body hd hid hbody
      cases inst with
      | mk f handles bodies =>
          change Assoc.find? (resetBodies bodies) call = some body at hbody
          rw [find?_resetBodies] at hbody
          obtain ⟨body', hbody', rfl⟩ := Option.map_eq_some_iff.1 hbody
          exact (ih call d bodyId body' (hd.of_reset_eq (Frame.reset_reset f)) hid hbody').reset
  | bound _ hbind ih =>
      intro call d bodyId body hd hid hbody
      exact ih call d bodyId body (hd.of_reset_eq (Frame.reset_bindVariables hbind)) hid hbody
  | @run inst fuel depth boundary log w r hbefore hran ih =>
      have hnests : (Walk.begin inst boundary log).toInstance.Nests ctx := by
        cases inst
        exact ih
      exact Walk.nests_run hbefore.sound.closed hnests hran

/-- In the beginning of a run, every body that is kept of a call has arisen from runs of its own. -/
theorem Walk.Begins.nests {ctx : Context} {id : CompositionId} {inputs : List (String × Value)}
    {w : Walk} (h : w.Begins ctx id inputs) : w.toInstance.Nests ctx := by
  cases h with
  | standalone _ _ =>
      intro call d bodyId body _ _ hfind
      exact absurd hfind (by simp [toInstance, begin, Instance.bodies])
  | @body inst _ _ harises =>
      have hnests := harises.reset.nests
      cases inst
      exact hnests

/-- **The runs of bodies inside of a run begin as runs do**, so that what holds of the states that
runs reach holds of them too, at every depth. -/
theorem Walk.begins_of_bodyOf {ctx : Context} {id bodyId : CompositionId}
    {inputs : List (String × Value)} {depth : Nat} {w₀ w : Walk} {history : List Visit}
    {r : Except RunFault (Option CallId)} (hbegins : w₀.Begins ctx id inputs)
    (hreaches : Reaches ctx depth w₀ history r w) {call : CallId} {d : Description}
    {body : Instance}
    (hd : w.scene.frame.Describes ctx.graph call d) (hid : d.body = some bodyId)
    (hbody : ctx.bodyOf bodyId (Assoc.find? w.bodies call) = .ok body)
    (ts : Terminals) (log : Log) :
    (begin body.reset (some ts) log).Begins ctx bodyId [] := by
  have hnests := hreaches.nests hbegins.closed hbegins.nests
  exact .body (Context.arises_bodyOf (fun hkept => hnests call d bodyId _ hd hid hkept) hbody)

end CallFlow
