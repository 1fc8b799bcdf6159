import CallFlow.Proofs.Frame
import CallFlow.Proofs.Run

/-!
# Walks that are alike

An instance keeps handles and bodies from one run to the next.  What it keeps is what it would
find anew (`Instance.Sound`), so two walks with the same scene and the same log that are sound
take the same steps, whatever they have kept (`Walk.alike_steps`), and they stay sound.
-/

namespace CallFlow

/-! ## What an instance may keep -/

/-- The function that a call of the frame applies has the description. -/
def Frame.Describes (f : Frame) (g : Graph) (call : CallId) (d : Description) : Prop :=
  ∃ applied, Assoc.find? f.calls call = some applied ∧ g.function applied.function = .ok d

/-- What a call applies is part of what its frame declares. -/
theorem Frame.Describes.of_reset_eq {f f' : Frame} (h : f'.reset = f.reset) {g : Graph}
    {call : CallId} {d : Description} (hd : f'.Describes g call d) : f.Describes g call d := by
  obtain ⟨applied, happlied, hd⟩ := hd
  have hcalls :
      Assoc.mapValues AppliedCall.reset f'.calls = Assoc.mapValues AppliedCall.reset f.calls :=
    congrArg Frame.calls h
  have hfind := congrArg (fun m => Assoc.find? m call) hcalls
  simp only [Assoc.find?_mapValues, happlied, Option.map_some] at hfind
  obtain ⟨applied', happlied', hreset⟩ := Option.map_eq_some_iff.1 hfind.symm
  have hfunction : applied'.reset.function = applied.reset.function := by rw [hreset]
  change applied'.function = applied.function at hfunction
  exact ⟨applied', happlied', by rw [hfunction]; exact hd⟩

theorem Frame.Describes.unique {f : Frame} {g : Graph} {call : CallId} {d d' : Description}
    (hd : f.Describes g call d) (hd' : f.Describes g call d') : d = d' := by
  obtain ⟨applied, happlied, hd⟩ := hd
  obtain ⟨applied', happlied', hd'⟩ := hd'
  obtain rfl : applied = applied' := Option.some.inj (happlied.symm.trans happlied')
  exact Except.ok.inj (hd.symm.trans hd')

/-- The instance is one of the composition, where every handle is what stands under the path of its
call and every body is an instance of the body of the function, in the same sense.  What was written
is left open. -/
inductive Instance.Sound (ctx : Context) : CompositionId → Instance → Prop where
  | mk {id : CompositionId} {f : Frame} {handles : List (CallId × Callable)}
      {bodies : List (CallId × Instance)}
      (frame : Frame.ofGraph ctx.graph id ctx.checked = .ok f.reset)
      (handle : ∀ call d c, f.Describes ctx.graph call d → Assoc.find? handles call = some c →
        d.implementation.bind ctx.host.resolve = some c)
      (body : ∀ call d bodyId inst, f.Describes ctx.graph call d → d.body = some bodyId →
        Assoc.find? bodies call = some inst → Sound ctx bodyId inst) :
      Sound ctx id (.mk f handles bodies)

namespace Instance

variable {ctx : Context} {id : CompositionId} {inst : Instance}

theorem find?_resetBodies (bodies : Assoc CallId Instance) (call : CallId) :
    Assoc.find? (resetBodies bodies) call = (Assoc.find? bodies call).map reset := by
  induction bodies with
  | nil => rfl
  | cons entry rest ih =>
      obtain ⟨call', body⟩ := entry
      by_cases h : call' = call <;> simp [resetBodies, Assoc.find?, h, ih]

@[simp] theorem frame_reset (inst : Instance) : inst.reset.frame = inst.frame.reset := by
  cases inst
  rfl

namespace Sound

theorem frame_eq (h : inst.Sound ctx id) :
    Frame.ofGraph ctx.graph id ctx.checked = .ok inst.frame.reset := by
  cases h with
  | mk hframe _ _ => exact hframe

theorem closed (h : inst.Sound ctx id) : inst.frame.Closed :=
  (Frame.closed_of_ofGraph h.frame_eq).of_reset_eq (Frame.reset_reset _).symm

/-- **A reset keeps an instance sound**, at every depth. -/
theorem reset (h : inst.Sound ctx id) : inst.reset.Sound ctx id := by
  induction h with
  | @mk id f handles bodies hframe hhandle _ ih =>
      refine .mk (by rw [Frame.reset_reset]; exact hframe) ?_ ?_
      · intro call d c hd
        exact hhandle call d c (hd.of_reset_eq (Frame.reset_reset f))
      · intro call d bodyId inst hd hbody hinst
        rw [find?_resetBodies] at hinst
        obtain ⟨inst', hinst', rfl⟩ := Option.map_eq_some_iff.1 hinst
        exact ih call d bodyId inst' (hd.of_reset_eq (Frame.reset_reset f)) hbody hinst'

/-- Whether an instance is sound does not depend on what was written. -/
theorem withFrame {f f' : Frame} {handles : List (CallId × Callable)}
    {bodies : List (CallId × Instance)} (h : (Instance.mk f handles bodies).Sound ctx id)
    (hreset : f'.reset = f.reset) : (Instance.mk f' handles bodies).Sound ctx id := by
  cases h with
  | mk hframe hhandle hbody =>
      exact .mk (by rw [hreset]; exact hframe)
        (fun call d c hd => hhandle call d c (hd.of_reset_eq hreset))
        fun call d bodyId inst hd => hbody call d bodyId inst (hd.of_reset_eq hreset)

end Sound

theorem ofGraph_eq_ok {g : Graph} {checked : Bool} (h : ofGraph g id checked = .ok inst) :
    ∃ f, Frame.ofGraph g id checked = .ok f ∧ inst = .mk f [] [] := by
  unfold ofGraph at h
  cases hf : Frame.ofGraph g id checked with
  | error fault => simp [hf, Except.map] at h
  | ok f =>
      simp only [hf, Except.map, Except.ok.injEq] at h
      exact ⟨f, rfl, h.symm⟩

theorem sound_ofGraph (h : ofGraph ctx.graph id ctx.checked = .ok inst) : inst.Sound ctx id := by
  obtain ⟨f, hf, rfl⟩ := ofGraph_eq_ok h
  refine .mk (by rw [Frame.reset_of_ofGraph hf]; exact hf) ?_ ?_
  · intro call d c _ hc
    exact absurd hc (by simp)
  · intro call d bodyId inst _ _ hinst
    exact absurd hinst (by simp)

end Instance

/-! ## Calls that are alike -/

/-- Both results are the same, and what they leave is related. -/
inductive Fueled.Matches {α σ : Type} (R : σ → σ → Prop) : Fueled α σ → Fueled α σ → Prop where
  | none : Matches R none none
  | some {r : Except RunFault α} {s s' : σ} (related : R s s') :
      Matches R (some (r, s)) (some (r, s'))

/-- What is kept of a call of the description is what would be found anew. -/
structure Active.Sound (ctx : Context) (d : Description) (a : Active) : Prop where
  handle : ∀ c, a.handle = some c → d.implementation.bind ctx.host.resolve = some c
  body : ∀ id inst, d.body = some id → a.body = some inst → inst.Sound ctx id

/-- The calls differ in what is kept of them only. -/
structure Active.Alike (ctx : Context) (d : Description) (a a' : Active) : Prop where
  call : a.call = a'.call
  log : a.log = a'.log
  left : a.Sound ctx d
  right : a'.Sound ctx d

/-- The bodies differ in what they keep only. -/
structure Ran.Alike (ctx : Context) (id : CompositionId) (ran ran' : Ran) : Prop where
  terminals : ran.terminals = ran'.terminals
  log : ran.log = ran'.log
  left : ran.body.Sound ctx id
  right : ran'.body.Sound ctx id

/-- How a body runs does not depend on what it keeps. -/
structure Runner.Uniform (ctx : Context) (run : Runner) : Prop where
  alike : ∀ {depth id inst inst' ts log}, Instance.Sound ctx id inst → Instance.Sound ctx id inst' →
    inst.frame = inst'.frame →
    (run depth inst ts log).Matches (Ran.Alike ctx id) (run depth inst' ts log)

namespace Context

variable {ctx : Context} {d : Description} {a a' : Active}

theorem sound_withTerminals (h : a.Sound ctx d) (ts : Terminals) :
    (a.withTerminals ts).Sound ctx d :=
  ⟨h.handle, h.body⟩

theorem alike_withTerminals (h : a.Alike ctx d a') (ts : Terminals) :
    (a.withTerminals ts).Alike ctx d (a'.withTerminals ts) :=
  ⟨by simp [Active.withTerminals, h.call], h.log, sound_withTerminals h.left ts,
    sound_withTerminals h.right ts⟩

/-- A handle that is what would be found anew makes no difference, and none is kept that is not. -/
theorem bind_eq_bind {handle : Option Callable}
    (h : ∀ c, handle = some c → d.implementation.bind ctx.host.resolve = some c) (site : Site)
    (receiver : Option Value) :
    (ctx.bind d site handle receiver).1 = (ctx.bind d site none receiver).1 ∧
      ∀ c, (ctx.bind d site handle receiver).2 = some c →
        d.implementation.bind ctx.host.resolve = some c := by
  have hor : handle.or (d.implementation.bind ctx.host.resolve)
      = d.implementation.bind ctx.host.resolve := by
    cases handle with
    | none => rfl
    | some c => exact (h c rfl).symm
  unfold bind
  simp only [hor, Option.none_or]
  split
  · exact ⟨rfl, h⟩
  · split
    · rename_i f hf
      exact ⟨rfl, fun c hc => hf.trans hc⟩
    · exact ⟨rfl, fun c hc => absurd hc (by simp)⟩

theorem alike_invoke (h : a.Alike ctx d a') :
    (ctx.invoke d a).1 = (ctx.invoke d a').1 ∧
      (ctx.invoke d a).2.Alike ctx d (ctx.invoke d a').2 := by
  obtain ⟨call, handle, body, log⟩ := a
  obtain ⟨call', handle', body', log'⟩ := a'
  obtain ⟨rfl, rfl, hleft, hright⟩ := h
  unfold invoke
  simp only []
  split
  · exact ⟨rfl, rfl, rfl, ⟨hleft.handle, hleft.body⟩, ⟨hright.handle, hright.body⟩⟩
  · rename_i args ts hassemble
    obtain ⟨hfound, hkept⟩ := bind_eq_bind hleft.handle call.site args.receiver
    obtain ⟨hfound', hkept'⟩ := bind_eq_bind hright.handle call.site args.receiver
    simp only [hfound, hfound']
    split
    · exact ⟨rfl, rfl, rfl, ⟨hkept, hleft.body⟩, ⟨hkept', hright.body⟩⟩
    · split <;> exact ⟨rfl, rfl, rfl, ⟨hkept, hleft.body⟩, ⟨hkept', hright.body⟩⟩

/-- A body that may be kept is set up anew or fails to be, as one that is not kept. -/
theorem bodyOf_cases {id : CompositionId} {kept : Option Instance}
    (h : ∀ inst, kept = some inst → inst.Sound ctx id) :
    (∃ fault, Frame.ofGraph ctx.graph id ctx.checked = .error fault ∧
      ctx.bodyOf id kept = .error fault) ∨
    ∃ f inst, Frame.ofGraph ctx.graph id ctx.checked = .ok f ∧ ctx.bodyOf id kept = .ok inst ∧
      inst.Sound ctx id ∧ inst.reset.frame = f := by
  cases kept with
  | some inst =>
      have hsound := h inst rfl
      exact .inr ⟨_, inst, hsound.frame_eq, rfl, hsound, inst.frame_reset⟩
  | none =>
      cases hf : Frame.ofGraph ctx.graph id ctx.checked with
      | error fault => exact .inl ⟨fault, rfl, by simp [bodyOf, Instance.ofGraph, hf, Except.map]⟩
      | ok f =>
          have hinst : Instance.ofGraph ctx.graph id ctx.checked = .ok (.mk f [] []) := by
            simp [Instance.ofGraph, hf, Except.map]
          exact .inr ⟨f, _, rfl, hinst, Instance.sound_ofGraph hinst, Frame.reset_of_ofGraph hf⟩

theorem alike_runBody {run : Runner} (hrun : run.Uniform ctx) (h : a.Alike ctx d a') (depth : Nat)
    {id : CompositionId} (hid : d.body = some id) :
    (ctx.runBody run depth d id a).Matches (Active.Alike ctx d)
      (ctx.runBody run depth d id a') := by
  have hcases := bodyOf_cases fun inst => h.left.body id inst hid
  have hcases' := bodyOf_cases fun inst => h.right.body id inst hid
  unfold runBody
  rw [← h.call]
  split
  · exact .some (alike_withTerminals h _)
  · rename_i ts hprepare
    rcases hcases with ⟨fault, hf, hbody⟩ | ⟨f, inst, hf, hbody, hsound, hframe⟩
    · rcases hcases' with ⟨fault', hf', hbody'⟩ | ⟨f', inst', hf', -⟩
      · obtain rfl : fault = fault' := Except.error.inj (hf.symm.trans hf')
        rw [hbody, hbody']
        exact .some (alike_withTerminals h _)
      · exact absurd (hf.symm.trans hf') (by simp)
    · rcases hcases' with ⟨fault', hf', -⟩ | ⟨f', inst', hf', hbody', hsound', hframe'⟩
      · exact absurd (hf.symm.trans hf') (by simp)
      · obtain rfl : f = f' := Except.ok.inj (hf.symm.trans hf')
        rw [hbody, hbody', ← h.log]
        have hmatches :
            (run (depth + 1) inst.reset ts.resetOutputs a.log).Matches (Ran.Alike ctx id)
            (run (depth + 1) inst'.reset ts.resetOutputs a.log) :=
          hrun.alike hsound.reset hsound'.reset (hframe.trans hframe'.symm)
        simp only []
        revert hmatches
        generalize run (depth + 1) inst.reset ts.resetOutputs a.log = x
        generalize run (depth + 1) inst'.reset ts.resetOutputs a.log = x'
        rintro (_ | ⟨hran⟩)
        · exact .none
        · refine .some ⟨?_, hran.log, ⟨h.left.handle, ?_⟩, ⟨h.right.handle, ?_⟩⟩
          · simp [Active.withTerminals, h.call, hran.terminals]
          · rintro id' inst' hid' ⟨⟩
            obtain rfl : id = id' := Option.some.inj (hid.symm.trans hid')
            exact hran.left
          · rintro id' inst' hid' ⟨⟩
            obtain rfl : id = id' := Option.some.inj (hid.symm.trans hid')
            exact hran.right

/-- **How a call executes does not depend on what is kept of it.** -/
theorem alike_execute {run : Runner} (hrun : run.Uniform ctx)
    (hd : ctx.graph.function a.call.function = .ok d) (h : a.Alike ctx d a') (depth : Nat) :
    (ctx.execute run depth a).Matches (Active.Alike ctx d) (ctx.execute run depth a') := by
  unfold execute
  rw [← h.call, hd]
  simp only []
  split
  · rename_i id hid
    exact alike_runBody hrun h depth hid
  · obtain ⟨hresult, halike⟩ := alike_invoke h
    rw [show ctx.invoke d a' = ((ctx.invoke d a).1, (ctx.invoke d a').2) from
      Prod.ext hresult.symm rfl]
    exact .some halike

end Context

/-! ## Walks that are alike -/

namespace Walk

/-- The walks differ in what their instances keep only. -/
structure Alike (ctx : Context) (id : CompositionId) (w w' : Walk) : Prop where
  scene : w.scene = w'.scene
  log : w.log = w'.log
  left : w.toInstance.Sound ctx id
  right : w'.toInstance.Sound ctx id

variable {ctx : Context} {id : CompositionId} {w w' : Walk}

/-- The walk with another scene, in which the same things are declared. -/
theorem alike_withScene (h : w.Alike ctx id w') {s : Scene} (hs : w.scene.Keeps s) :
    ({ w with scene := s } : Walk).Alike ctx id { w' with scene := s } where
  scene := rfl
  log := h.log
  left := h.left.withFrame (hs.frame h.left.closed)
  right := h.right.withFrame (by
    rw [h.scene] at hs
    exact hs.frame h.right.closed)

/-- Taking over a call keeps a walk sound, if what is kept of the call is. -/
theorem sound_keep (h : w.toInstance.Sound ctx id) {call : CallId} {a : Active}
    (ha : ∀ d, w.scene.frame.Describes ctx.graph call d → a.Sound ctx d)
    (hkeeps : w.scene.Keeps (w.keep call a).scene) : (w.keep call a).toInstance.Sound ctx id := by
  have hreset := hkeeps.frame h.closed
  unfold toInstance at h
  cases h with
  | mk hframe hhandle hbody =>
      refine .mk (by rw [hreset]; exact hframe) ?_ ?_
      · intro call' d' c hd' hc
        have hd' := hd'.of_reset_eq hreset
        cases hkept : a.handle with
        | none =>
            simp only [keep, hkept] at hc
            exact hhandle call' d' c hd' hc
        | some c' =>
            simp only [keep, hkept, Assoc.find?_insert] at hc
            split at hc
            · rename_i hcall
              subst hcall
              exact (ha d' hd').handle c (hkept.trans hc)
            · exact hhandle call' d' c hd' hc
      · intro call' d' bodyId inst hd' hid hinst
        have hd' := hd'.of_reset_eq hreset
        cases hkept : a.body with
        | none =>
            simp only [keep, hkept] at hinst
            exact hbody call' d' bodyId inst hd' hid hinst
        | some inst' =>
            simp only [keep, hkept, Assoc.find?_insert] at hinst
            split at hinst
            · rename_i hcall
              subst hcall
              exact (ha d' hd').body bodyId inst hid (hkept.trans hinst)
            · exact hbody call' d' bodyId inst hd' hid hinst

theorem alike_afterCall (h : w.Alike ctx id w') (depth : Nat) (callId : CallId) (call : AppliedCall)
    (result : Except RunFault Unit) :
    (w.afterCall depth callId call result).1 = (w'.afterCall depth callId call result).1 ∧
      (w.afterCall depth callId call result).2.Alike ctx id
        (w'.afterCall depth callId call result).2 := by
  have hrecord : ∀ outcome, (w.record depth callId call outcome).Alike ctx id
      (w'.record depth callId call outcome) := by
    intro outcome
    exact ⟨h.scene, by simp [record, h.scene, h.log], h.left, h.right⟩
  have hsettle := alike_withScene (hrecord .completed) (Scene.keeps_settle w.scene callId)
  unfold afterCall
  split
  · simp only [flow]
    rw [show (w'.record depth callId call .completed).scene
      = (w.record depth callId call .completed).scene from h.scene.symm]
    exact ⟨rfl, hsettle⟩
  · split
    · exact ⟨rfl, hrecord _⟩
    · exact ⟨rfl, hrecord _⟩

/-- What an instance keeps of a call is what would be found anew. -/
theorem sound_active (h : w.toInstance.Sound ctx id) {call : CallId}
    {applied : AppliedCall} {log : Log}
    {d : Description} (hd : w.scene.frame.Describes ctx.graph call d) :
    Active.Sound ctx d ⟨applied, Assoc.find? w.handles call, Assoc.find? w.bodies call, log⟩ := by
  unfold toInstance at h
  cases h with
  | mk _ hhandle hbody =>
      exact ⟨fun c hc => hhandle call d c hd hc,
        fun bodyId inst hid hinst => hbody call d bodyId inst hd hid hinst⟩

/-- Walks that are alike stay so if they take over a call that was executed alike. -/
theorem alike_kept (h : w.Alike ctx id w') {callId : CallId} {a a' : Active}
    (hcall : a.call = a'.call)
    (hlog : a.log = a'.log)
    (hleft : ∀ d, w.scene.frame.Describes ctx.graph callId d → a.Sound ctx d)
    (hright : ∀ d, w.scene.frame.Describes ctx.graph callId d → a'.Sound ctx d)
    (hkeeps : w.scene.Keeps (w.scene.withCall callId a.call)) :
    (w.keep callId a).Alike ctx id (w'.keep callId a') where
  scene := by simp [keep, h.scene, hcall]
  log := hlog
  left := sound_keep h.left hleft hkeeps
  right := by
    rw [h.scene] at hright
    refine sound_keep h.right hright ?_
    rw [h.scene, hcall] at hkeeps
    exact hkeeps

/-- The execution of one call in walks that are alike. -/
theorem alike_keep {run : Runner} (hfaithful : run.Faithful) (huniform : run.Uniform ctx)
    (h : w.Alike ctx id w') (depth : Nat) {callId : CallId} {call : AppliedCall}
    (hcall : Assoc.find? w.scene.frame.calls callId = some call) :
    (ctx.execute run depth ⟨call, Assoc.find? w.handles callId, Assoc.find? w.bodies callId,
        w.log⟩).Matches
      (fun a a' => (w.keep callId a).Alike ctx id (w'.keep callId a'))
      (ctx.execute run depth ⟨call, Assoc.find? w'.handles callId, Assoc.find? w'.bodies callId,
        w'.log⟩) := by
  have hkeeps : ∀ {r handle body a},
      ctx.execute run depth ⟨call, handle, body, w.log⟩ = some (r, a) →
      w.scene.Keeps (w.scene.withCall callId a.call) := by
    intro r handle body a hexecute
    exact Scene.keeps_withCall hcall (Context.reset_execute hfaithful hexecute)
  have hunique : ∀ {d d'}, ctx.graph.function call.function = .ok d →
      w.scene.frame.Describes ctx.graph callId d' → d' = d := by
    intro d d' hd hd'
    exact hd'.unique ⟨call, hcall, hd⟩
  rw [← h.log]
  cases hd : ctx.graph.function call.function with
  | error fault =>
      -- no description is found, so that nothing is executed and nothing has to be shown of handles
      have hnone : ∀ d, ¬ w.scene.frame.Describes ctx.graph callId d := by
        rintro d ⟨applied, happlied, hd'⟩
        obtain rfl : call = applied := Option.some.inj (hcall.symm.trans happlied)
        exact absurd (hd.symm.trans hd') (by simp)
      have hexecute : ∀ handle body, ctx.execute run depth ⟨call, handle, body, w.log⟩
          = some (.error (.ofGraph fault), ⟨call, handle, body, w.log⟩) := by
        intro handle body
        simp [Context.execute, hd]
      rw [hexecute, hexecute]
      exact .some (alike_kept h rfl rfl (fun d hd' => absurd hd' (hnone d))
        (fun d hd' => absurd hd' (hnone d)) (hkeeps (hexecute _ _)))
  | ok d =>
      have hdescribes : w.scene.frame.Describes ctx.graph callId d := ⟨call, hcall, hd⟩
      have halike : Active.Alike ctx d
          ⟨call, Assoc.find? w.handles callId, Assoc.find? w.bodies callId, w.log⟩
          ⟨call, Assoc.find? w'.handles callId, Assoc.find? w'.bodies callId, w.log⟩ :=
        ⟨rfl, rfl, sound_active h.left hdescribes, sound_active h.right (h.scene ▸ hdescribes)⟩
      have hmatches := Context.alike_execute huniform hd halike depth
      revert hmatches
      generalize hx : ctx.execute run depth ⟨call, Assoc.find? w.handles callId,
        Assoc.find? w.bodies callId, w.log⟩ = x
      generalize ctx.execute run depth ⟨call, Assoc.find? w'.handles callId,
        Assoc.find? w'.bodies callId, w.log⟩ = x'
      rintro (_ | ⟨ha⟩)
      · exact .none
      · exact .some (alike_kept h ha.call ha.log (fun d' hd' => hunique hd hd' ▸ ha.left)
          (fun d' hd' => hunique hd hd' ▸ ha.right) (hkeeps hx))

/-- **Visits in walks that are alike end alike.** -/
theorem alike_visit {run : Runner} (hfaithful : run.Faithful) (huniform : run.Uniform ctx)
    (h : w.Alike ctx id w') (depth : Nat) (callId : CallId) :
    (visit ctx run depth callId w).Matches (Alike ctx id) (visit ctx run depth callId w') := by
  unfold visit flow
  simp only [← h.scene, ← h.log]
  cases hingest : (Flow.ingestAll (w.scene.frame.wiring.inputSlots callId)).run w.scene with
  | mk result s =>
    have hingested := alike_withScene h (evolves_ingestAll hingest).keeps
    cases result with
    | error fault => exact .some (by simpa [h.log] using hingested)
    | ok _ =>
      have hvisited : Alike ctx id { w with scene := s, log := w.log.visit callId }
          { w' with scene := s, log := w.log.visit callId } :=
        ⟨rfl, rfl, hingested.left, hingested.right⟩
      cases hcall : Assoc.find? s.frame.calls callId with
      | none => simpa [hcall] using .some hvisited
      | some call =>
        have hmatches := alike_keep hfaithful huniform hvisited depth hcall
        simp only [hcall]
        revert hmatches
        generalize ctx.execute run depth ⟨call, Assoc.find? w.handles callId,
          Assoc.find? w.bodies callId, w.log.visit callId⟩ = x
        generalize ctx.execute run depth ⟨call, Assoc.find? w'.handles callId,
          Assoc.find? w'.bodies callId, w.log.visit callId⟩ = x'
        rintro (_ | ⟨hkept⟩)
        · exact .none
        · rename_i r a a'
          obtain ⟨hresult, hafter⟩ := alike_afterCall hkept depth callId call r
          simp only []
          rw [← Prod.eta (afterCall _ depth callId call r), hresult]
          exact .some hafter

/-- Walks that are alike go through a step of data flow alike. -/
theorem alike_flow {α : Type} (h : w.Alike ctx id w') {step : Flow α}
    (hkeeps : w.scene.Keeps (step.run w.scene).2) :
    (w.flow step).1 = (w'.flow step).1 ∧ (w.flow step).2.Alike ctx id (w'.flow step).2 := by
  unfold flow
  rw [← h.scene]
  exact ⟨rfl, alike_withScene h hkeeps⟩

theorem alike_around {walk : Option CallId → Walk → Fueled Unit Walk}
    (hwalk : ∀ next {w w'}, Alike ctx id w w' → (walk next w).Matches (Alike ctx id) (walk next w'))
    (h : w.Alike ctx id w') : (around walk w).Matches (Alike ctx id) (around walk w') := by
  obtain ⟨hresult, hseeded⟩ := alike_flow h (Flow.evolves_seed w.scene).keeps
  unfold around
  revert hresult hseeded
  rcases w.flow Flow.seed with ⟨r, w₁⟩
  rcases w'.flow Flow.seed with ⟨r', w₁'⟩
  rintro ⟨⟩ (hseeded : w₁.Alike ctx id w₁')
  cases r with
  | error fault => exact .some hseeded
  | ok _ =>
    have hmatches := hwalk w₁.scene.frame.start hseeded
    simp only [← hseeded.scene]
    revert hmatches
    generalize walk w₁.scene.frame.start w₁ = x
    generalize walk w₁.scene.frame.start w₁' = x'
    rintro (_ | ⟨hwalked⟩)
    · exact .none
    · rename_i r w₂ w₂'
      cases r with
      | error fault => exact .some hwalked
      | ok _ =>
        simp only [← hwalked.scene]
        split
        · exact .some hwalked
        · obtain ⟨hresult, hfinished⟩ := alike_flow hwalked (Flow.evolves_finish w₂.scene).keeps
          rw [← Prod.eta (w₂.flow Flow.finish), hresult]
          exact .some hfinished

theorem uniform_runner {walk : Nat → Option CallId → Walk → Fueled Unit Walk}
    (hwalk : ∀ {id} depth next {w w'}, Alike ctx id w w' →
      (walk depth next w).Matches (Alike ctx id) (walk depth next w')) :
    (runner walk).Uniform ctx := by
  constructor
  intro depth id inst inst' ts log hsound hsound' hframe
  have hbegin : Alike ctx id (begin inst (some ts) log) (begin inst' (some ts) log) :=
    ⟨by simp [begin, hframe], rfl, by cases inst; exact hsound, by cases inst'; exact hsound'⟩
  have hmatches := alike_around (hwalk depth) hbegin
  unfold runner
  revert hmatches
  generalize around (walk depth) (begin inst (some ts) log) = x
  generalize around (walk depth) (begin inst' (some ts) log) = x'
  rintro (_ | ⟨hran⟩)
  · exact .none
  · exact .some ⟨by simp [hran.scene], hran.log, hran.left, hran.right⟩

/-- **Walks that are alike go the same way.** -/
theorem alike_steps (h : w.Alike ctx id w') (fuel depth : Nat) (next : Option CallId) :
    (steps ctx fuel depth next w).Matches (Alike ctx id) (steps ctx fuel depth next w') := by
  induction fuel generalizing id depth next w w' with
  | zero =>
      cases next with
      | none =>
          rw [steps, steps]
          exact .some h
      | some callId => exact .none
  | succ fuel ih =>
      cases next with
      | none =>
          rw [steps, steps]
          exact .some h
      | some callId =>
          have huniform : (runner (steps ctx fuel)).Uniform ctx :=
            uniform_runner fun depth next => fun halike => ih halike depth next
          have hmatches := alike_visit (faithful_runner ctx fuel) huniform h depth callId
          rw [steps, steps]
          revert hmatches
          generalize visit ctx (runner (steps ctx fuel)) depth callId w = x
          generalize visit ctx (runner (steps ctx fuel)) depth callId w' = x'
          rintro (_ | ⟨hvisited⟩)
          · exact .none
          · rename_i r w₁ w₁'
            cases r with
            | error fault => exact .some hvisited
            | ok following => exact ih hvisited depth following

theorem alike_run (h : w.Alike ctx id w') (fuel depth : Nat) :
    (run ctx fuel depth w).Matches (Alike ctx id) (run ctx fuel depth w') :=
  alike_around (fun next => fun halike => alike_steps halike fuel depth next) h

end Walk

end CallFlow
