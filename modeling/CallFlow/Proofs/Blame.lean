import CallFlow.Proofs.CallTree
import CallFlow.Proofs.Exhaustion

/-!
# Who is blamed for an exhaustion

An exhaustion that no loop node consumes leaves its execution as the failure of an implementation.
The site of the failure has come with the signal.  The function is looked up in the log instead,
which keeps that of the first visit of the execution that failed (`Log.Records`).

That visit is the one at the site, unless a loop node has consumed an exhaustion before.  The
visits that such a signal unwinds fail as well, inside of the body of the loop node, and from then
on it is the first of them whose function is named (`Engine.Blames`).

So the visits are accounted for along with the stages that the execution passes
(`Stage.Accounts`): as long as it goes on, each visit that failed lies inside of one that was
exhausted (`Consumed`), and when an exhaustion unwinds it, the last visits are those that the
signal has failed (`Stage.Escapes`).  This is shown by induction on the fuel, for the runs of
bodies along with the walk around them (`Walk.stepsAccount`).
-/

namespace CallFlow

/-! ## Visits that failed -/

/-- The first of the visits that failed. -/
def firstFailed? (es : List TraceEntry) : Option TraceEntry := es.find? fun e => e.outcome = .failed

theorem firstFailed?_append (es es' : List TraceEntry) :
    firstFailed? (es ++ es') = (firstFailed? es).or (firstFailed? es') := List.find?_append

/-- Each of the visits that failed lies inside of a later one that was exhausted: a loop node has
consumed the signal. -/
def Consumed : List TraceEntry → Prop
  | [] => True
  | e :: rest =>
      (e.outcome = .failed → ∃ l ∈ rest, l.outcome = .exhausted ∧ l.depth < e.depth) ∧ Consumed rest

namespace Consumed

variable {es es' : List TraceEntry} {e : TraceEntry}

theorem append (h : Consumed es) (h' : Consumed es') : Consumed (es ++ es') := by
  induction es with
  | nil => exact h'
  | cons e rest ih =>
      refine ⟨fun hfailed => ?_, ih h.2⟩
      obtain ⟨l, hl, hexhausted⟩ := h.1 hfailed
      exact ⟨l, List.mem_append_left _ hl, hexhausted⟩

theorem of_append (h : Consumed (es ++ es')) : Consumed es' := by
  induction es with
  | nil => exact h
  | cons e rest ih => exact ih h.2

theorem singleton (he : e.outcome ≠ .failed) : Consumed [e] :=
  ⟨fun hfailed => absurd hfailed he, trivial⟩

/-- Whatever has failed inside of a visit is consumed if the visit is exhausted. -/
theorem enclosed (he : e.outcome = .exhausted) (hinside : ∀ n ∈ es, e.depth < n.depth) :
    Consumed (es ++ [e]) := by
  induction es with
  | nil => exact singleton (by simp [he])
  | cons n rest ih =>
      refine ⟨fun _ => ⟨e, by simp, he, hinside n (by simp)⟩, ih fun n hn => ?_⟩
      exact hinside n (List.mem_cons_of_mem _ hn)

/-- The first visit that failed, and the loop node that has consumed the signal. -/
theorem exists_loop (h : Consumed es) (hfirst : firstFailed? es = some e) :
    ∃ before between l after, es = before ++ e :: (between ++ l :: after) ∧
      (∀ n ∈ before, n.outcome ≠ .failed) ∧ e.outcome = .failed ∧
      l.outcome = .exhausted ∧ l.depth < e.depth := by
  obtain ⟨hfailed, before, rest, rfl, hclean⟩ := List.find?_eq_some_iff_append.1 hfirst
  have houtcome : e.outcome = .failed := by simpa using hfailed
  obtain ⟨l, hl, hexhausted, hdepth⟩ := h.of_append.1 houtcome
  obtain ⟨between, after, rfl⟩ := List.append_of_mem hl
  refine ⟨before, between, l, after, rfl, ?_, houtcome, hexhausted, hdepth⟩
  intro n hn
  simpa using hclean n hn

end Consumed

namespace Log

/-- Between the two logs the visits ended, in this order. -/
structure Records (l l' : Log) (es : List TraceEntry) : Prop where
  trace : l'.trace = l.trace.map (es.reverse ++ ·)
  failed : l'.failed = l.failed.or ((firstFailed? es).map (·.function))

variable {l l' l'' : Log} {es es' : List TraceEntry}

theorem Records.refl (l : Log) : l.Records l [] := ⟨by simp, by simp [firstFailed?]⟩

theorem Records.of_visit {call : CallId} (h : (l.visit call).Records l' es) : l.Records l' es :=
  ⟨h.trace, h.failed⟩

theorem Records.trans (h : l.Records l' es) (h' : l'.Records l'' es') :
    l.Records l'' (es ++ es') := by
  constructor
  · rw [h'.trace, h.trace, Option.map_map]
    congr 1
    funext t
    simp
  · rw [h'.failed, h.failed, firstFailed?_append, Option.or_assoc]
    cases firstFailed? es <;> simp

/-- The function of a visit that failed is kept if no visit has failed before. -/
theorem records_record (l : Log) (e : TraceEntry) : l.Records (l.record e) [e] := by
  refine ⟨rfl, ?_⟩
  by_cases he : e.outcome = .failed <;> cases hfailed : l.failed <;>
    simp [record, firstFailed?, he, hfailed]

end Log

/-! ## Visits along the stages -/

namespace Stage

open Relation (ReflTransGen)

/-- From the stage the execution comes to the visit: it passes the call that is visited, whose
execution has the outcome that was written down. -/
inductive Visits (ctx : Context) (stage : Stage) (e : TraceEntry) : Prop where
  | intro {fuel : Nat} {a a' : Active} {r : Except RunFault Unit}
      (declared : e.VisitsIn ctx.graph e.depth e.composition)
      (passes : ReflTransGen (Leads ctx) stage (.call e.depth a))
      (executes : ctx.execute (Walk.runner (Walk.steps ctx fuel)) e.depth a = some (r, a'))
      (site : a.call.site = .call e.call) (function : a.call.function = e.function)
      (outcome : e.outcome = Walk.outcomeOf a.call.successor r)

/-- From the stage the execution comes to a call that signals exhaustion by itself.  The visit of it
fails with the signal, and so do the visits around it, from the inside to the outside. -/
structure Unwinds (ctx : Context) (stage : Stage) (raised : TraceEntry)
    (unwound : List TraceEntry) :
    Prop where
  raises :
      ∃ a, ReflTransGen (Leads ctx) stage (.call raised.depth a) ∧ a.call.site = .call raised.call ∧
    a.call.function = raised.function ∧ a.Raises ctx
  failed : ∀ e ∈ raised :: unwound, e.outcome = .failed

/-- What the visits since the stage are, when an exhaustion comes out of it: there are none if it is
a call that signals exhaustion by itself; else the signal has unwound the last of them, and what
failed before was consumed. -/
inductive Escapes (ctx : Context) : Stage → Site → List TraceEntry → Prop where
  | raised {depth : Nat} {a : Active} (raises : a.Raises ctx) :
      Escapes ctx (.call depth a) a.call.site []
  | unwound {stage : Stage} {earlier unwound : List TraceEntry} {raised : TraceEntry}
      (consumed : Consumed earlier) (unwinds : stage.Unwinds ctx raised unwound) :
      Escapes ctx stage (.call raised.call) (earlier ++ raised :: unwound)

/-- The visits that ended since the stage, at the depth or deeper, between the two logs, and what
they are if the result is this one. -/
structure Accounts {α : Type} (ctx : Context) (stage : Stage) (depth : Nat) (l l' : Log)
    (r : Except RunFault α) (es : List TraceEntry) : Prop where
  records : l.Records l' es
  deep : ∀ e ∈ es, depth ≤ e.depth
  visits : ∀ e ∈ es, stage.Visits ctx e
  succeeded : ∀ a, r = .ok a → Consumed es
  exhausted : ∀ site, r = .error (.exhausted site) → stage.Escapes ctx site es

variable {ctx : Context} {stage stage' : Stage} {depth : Nat} {l l' l'' : Log} {e : TraceEntry}
  {es es' : List TraceEntry} {site : Site} {α β : Type} {r : Except RunFault α}
  {r' : Except RunFault β}

theorem Visits.of_passes (h : stage'.Visits ctx e)
    (hpasses : ReflTransGen (Leads ctx) stage stage') :
    stage.Visits ctx e := by
  obtain ⟨hdeclared, hcall, hexecute, hsite, hfunction, houtcome⟩ := h
  exact .intro hdeclared (hpasses.trans hcall) hexecute hsite hfunction houtcome

theorem Unwinds.of_passes {raised : TraceEntry} {unwound : List TraceEntry}
    (h : stage'.Unwinds ctx raised unwound) (hpasses : ReflTransGen (Leads ctx) stage stage') :
    stage.Unwinds ctx raised unwound := by
  obtain ⟨⟨a, hcall, hraises⟩, hfailed⟩ := h
  exact ⟨⟨a, hpasses.trans hcall, hraises⟩, hfailed⟩

/-- What comes out of a later stage that is no call comes out of the earlier one, behind what was
consumed in between. -/
theorem Escapes.of_passes (h : stage'.Escapes ctx site es')
    (hcall : ∀ depth a, stage' ≠ .call depth a)
    (hpasses : ReflTransGen (Leads ctx) stage stage') (hconsumed : Consumed es) :
    stage.Escapes ctx site (es ++ es') := by
  cases h with
  | raised _ => exact absurd rfl (hcall _ _)
  | unwound hearlier hunwinds =>
      rw [← List.append_assoc]
      exact .unwound (hconsumed.append hearlier) (hunwinds.of_passes hpasses)

/-- What comes out of a call comes out of the visit of it, which has failed. -/
theorem Escapes.failed {a : Active} (h : (Stage.call e.depth a).Escapes ctx site es)
    (hleads : Leads ctx stage (.call e.depth a)) (hsite : a.call.site = .call e.call)
    (hfunction : a.call.function = e.function) (hfailed : e.outcome = .failed) :
    stage.Escapes ctx site (es ++ [e]) := by
  have hpasses : ReflTransGen (Leads ctx) stage (.call e.depth a) := .single hleads
  cases h with
  | raised hraises =>
      rw [hsite]
      show stage.Escapes ctx _ ([] ++ e :: [])
      refine .unwound trivial ⟨⟨a, hpasses, hsite, hfunction, hraises⟩, ?_⟩
      intro n hn
      obtain rfl := List.mem_singleton.1 hn
      exact hfailed
  | unwound hearlier hunwinds =>
      obtain ⟨hraises, hunwound⟩ := hunwinds.of_passes hpasses
      rw [List.append_assoc, List.cons_append]
      refine .unwound hearlier ⟨hraises, ?_⟩
      intro n hn
      rcases List.mem_append.1 (by simpa using hn : n ∈ _ :: _ ++ [e]) with hn | hn
      · exact hunwound n hn
      · obtain rfl := List.mem_singleton.1 hn
        exact hfailed

namespace Accounts

/-- Nothing is to account for where no visit ended and no exhaustion comes out. -/
theorem nothing (hrecords : l.Records l' []) (hr : ∀ site, r ≠ .error (.exhausted site)) :
    Accounts ctx stage depth l l' r [] where
  records := hrecords
  deep := by simp
  visits := by simp
  succeeded _ _ := trivial
  exhausted site h := absurd h (hr site)

/-- The same visits account for another result, which shows no more of success and exhaustion. -/
theorem result (h : Accounts ctx stage depth l l' r es) (hok : ∀ b, r' = .ok b → ∃ a, r = .ok a)
    (hexhausted : ∀ site, r' = .error (.exhausted site) → r = .error (.exhausted site)) :
    Accounts ctx stage depth l l' r' es where
  records := h.records
  deep := h.deep
  visits := h.visits
  succeeded b hb := by
    obtain ⟨a, ha⟩ := hok b hb
    exact h.succeeded a ha
  exhausted site hsite := h.exhausted site (hexhausted site hsite)

/-- What a later stage accounts for that is no call, an earlier one accounts for with what came
before, if that has succeeded. -/
theorem trans {a : α} (h : Accounts ctx stage depth l l' (.ok a : Except RunFault α) es)
    (h' : Accounts ctx stage' depth l' l'' r' es') (hcall : ∀ depth a, stage' ≠ .call depth a)
    (hpasses : ReflTransGen (Leads ctx) stage stage') :
    Accounts ctx stage depth l l'' r' (es ++ es') where
  records := h.records.trans h'.records
  deep e he := by
    rcases List.mem_append.1 he with he | he
    · exact h.deep e he
    · exact h'.deep e he
  visits e he := by
    rcases List.mem_append.1 he with he | he
    · exact h.visits e he
    · exact (h'.visits e he).of_passes hpasses
  succeeded b hb := (h.succeeded a rfl).append (h'.succeeded b hb)
  exhausted site hsite := (h'.exhausted site hsite).of_passes hcall hpasses (h.succeeded a rfl)

/-- What a later stage accounts for that is no call, an earlier one accounts for. -/
theorem of_passes (h : Accounts ctx stage' depth l l' r es)
    (hcall : ∀ depth a, stage' ≠ .call depth a)
    (hpasses : ReflTransGen (Leads ctx) stage stage') : Accounts ctx stage depth l l' r es := by
  have hnothing : Accounts ctx stage depth l l (.ok ()) [] := nothing (.refl l) (by simp)
  exact hnothing.trans h hcall hpasses

end Accounts

end Stage

/-! ## What calls, visits and walks account for -/

/-- The calls of a grounded walk stand at the sites of their identities. -/
theorem Walk.Grounded.site_eq {ctx : Context} {w : Walk} (h : w.Grounded ctx) {call : CallId}
    {applied : AppliedCall} (hcall : Assoc.find? w.scene.frame.calls call = some applied) :
    applied.site = .call call := by
  obtain ⟨⟨id, inputs, w₀, hbegins, hkeeps, -⟩, -⟩ := h
  obtain ⟨c, decl, d, -, -, -, hreset⟩ := hbegins.reset_applied hkeeps hcall
  show applied.reset.site = _
  rw [hreset]
  rfl

namespace Walk

/-- The visits of walks with the fuel are accounted for. -/
def StepsAccount (ctx : Context) (fuel : Nat) : Prop :=
  ∀ {depth : Nat} {next : Option CallId} {w w' : Walk} {r : Except RunFault Unit}, w.Grounded ctx →
    steps ctx fuel depth next w = some (r, w') →
    ∃ es, Stage.Accounts ctx (.between depth (.ok next) w) depth w.log w'.log r es

variable {ctx : Context} {fuel depth : Nat}

/-- The visits of a run are those of its walk. -/
theorem accounts_around (hsteps : StepsAccount ctx fuel) {w w' : Walk} {r : Except RunFault Unit}
    (hw : w.Grounded ctx) (h : around (steps ctx fuel depth) w = some (r, w')) :
    ∃ es, Stage.Accounts ctx (.start depth w) depth w.log w'.log r es := by
  rcases around_eq_some h with ⟨fault, s, hseed, rfl, rfl⟩ | ⟨s, r₁, w₁, hseed, hwalk, hend⟩
  · refine ⟨[], .nothing (.refl _) fun site hsite => ?_⟩
    obtain rfl := Except.error.inj hsite
    exact absurd trivial (Flow.failsAs_seed _ _ _ hseed).not_isExhausted
  · have hseeded : w.flow Flow.seed = (.ok (), { w with scene := s }) := by simp [flow, hseed]
    have hgrounded := hw.flow (Flow.evolves_seed w.scene).keeps hseeded
    obtain ⟨es, haccounts⟩ := hsteps hgrounded hwalk
    have hstart : Stage.Accounts ctx (.start depth w) depth w.log w₁.log r₁ es :=
      haccounts.of_passes (by simp) (.single (.seeded hseeded))
    rcases hend with ⟨rfl, rfl, -⟩ | ⟨s₁, rfl, -, hfinish, rfl⟩
    · exact ⟨es, hstart⟩
    · refine ⟨es, hstart.result (fun _ _ => ⟨_, rfl⟩) fun site hsite => ?_⟩
      subst hsite
      exact absurd trivial (Flow.failsAs_finish _ _ _ hfinish).not_isExhausted

/-- An exhaustion that comes out of what follows a call is that of the call, whose visit fails. -/
theorem failed_of_afterCall {w w' : Walk} {id : CallId} {call : AppliedCall}
    {result : Except RunFault Unit} {site : Site}
    (h : w.afterCall depth id call result = (.error (.exhausted site), w')) :
    result = .error (.exhausted site) ∧ outcomeOf call.successor result = .failed := by
  rcases afterCall_eq_error h with hfailed | ⟨s, hsettle⟩
  · exact hfailed
  · exact absurd trivial (Flow.failsAs_settle hsettle).not_isExhausted

end Walk

namespace Context

variable {ctx : Context} {fuel depth : Nat} {a a' : Active} {r : Except RunFault Unit}

/-- **The visits of a call are those of its body.**  If it is executed by its implementation there
are none, and then an exhaustion is its own. -/
theorem accounts_execute (hsteps : Walk.StepsAccount ctx fuel) (ha : a.Grounded ctx)
    (h : ctx.execute (Walk.runner (Walk.steps ctx fuel)) depth a = some (r, a')) :
    ∃ es, Stage.Accounts ctx (.call depth a) (depth + 1) a.log a'.log r es := by
  have hcall : (Stage.call depth a).Grounded ctx := ha
  cases performs_of_execute h with
  | @unknown fault hnone =>
      refine ⟨[], .nothing (.refl _) fun site hsite => ?_⟩
      exact absurd (show (RunFault.ofGraph fault).IsExhausted by
        rw [Except.error.inj hsite]; trivial)
        (RunFault.not_isExhausted_ofGraph fault)
  | unprepared hd hid hprepare =>
      refine ⟨[], .nothing (.refl _) fun site hsite => ?_⟩
      obtain rfl := Except.error.inj hsite
      exact absurd trivial (Terminals.ofValues_prepare hprepare).not_isExhausted
  | notSetUp hd hid hprepare hset =>
      refine ⟨[], .nothing (.refl _) fun site hsite => ?_⟩
      obtain rfl := Except.error.inj hsite
      exact absurd trivial (not_isExhausted_bodyOf hset)
  | ran hd hid hprepare hset hran =>
      have hleads := @Stage.Leads.nested ctx depth a _ _ _ _ hd hid hprepare hset
      obtain ⟨w', hrun, rfl⟩ := Walk.runner_eq_some hran
      obtain ⟨es, haccounts⟩ := Walk.accounts_around hsteps (hcall.leads hleads).1 hrun
      exact ⟨es, haccounts.of_passes (by simp) (.single hleads)⟩
  | invoked hd hnone hinvoke =>
      refine ⟨[], ⟨by rw [log_invoke hinvoke]; exact .refl _, by simp, by simp,
        fun _ _ => trivial, ?_⟩⟩
      intro site hsite
      subst hsite
      obtain ⟨hraises, rfl, -⟩ := raises_of_invoke hd hnone hinvoke
      exact .raised hraises

end Context

namespace Walk

variable {ctx : Context} {fuel depth : Nat}

theorem Refuses.records {id : CallId} {w w' : Walk} {fault : RunFault} (h : Refuses id w fault w') :
    w.log.Records w'.log [] := by
  cases h with
  | inputs _ => exact .refl _
  | missing _ _ => exact (Log.Records.refl _).of_visit

/-- The visit of a call accounts for what the call accounts for, and for itself: it consumes an
exhaustion, or fails with it. -/
theorem accounts_entered {w w' : Walk} {id : CallId} {call : AppliedCall} {a : Active}
    {result : Except RunFault Unit} {r : Except RunFault (Option CallId)} {e : TraceEntry}
    {es : List TraceEntry} {l l' : Log} {stage : Stage}
    (hvisits : stage.Visits ctx e) (hleads : Stage.Leads ctx stage (.call e.depth a))
    (h : Stage.Accounts ctx (.call e.depth a) (e.depth + 1) (l.visit e.call) l' result es)
    (hsite : a.call.site = .call e.call) (hfunction : a.call.function = e.function)
    (houtcome : e.outcome = outcomeOf call.successor result)
    (hafter : w.afterCall depth id call result = (r, w')) :
    Stage.Accounts ctx stage e.depth l (l'.record e) r (es ++ [e]) where
  records := h.records.of_visit.trans (l'.records_record e)
  deep n hn := by
    rcases List.mem_append.1 hn with hn | hn
    · exact Nat.le_of_succ_le (h.deep n hn)
    · exact Nat.le_of_eq (by rw [List.mem_singleton.1 hn])
  visits n hn := by
    rcases List.mem_append.1 hn with hn | hn
    · exact (h.visits n hn).of_passes (.single hleads)
    · rwa [List.mem_singleton.1 hn]
  succeeded next hr := by
    subst hr
    rcases afterCall_eq_ok hafter with ⟨rfl, -⟩ | ⟨site, iterate, rfl, hloop⟩
    · refine (h.succeeded () rfl).append (.singleton ?_)
      rw [houtcome]
      simp [outcomeOf]
    · rw [hloop] at houtcome
      exact .enclosed houtcome h.deep
  exhausted site hr := by
    subst hr
    obtain ⟨rfl, hfailed⟩ := failed_of_afterCall hafter
    exact (h.exhausted site rfl).failed hleads hsite hfunction (houtcome.trans hfailed)

/-- **The visits of a call are accounted for by the visit of it**, which consumes an exhaustion or
fails with it. -/
theorem accounts_visit (hsteps : StepsAccount ctx fuel) {id : CallId} {w w' : Walk}
    {r : Except RunFault (Option CallId)} (hw : w.Grounded ctx)
    (h : visit ctx (runner (steps ctx fuel)) depth id w = some (r, w')) :
    ∃ es, Stage.Accounts ctx (.between depth (.ok (some id)) w) depth w.log w'.log r es := by
  rcases visit_cases h with ⟨fault, rfl, hrefuses⟩ | ⟨v, rfl, hexecutes⟩
  · refine ⟨[], .nothing hrefuses.records fun site hsite => ?_⟩
    obtain rfl := Except.error.inj hsite
    exact absurd trivial hrefuses.not_isExhausted
  · obtain ⟨hingest, hfound, hexecute, -, -, hafter⟩ := hexecutes
    rename_i s call result a
    have hflow : w.flow (Flow.ingestAll (w.scene.frame.wiring.inputSlots v.call))
        = (.ok (), { w with scene := s }) := by simp [flow, hingest]
    have hbetween : (Stage.between depth (.ok (some v.call)) w).Grounded ctx := hw
    have hleads := @Stage.Leads.entered ctx depth v.call w { w with scene := s } call hflow hfound
    have hgrounded : ({ w with scene := s } : Walk).Grounded ctx :=
      hw.flow (Flow.evolves_ingestAll w.scene _).keeps hflow
    obtain ⟨es, haccounts⟩ := Context.accounts_execute hsteps (hbetween.leads hleads) hexecute
    have hsite : call.site = .call v.call := hgrounded.site_eq hfound
    have hvisits : Stage.Visits ctx (.between depth (.ok (some v.call)) w)
        ⟨depth, s.frame.id, v.call, call.function, outcomeOf call.successor result⟩ :=
      .intro (hgrounded.visitsIn hfound depth result) (.single hleads) hexecute hsite rfl rfl
    have hentered := accounts_entered hvisits hleads haccounts hsite rfl rfl hafter
    have hlog : w'.log = a.log.record
        ⟨depth, s.frame.id, v.call, call.function, outcomeOf call.successor result⟩ :=
        log_afterCall hafter
    rw [← hlog] at hentered
    exact ⟨_, hentered⟩

/-- **The visits of walks are accounted for.** -/
theorem stepsAccount (ctx : Context) (fuel : Nat) : StepsAccount ctx fuel := by
  intro depth next w w' r hw h
  refine induction_on_steps (P := fun depth next w r w' => w.Grounded ctx →
    ∃ es, Stage.Accounts ctx (.between depth (.ok next) w) depth w.log w'.log r es) ?_ ?_ ?_ h hw
  · intro depth w _
    exact ⟨[], .nothing (.refl _) (by simp)⟩
  · intro fuel depth id w fault w' hbodies hvisit hw
    obtain ⟨es, haccounts⟩ := accounts_visit (fun hw h => hbodies h hw) hw hvisit
    refine ⟨es, haccounts.result (by simp) fun site hsite => ?_⟩
    rw [Except.error.inj hsite]
  · intro fuel depth id w next w₁ r w' hbodies hvisit hlater hw
    have hbetween : (Stage.between depth (.ok (some id)) w).Grounded ctx := hw
    have hleads :
        Stage.Leads ctx (.between depth (.ok (some id)) w) (.between depth (.ok next) w₁) :=
      .visited hvisit
    obtain ⟨es, hvisited⟩ := accounts_visit (fun hw h => hbodies h hw) hw hvisit
    obtain ⟨es', hwalked⟩ := hlater (hbetween.leads hleads)
    exact ⟨es ++ es', hvisited.trans hwalked (by simp) (.single hleads)⟩

end Walk

/-! ## Who is blamed -/

/-- The call that was visited is declared with the function of the description. -/
def TraceEntry.Calls (g : Graph) (e : TraceEntry) (d : Description) : Prop :=
  ∃ c decl, g.composition e.composition = .ok c ∧ c.applied? e.call = some decl ∧
    g.function decl.function = .ok d ∧ e.function = d.id

theorem TraceEntry.Calls.function_eq {g : Graph} {e : TraceEntry} {d : Description}
    (h : e.Calls g d) :
    e.function = d.id := by
  obtain ⟨c, decl, -, -, -, hfunction⟩ := h
  exact hfunction

theorem Stage.Visits.exists_calls {ctx : Context} {stage : Stage} {e : TraceEntry}
    (h : stage.Visits ctx e) :
    ∃ d, e.Calls ctx.graph d := by
  obtain ⟨hdeclared, -, -, -, -, -⟩ := h
  obtain ⟨c, decl, d, hc, hdecl, hd, hfunction, -⟩ := hdeclared.declared
  exact ⟨d, c, decl, hc, hdecl, hd, hfunction⟩

namespace Engine

variable {e e' : Engine} {fuel : Nat} {target : RunTarget} {inputs : List (String × Value)}
  {r : Except RunFault (List (String × Value))} {site : Site}

/-- The name of the function that stands under an identity in the graph; the site in words if there
is none. -/
def named (e : Engine) (site : Site) (function : FunctionId) : String :=
  match e.context.graph.function function with
  | .ok d => d.name
  | .error _ => site.text

/-- A function is named by its own name, if it stands under its own identity. -/
theorem named_of_function {key : FunctionId} {d : Description}
    (hd : e.context.graph.function key = .ok d)
    (hkey : d.id = key) (site : Site) : e.named site d.id = d.name := by
  simp only [named, hkey, hd]

theorem blamed_entry (e : Engine) (id : FunctionId) :
    e.blamed (.entry id) = e.named (.entry id) id := by
  simp only [blamed, named, Graph.function, Option.bind_some]
  cases Assoc.find? e.context.graph.functions id <;> rfl

theorem blamed_call {id : FunctionId} (h : e.log.failed = some id) (call : CallId) :
    e.blamed (.call call) = e.named (.call call) id := by
  simp only [blamed, named, Graph.function, h, Option.bind_some]
  cases Assoc.find? e.context.graph.functions id <;> rfl

/-- The execution of a target comes to the visit. -/
def Visits (e : Engine) (target : RunTarget) (inputs : List (String × Value))
    (n : TraceEntry) : Prop :=
  ∃ first, e.Opens target inputs first ∧ first.Visits e.context n

/-- The execution of a target comes to a call that signals exhaustion, and the visits of it and
around it fail with the signal. -/
def Unwinds (e : Engine) (target : RunTarget) (inputs : List (String × Value)) (raised : TraceEntry)
    (unwound : List TraceEntry) : Prop :=
  ∃ first, e.Opens target inputs first ∧ first.Unwinds e.context raised unwound

/-- Where an exhaustion has been raised that leaves the execution of a target, and whose name is
given for it, with the visits of the execution in the order in which they ended. -/
inductive Blames (e : Engine) (target : RunTarget) (inputs : List (String × Value)) :
    Site → String → List TraceEntry → Prop where
  /-- The function that is executed has raised it by itself, and is named. -/
  | entry {id : FunctionId} {d : Description} {a : Active}
      (executed : e.functionOf? target = some id)
      (function : e.context.graph.function id = .ok d) (opens : e.Opens target inputs (.call 0 a))
      (raises : a.Raises e.context) : Blames e target inputs (.entry id) d.name []
  /-- A call has raised it, and its function is named, since no visit has failed before. -/
  | raiser {earlier unwound : List TraceEntry} {raised : TraceEntry} {d : Description}
      (unwinds : e.Unwinds target inputs raised unwound) (calls : raised.Calls e.context.graph d)
      (clean : ∀ n ∈ earlier, n.outcome ≠ .failed) :
      Blames e target inputs (.call raised.call) (e.named (.call raised.call) d.id)
        (earlier ++ raised :: unwound)
  /-- A call has raised it, but a visit has failed before, inside of that of a loop node which
  consumed the signal.  The function of the first such visit is named. -/
  | consumed {before between after unwound : List TraceEntry} {first loop raised : TraceEntry}
      {d : Description} (unwinds : e.Unwinds target inputs raised unwound)
      (calls : first.Calls e.context.graph d) (clean : ∀ n ∈ before, n.outcome ≠ .failed)
      (failed : first.outcome = .failed) (exhausted : loop.outcome = .exhausted)
      (inside : loop.depth < first.depth) :
      Blames e target inputs (.call raised.call) (e.named (.call raised.call) d.id)
        (before ++ first :: (between ++ loop :: after) ++ raised :: unwound)

/-- The name is that of the function of a call with this identity, which has raised an
exhaustion. -/
def NamesRaiser (e : Engine) (target : RunTarget) (inputs : List (String × Value)) (call : CallId)
    (name : String) : Prop :=
  ∃ raised unwound d, e.Unwinds target inputs raised unwound ∧ raised.call = call ∧
    raised.Calls e.context.graph d ∧ name = d.name

/-- No visit has failed deeper than one that was exhausted. -/
def Shallow (es : List TraceEntry) : Prop :=
  ∀ n ∈ es, ∀ l ∈ es, n.outcome = .failed → l.outcome = .exhausted → n.depth ≤ l.depth

/-- **If no loop node has consumed an exhaustion from inside of it, the function of the call at the
site is named.**  The graph has to have each function under its own identity. -/
theorem Blames.namesRaiser {call : CallId} {name : String} {es : List TraceEntry}
    (h : e.Blames target inputs (.call call) name es)
    (hkeys : ∀ key d, e.context.graph.function key = .ok d → d.id = key) (hshallow : Shallow es) :
    e.NamesRaiser target inputs call name := by
  cases h with
  | @raiser _ unwound raised d hunwinds hcalls hclean =>
      obtain ⟨c, decl, hc, hdecl, hd, hfunction⟩ := hcalls
      exact ⟨raised, unwound, d, hunwinds, rfl, ⟨c, decl, hc, hdecl, hd, hfunction⟩,
        named_of_function hd (hkeys _ d hd) _⟩
  | @consumed _ _ _ _ first loop _ _ _ _ _ hfailed hexhausted hinside =>
      have hdepth := hshallow first (by simp) loop (by simp) hfailed hexhausted
      omega

/-- Only an implementation signals exhaustion, and none has been called where an execution is
refused. -/
theorem Refuses.not_isExhausted {fault : RunFault} (h : e.Refuses target inputs fault) :
    ¬ fault.IsExhausted := by
  cases h with
  | noComposition _ _ | noFunction _ _ => exact RunFault.not_isExhausted_ofGraph _
  | inputs _ _ hbind =>
      rcases bindInputs_eq_error hbind with ⟨name, rfl⟩ | hvalues
      · exact fun h => h
      · exact hvalues.not_isExhausted
  | frame _ _ _ hf => exact Frame.not_isExhausted_ofGraph hf
  | boundVariables _ _ _ _ hbind =>
      rcases bindVariables_eq_error hbind with ⟨name, rfl⟩ | hvalues
      · exact fun h => h
      · exact hvalues.not_isExhausted

/-- The visits of an execution that ends in exhaustion are accounted for from where it opens. -/
theorem exists_accounts (hlog : e.log = Log.start e.tracing)
    (h : e.runTarget fuel target inputs = some (.error (.exhausted site), e')) :
    ∃ first es, e.Opens target inputs first ∧ e'.context = e.context ∧ e.log.Records e'.log es ∧
      (∀ n ∈ es, first.Visits e.context n) ∧ first.Escapes e.context site es := by
  generalize hr : Except.error (RunFault.exhausted site) = r at h
  cases ends_of_runTarget hlog h with
  | refused hrefuses =>
      obtain rfl := Except.error.inj hr
      exact absurd trivial hrefuses.not_isExhausted
  | @called a _ _ hopens hexecute =>
      obtain rfl := map_eq_error hr.symm
      have hlogs : a.log = e.log := by cases hopens with | function _ _ _ => exact hlog.symm
      obtain ⟨es, haccounts⟩ := Context.accounts_execute (Walk.stepsAccount e.context fuel)
        (Stage.grounded_of_opens hopens) hexecute
      rw [hlogs] at haccounts
      exact ⟨_, es, hopens, rfl, haccounts.records, haccounts.visits, haccounts.exhausted site rfl⟩
  | @ran w _ _ hopens hrun =>
      obtain rfl := map_eq_error hr.symm
      have hlogs : w.log = e.log := by cases hopens with | standalone _ _ _ _ _ => exact hlog.symm
      obtain ⟨es, haccounts⟩ := Walk.accounts_around (Walk.stepsAccount e.context fuel)
        (Stage.grounded_of_opens hopens).1 hrun
      rw [hlogs] at haccounts
      exact ⟨_, es, hopens, rfl, haccounts.records, haccounts.visits, haccounts.exhausted site rfl⟩

/-- The name that is given for the site of a call is that of the first visit which failed, wherever
the site is. -/
theorem blamed_of_firstFailed {first : Stage} {es : List TraceEntry} {n : TraceEntry}
    (hcontext : e'.context = e.context)
    (hfailed : e'.log.failed = (firstFailed? es).map (·.function))
    (hfirst : firstFailed? es = some n) (hvisits : first.Visits e.context n) (call : CallId) :
    ∃ d, n.Calls e.context.graph d ∧ e'.blamed (.call call) = e.named (.call call) d.id := by
  obtain ⟨d, hcalls⟩ := hvisits.exists_calls
  have hkept : e'.log.failed = some d.id := by
    rw [hfailed, hfirst, ← hcalls.function_eq]
    rfl
  refine ⟨d, hcalls, ?_⟩
  rw [blamed_call hkept, named, named, hcontext]

/-- **Whose name is given.**  It is that of the function which is executed, or that of the first
visit which failed. -/
theorem blames_of_escapes {first : Stage} {es : List TraceEntry}
    (hopens : e.Opens target inputs first)
    (hcontext : e'.context = e.context)
    (hfailed : e'.log.failed = (firstFailed? es).map (·.function))
    (hvisits : ∀ n ∈ es, first.Visits e.context n) (h : first.Escapes e.context site es) :
    e.Blames target inputs site (e'.blamed site) es := by
  cases h with
  | raised hraises =>
      cases hopens with
      | @function id d ts htarget hd hbind =>
          have hblamed : e'.blamed (.entry id) = d.name := by
            rw [blamed_entry, named, hcontext]
            simp only [hd]
          have hentry : e.Blames target inputs (.entry id) d.name [] :=
            .entry htarget hd (.function htarget hd hbind) hraises
          rw [← hblamed] at hentry
          exact hentry
  | @unwound _ earlier unwound raised hearlier hunwinds =>
      cases hfirst : firstFailed? earlier with
      | none =>
          have hraised : firstFailed? (earlier ++ raised :: unwound) = some raised := by
            rw [firstFailed?_append, hfirst]
            simp [firstFailed?, hunwinds.failed raised (by simp)]
          obtain ⟨d, hcalls, hblamed⟩ := blamed_of_firstFailed hcontext hfailed hraised
            (hvisits raised (by simp)) raised.call
          rw [hblamed]
          refine .raiser ⟨first, hopens, hunwinds⟩ hcalls ?_
          intro n hn
          simpa using List.find?_eq_none.1 hfirst n hn
      | some n =>
          have hn : firstFailed? (earlier ++ raised :: unwound) = some n := by
            rw [firstFailed?_append, hfirst]
            rfl
          obtain ⟨before, between, loop, after, rfl, hclean, hn', hloop, hinside⟩ :=
            hearlier.exists_loop hfirst
          obtain ⟨d, hcalls, hblamed⟩ :=
            blamed_of_firstFailed hcontext hfailed hn (hvisits n (by simp))
            raised.call
          rw [hblamed]
          exact .consumed ⟨first, hopens, hunwinds⟩ hcalls hclean hn' hloop hinside

theorem escaped_ne_exhausted {α : Type} (e : Engine) (r : Except RunFault α) (site : Site) :
    e.escaped r ≠ .error (.exhausted site) := by
  unfold escaped
  split
  · simp
  · rename_i hr
    exact hr site

/-- What an execution opens with does not depend on what the engine has written down before. -/
theorem Opens.of_log {l : Log} {stage : Stage}
    (h : ({ e with log := l } : Engine).Opens target inputs stage) :
    e.Opens target inputs stage := by
  cases h with
  | function htarget hd hbind => exact .function htarget hd hbind
  | standalone htarget hc hnone hf hbind => exact .standalone htarget hc hnone hf hbind

/-- **An exhaustion that no loop node consumes is blamed on the call that has raised it, unless a
loop node has consumed one before.**  Exhaustion itself is never the result of an execution.  If a
target runs into it, the execution fails with the site at which it was raised, and with the name of
the function that is executed, if the implementation of this one has raised it, or else that of the
first visit which failed: the visit at the site, or one inside of a loop node that has consumed an
earlier signal.  So the call at the site is named right if no loop node has consumed a signal from
inside of it. -/
theorem blames_of_executeWithin (h : e.executeWithin fuel target inputs = some (r, e')) :
    (∀ site, r ≠ .error (.exhausted site)) ∧
    ∀ site, ({ e with log := Log.start e.tracing } : Engine).runTarget fuel target inputs
        = some (.error (.exhausted site), e') →
      ∃ name es, r = .error (.implementationFailure site name
          "iteration exhausted outside a loop node" "") ∧
        (e.tracing = true → e'.trace? = some es) ∧ (∀ n ∈ es, e.Visits target inputs n) ∧
        e.Blames target inputs site name es ∧
        ∀ call, site = .call call → (∀ key d, e.context.graph.function key = .ok d → d.id = key) →
          Shallow es → e.NamesRaiser target inputs call name := by
  unfold executeWithin at h
  split at h
  · exact absurd h (by simp)
  rename_i r₁ e₁ hran
  obtain ⟨rfl, rfl⟩ := Prod.mk.inj (Option.some.inj h)
  refine ⟨e₁.escaped_ne_exhausted r₁, ?_⟩
  intro site hrun
  obtain ⟨rfl, -⟩ := Prod.mk.inj (Option.some.inj (hran.symm.trans hrun))
  obtain ⟨first, es, hopens, hcontext, hrecords, hvisits, hescapes⟩ := exists_accounts rfl hrun
  have hfailed : e₁.log.failed = (firstFailed? es).map (·.function) := by
    rw [hrecords.failed]
    rfl
  have hblames := blames_of_escapes hopens.of_log hcontext hfailed hvisits hescapes
  refine ⟨e₁.blamed site, es, rfl, ?_, fun n hn => ⟨first, hopens.of_log, hvisits n hn⟩, hblames,
    ?_⟩
  · intro htracing
    rw [trace?, hrecords.trace]
    simp [Log.start, htracing]
  · rintro call rfl hkeys hshallow
    exact hblames.namesRaiser hkeys hshallow

end Engine

/-! ### A loop node in between -/

namespace Sample

/-- A loop node that calls `outer`, in whose body `inner` signals exhaustion; behind the loop
`other` does. -/
def misled : Engine :=
  .new (.ofParts "misled"
      [{ Description.plain ⟨0⟩ "inner" [] with implementation := some "stop" },
        { Description.plain ⟨1⟩ "outer" [] with body := some ⟨1⟩ },
        { Description.plain ⟨2⟩ "other" [] with implementation := some "stop" }]
      [{ id := ⟨0⟩, name := "main", represents := none, starts := [⟨0⟩], mappings := []
         calls := [⟨⟨0⟩, ⟨1⟩, .loop ⟨0⟩ (some ⟨1⟩), none⟩, ⟨⟨1⟩, ⟨2⟩, .stop, none⟩] },
        { id := ⟨1⟩, name := "outer", represents := some ⟨1⟩, starts := [⟨2⟩], mappings := []
          calls := [⟨⟨2⟩, ⟨0⟩, .stop, none⟩] }])
    unwinding.context.host { tracing := true }

/-- The site of the exhaustion with which a run ends. -/
def exhaustedAt? {α : Type} : Except RunFault α → Option Site
  | .error (.exhausted site) => some site
  | _ => none

theorem eq_of_exhaustedAt? {α : Type} {r : Except RunFault α} {site : Site}
    (h : exhaustedAt? r = some site) :
    r = .error (.exhausted site) := by
  unfold exhaustedAt? at h
  split at h
  · rw [Option.some.inj h]
  · exact absurd h (by simp)

end Sample

/-- The call behind the loop has raised the exhaustion, but the function is named that has raised
the one inside of it. -/
theorem Engine.blames_of_executeWithin_sample : ∃ e' es,
    Sample.misled.runTarget 3 (.composition ⟨0⟩) [] = some (.error (.exhausted (.call ⟨1⟩)), e') ∧
      Sample.misled.executeWithin 3 (.composition ⟨0⟩) [] =
        some (.error (.implementationFailure (.call ⟨1⟩)
        "inner" "iteration exhausted outside a loop node" ""), e') ∧
      e'.trace? = some es ∧
      es = [⟨1, ⟨1⟩, ⟨2⟩, ⟨0⟩, .failed⟩, ⟨0, ⟨0⟩, ⟨0⟩, ⟨1⟩, .exhausted⟩,
        ⟨0, ⟨0⟩, ⟨1⟩, ⟨2⟩, .failed⟩] ∧
      (∀ n ∈ es, Sample.misled.Visits (.composition ⟨0⟩) [] n) ∧
      Sample.misled.Blames (.composition ⟨0⟩) [] (.call ⟨1⟩) "inner" es := by
  have hcheck : (Sample.misled.runTarget 3 (.composition ⟨0⟩) []).any (fun ran =>
      Sample.exhaustedAt? ran.1 == some (.call ⟨1⟩) && ran.2.blamed (.call ⟨1⟩) == "inner" &&
      ran.2.trace? == some [⟨1, ⟨1⟩, ⟨2⟩, ⟨0⟩, .failed⟩, ⟨0, ⟨0⟩, ⟨0⟩, ⟨1⟩, .exhausted⟩,
        ⟨0, ⟨0⟩, ⟨1⟩, ⟨2⟩, .failed⟩]) = true := by
    decide +kernel
  obtain ⟨⟨r, e'⟩, hrun, hcheck⟩ := (Option.any_eq_true ..).1 hcheck
  simp only [Bool.and_eq_true, beq_iff_eq] at hcheck
  obtain ⟨⟨hr, hblamed⟩, htrace⟩ := hcheck
  obtain rfl := Sample.eq_of_exhaustedAt? hr
  have hexecute :
      Sample.misled.executeWithin 3 (.composition ⟨0⟩) [] = some (.error (.implementationFailure
      (.call ⟨1⟩) "inner" "iteration exhausted outside a loop node" ""), e') := by
    have hran : ({ Sample.misled with log := Log.start Sample.misled.tracing } : Engine).runTarget 3
        (.composition ⟨0⟩) [] = some (.error (.exhausted (.call ⟨1⟩)), e') := hrun
    rw [executeWithin, hran, ← hblamed]
    rfl
  obtain ⟨name, es, hname, hes, hvisits, hblames, -⟩ :=
    (blames_of_executeWithin hexecute).2 (.call ⟨1⟩) hrun
  obtain ⟨-, rfl, -, -⟩ := RunFault.implementationFailure.inj (Except.error.inj hname)
  refine ⟨e', es, hrun, hexecute, hes rfl, ?_, hvisits, hblames⟩
  exact Option.some.inj ((hes rfl).symm.trans htrace)

end CallFlow
