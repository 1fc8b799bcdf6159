import CallFlow.Proofs.Exhaustion
import CallFlow.Proofs.Structure

/-!
# The walk is a path of the control graph

The visits of a run that succeeds follow the control edges of its composition: they begin at the
start that is declared, and each leads to the next by its successor, the way in which it ended and
the truth of what it has published (`Composition.Path`).  One visit takes one step on such a path
(`Walk.following_of_executes`), because settling a call writes no output, and so the visits
between the beginning of a run and any state that it reaches are a path (`Walk.path_of_reaches`).

What else holds of the order of visits holds of paths: without cycles no call is visited twice
(`Composition.Path.nodup_of_acyclic`), and along a chain every call that control can reach is
visited once (`Composition.Path.nodup_of_chain`, `Composition.Path.mem_iff_of_chain`).
-/

namespace CallFlow

/-! ## Paths -/

/-- Where control goes from a visit of a call with the successor, if it goes on: from a loop node by
the way in which the visit ended, from a branch by the truth of the output that the visit has
published. -/
def Walk.Visit.following (v : Walk.Visit) : Successor → Option CallId
  | .stop => none
  | .next target => some target
  | .loop iterate after => if v.outcome = .exhausted then after else some iterate
  | .branch ifTrue ifFalse => if v.terminals.output.peek.any Value.truthy then ifTrue else ifFalse

/-- The visit ended in a way from which control goes on: it has completed and published its outputs,
or it was exhausted at a loop node. -/
inductive Walk.Visit.Passed (v : Walk.Visit) (successor : Successor) : Prop where
  | completed (outcome : v.outcome = .completed) (published : v.terminals.Published)
  | exhausted (outcome : v.outcome = .exhausted) (loop : successor.isLoop = true)

namespace Composition

/-- Does control lead from the one call to the other, in some way? -/
def Leads (c : Composition) (source target : CallId) : Prop := (source, target) ∈ c.edges

/-- The visits follow the control edges of the composition from where control is to where it goes:
each is one of the call where control is, and passes it on. -/
inductive Path (c : Composition) : Option CallId → List Walk.Visit → Option CallId → Prop where
  | nil {next : Option CallId} : Path c next [] next
  | cons {v : Walk.Visit} {decl : CallDecl} {visits : List Walk.Visit} {last : Option CallId}
      (declared : decl ∈ c.calls) (visited : decl.id = v.call) (passed : v.Passed decl.successor)
      (rest : Path c (v.following decl.successor) visits last) :
        Path c (some v.call) (v :: visits) last

variable {c : Composition} {source target : CallId} {start next last : Option CallId}
  {v : Walk.Visit}
  {visits visits' : List Walk.Visit}

theorem leads_iff : c.Leads source target ↔
    ∃ decl ∈ c.calls, decl.id = source ∧ target ∈ decl.successor.targets := by
  simp only [Leads, edges, List.mem_flatMap, List.mem_map, Prod.mk.injEq]
  constructor
  · rintro ⟨decl, hdecl, target', htarget, rfl, rfl⟩
    exact ⟨decl, hdecl, rfl, htarget⟩
  · rintro ⟨decl, hdecl, rfl, htarget⟩
    exact ⟨decl, hdecl, target, htarget, rfl, rfl⟩

/-- Calls that control can reach are among those that follow the edges. -/
theorem Follows.mem_of_reaches {calls : List CallId} (h : Follows c.edges calls)
    (hmem : source ∈ calls)
    (hreaches : Relation.ReflTransGen c.Leads source target) : target ∈ calls := by
  induction hreaches with
  | refl => exact hmem
  | tail _ hedge ih => exact h _ hedge ih

/-- A visit passes control on along an edge. -/
theorem mem_targets_of_following {successor : Successor} (h : v.following successor = some target) :
    target ∈ successor.targets := by
  cases successor with
  | stop => exact absurd h (by simp [Walk.Visit.following])
  | next target' =>
      obtain rfl := Option.some.inj h
      simp [Successor.targets]
  | loop iterate after =>
      simp only [Walk.Visit.following] at h
      split at h
      · simp [Successor.targets, h]
      · obtain rfl := Option.some.inj h
        simp [Successor.targets]
  | branch ifTrue ifFalse =>
      simp only [Walk.Visit.following] at h
      split at h <;> simp [Successor.targets, h]

namespace Path

theorem append (h : c.Path start visits next) (h' : c.Path next visits' last) :
    c.Path start (visits ++ visits') last := by
  induction h with
  | nil => exact h'
  | cons hdecl hid hpassed _ ih => exact .cons hdecl hid hpassed (ih h')

/-- A path goes through where it can be cut. -/
theorem exists_of_append (h : c.Path start (visits ++ visits') last) :
    ∃ next, c.Path start visits next ∧ c.Path next visits' last := by
  induction visits generalizing start with
  | nil => exact ⟨start, .nil, h⟩
  | cons v rest ih =>
      cases h with
      | cons hdecl hid hpassed hrest =>
          obtain ⟨next, hfirst, hsecond⟩ := ih hrest
          exact ⟨next, .cons hdecl hid hpassed hfirst, hsecond⟩

/-- Where control has ended, nothing is visited. -/
theorem eq_nil (h : c.Path none visits last) : visits = [] := by
  cases h
  rfl

/-- A path without visits ends where it begins. -/
theorem eq_of_nil (h : c.Path start [] last) : start = last := by
  cases h
  rfl

/-- The first visit of a path. -/
theorem first (h : c.Path start (v :: visits) last) : start = some v.call ∧
    ∃ decl ∈ c.calls, decl.id = v.call ∧ v.Passed decl.successor ∧
      c.Path (v.following decl.successor) visits last := by
  cases h with
  | cons hdecl hid hpassed hrest => exact ⟨rfl, _, hdecl, hid, hpassed, hrest⟩

/-- Behind a visit there is another only if control goes on, along an edge. -/
theorem exists_edge {decl : CallDecl} (hdecl : decl ∈ c.calls) (hid : decl.id = v.call)
    (h : c.Path (v.following decl.successor) visits last) (hvisits : visits ≠ []) :
    ∃ target, v.following decl.successor = some target ∧ c.Leads v.call target ∧
      c.Path (some target) visits last := by
  cases hfollowing : v.following decl.successor with
  | none =>
      rw [hfollowing] at h
      exact absurd h.eq_nil hvisits
  | some target =>
      rw [hfollowing] at h
      exact ⟨target, rfl, leads_iff.2 ⟨decl, hdecl, hid, mem_targets_of_following hfollowing⟩, h⟩

/-- Every visit of a path is one of a call that control can reach from where the path begins. -/
theorem reaches (h : c.Path (some source) visits last) (hv : v ∈ visits) :
    Relation.ReflTransGen c.Leads source v.call := by
  induction visits generalizing source with
  | nil => exact absurd hv (by simp)
  | cons first rest ih =>
      cases h with
      | cons hdecl hid hpassed hrest =>
          rcases List.mem_cons.1 hv with rfl | hv
          · exact .refl
          · obtain ⟨target, -, hedge, hrest⟩ := exists_edge hdecl hid hrest (List.ne_nil_of_mem hv)
            exact .head hedge (ih hrest hv)

/-- Control leads from the first visit of a path to every later one. -/
theorem leads (h : c.Path start (v :: visits) last) {v' : Walk.Visit} (hv' : v' ∈ visits) :
    Relation.TransGen c.Leads v.call v'.call := by
  cases h with
  | cons hdecl hid hpassed hrest =>
      obtain ⟨target, -, hedge, hrest⟩ := exists_edge hdecl hid hrest (List.ne_nil_of_mem hv')
      exact .head' hedge (hrest.reaches hv')

/-! ## Paths without cycles -/

/-- **Without cycles no call is visited twice.** -/
theorem nodup_of_acyclic (h : c.Path (some source) visits last)
    (hacyclic : ∀ call, Relation.ReflTransGen c.Leads source call →
      ¬ Relation.TransGen c.Leads call call) :
    (visits.map (·.call)).Nodup := by
  induction visits generalizing source with
  | nil => exact List.nodup_nil
  | cons v rest ih =>
      have hfresh : v.call ∉ rest.map (·.call) := by
        intro hmem
        obtain ⟨v', hv', hcall⟩ := List.mem_map.1 hmem
        have hcycle := h.leads hv'
        rw [hcall] at hcycle
        exact hacyclic v.call (h.reaches List.mem_cons_self) hcycle
      refine List.nodup_cons.2 ⟨hfresh, ?_⟩
      by_cases hrest : rest = []
      · rw [hrest]
        exact List.nodup_nil
      · cases h with
        | cons hdecl hid hpassed htail =>
            obtain ⟨target, -, hedge, htail⟩ := exists_edge hdecl hid htail hrest
            exact ih htail fun call hcall => hacyclic call (.head hedge hcall)

end Path

/-! ## Chains -/

/-- From the call on, control only ends or goes on to one next call. -/
def ChainFrom (c : Composition) (source : CallId) : Prop :=
  ∀ decl ∈ c.calls, Relation.ReflTransGen c.Leads source decl.id →
    decl.successor = .stop ∨ ∃ target, decl.successor = .next target

theorem ChainFrom.of_leads (h : c.ChainFrom source) (hedge : c.Leads source target) :
    c.ChainFrom target := by
  intro decl hdecl hreaches
  exact h decl hdecl (.head hedge hreaches)

/-- The way along a chain does not depend on how visits end or on what they publish. -/
theorem ChainFrom.following_eq (h : c.ChainFrom source) {decl : CallDecl} (hdecl : decl ∈ c.calls)
    (hid : decl.id = source) (v v' : Walk.Visit) :
    v.following decl.successor = v'.following decl.successor := by
  rcases h decl hdecl (by rw [hid]) with hstop | ⟨target, hnext⟩
  · rw [hstop]
    rfl
  · rw [hnext]
    rfl

theorem decl_unique (hnodup : (c.calls.map (·.id)).Nodup) {decl decl' : CallDecl}
    (hdecl : decl ∈ c.calls)
    (hdecl' : decl' ∈ c.calls) (hid : decl.id = decl'.id) : decl = decl' := by
  have hsame := call?_of_mem hnodup hdecl
  rw [hid, call?_of_mem hnodup hdecl'] at hsame
  exact (Option.some.inj hsame).symm

namespace Path

/-- From one call there is one chain to the end. -/
theorem length_eq_of_chain (hnodup : (c.calls.map (·.id)).Nodup)
    (hchain : ∀ source, start = some source → c.ChainFrom source) (h : c.Path start visits none)
    (h' : c.Path start visits' none) : visits.length = visits'.length := by
  induction visits generalizing start visits' with
  | nil =>
      cases h
      rw [h'.eq_nil]
  | cons v rest ih =>
      obtain ⟨hstart, decl, hdecl, hid, -, hrest⟩ := h.first
      have hfrom := hchain v.call hstart
      cases visits' with
      | nil => exact absurd (hstart.symm.trans h'.eq_of_nil) (by simp)
      | cons v' rest' =>
          obtain ⟨hstart', decl', hdecl', hid', -, hrest'⟩ := h'.first
          have hcall : v.call = v'.call := Option.some.inj (hstart.symm.trans hstart')
          obtain rfl : decl = decl' := decl_unique hnodup hdecl hdecl' (by rw [hid, hid', hcall])
          rw [hfrom.following_eq hdecl hid v' v] at hrest'
          have htail : ∀ target, v.following decl.successor = some target → c.ChainFrom target := by
            intro target hfollowing
            exact hfrom.of_leads
              (leads_iff.2 ⟨decl, hdecl, hid, mem_targets_of_following hfollowing⟩)
          rw [List.length_cons, List.length_cons, ih htail hrest hrest']

/-- **Along a chain no call is visited twice**: its second visit would begin the way to the end
anew. -/
theorem nodup_of_chain (hnodup : (c.calls.map (·.id)).Nodup) (hchain : c.ChainFrom source)
    (h : c.Path (some source) visits none) : (visits.map (·.call)).Nodup := by
  induction visits generalizing source with
  | nil => exact List.nodup_nil
  | cons v rest ih =>
      obtain ⟨hsource, decl, hdecl, hid, -, hrest⟩ := h.first
      obtain rfl : source = v.call := Option.some.inj hsource
      have hfresh : v.call ∉ rest.map (·.call) := by
        intro hmem
        obtain ⟨v', hv', hcall⟩ := List.mem_map.1 hmem
        obtain ⟨before, after, rfl⟩ := List.append_of_mem hv'
        have hcut : c.Path (some v.call) ((v :: before) ++ v' :: after) none := h
        obtain ⟨next, -, hagain⟩ := hcut.exists_of_append
        obtain ⟨rfl, -⟩ := hagain.first
        rw [hcall] at hagain
        have hlength := length_eq_of_chain hnodup (fun source hsource => by
          obtain rfl := Option.some.inj hsource
          exact hchain) h hagain
        simp only [List.length_cons, List.length_append] at hlength
        omega
      refine List.nodup_cons.2 ⟨hfresh, ?_⟩
      by_cases hempty : rest = []
      · rw [hempty]
        exact List.nodup_nil
      · obtain ⟨target, -, hedge, htail⟩ := exists_edge hdecl hid hrest hempty
        exact ih (hchain.of_leads hedge) htail

/-- **Along a chain exactly the calls that control can reach are visited.** -/
theorem mem_iff_of_chain (hnodup : (c.calls.map (·.id)).Nodup) (hchain : c.ChainFrom source)
    (h : c.Path (some source) visits none) (call : CallId) :
    call ∈ visits.map (·.call) ↔ Relation.ReflTransGen c.Leads source call := by
  constructor
  · intro hmem
    obtain ⟨v, hv, rfl⟩ := List.mem_map.1 hmem
    exact h.reaches hv
  · intro hreaches
    induction hreaches with
    | refl =>
        cases visits with
        | nil => exact absurd h.eq_of_nil (by simp)
        | cons v rest =>
            obtain ⟨hsource, -⟩ := h.first
            rw [Option.some.inj hsource]
            simp
    | @tail mid target hbefore hedge ih =>
        -- the call before it was visited, and control went on to this one from there
        obtain ⟨v, hv, rfl⟩ := List.mem_map.1 ih
        obtain ⟨before, after, rfl⟩ := List.append_of_mem hv
        obtain ⟨next, -, hfrom⟩ := h.exists_of_append
        obtain ⟨-, decl, hdecl, hid, -, hrest⟩ := hfrom.first
        obtain ⟨decl', hdecl', hid', htarget⟩ := leads_iff.1 hedge
        obtain rfl : decl = decl' := decl_unique hnodup hdecl hdecl' (hid.trans hid'.symm)
        rcases hchain decl hdecl (by rw [hid]; exact hbefore) with hstop | ⟨target', hnext⟩
        · rw [hstop] at htarget
          exact absurd htarget (by simp [Successor.targets])
        · rw [hnext] at htarget hrest
          obtain rfl : target = target' := by simpa [Successor.targets] using htarget
          cases after with
          | nil => exact absurd hrest.eq_of_nil (by simp [Walk.Visit.following])
          | cons v' after' =>
              obtain ⟨htarget', -⟩ := hrest.first
              have hcall : target = v'.call := Option.some.inj htarget'
              rw [hcall]
              simp

end Path

end Composition

/-! ## Runs follow paths -/

namespace Walk

variable {ctx : Context} {id : CompositionId} {inputs : List (String × Value)} {depth fuel : Nat}
  {w₀ w w' : Walk} {history : List Visit} {v : Visit} {c : Composition}

/-- Where control goes after a completed call is decided by the output that its execution has
published, since settling the call writes no output. -/
theorem peek_output_of_completed {r : Except RunFault (Option CallId)}
    (hbuilt : w.scene.frame.wiring.Built)
    (h : Executes ctx (runner (steps ctx fuel)) depth w v r w')
    (hcompleted : v.outcome = .completed) :
    w'.scene.peek (.call v.call .output) = v.terminals.output.peek := by
  obtain ⟨s, settled, hsettle, -, -, hwiring, -, hshown, -⟩ :=
    h.completed (faithful_runner ctx fuel) hcompleted
  have hevolves := Flow.evolves_settle_of_eq hsettle
  rw [hwiring] at hevolves
  have hkept : w'.scene.peek (.call v.call .output) =
      (s.complete v.call).peek (.call v.call .output) := by
    refine hevolves.peek_eq ?_
    intro slot hslot
    obtain rfl := Option.some.inj hslot
    exact hbuilt.not_settlesInto v.call rfl
  exact hkept.trans (hshown .output)

/-- **A visit takes one step on a path of control**: it passes control on as its successor says, by
how it has ended and by what it has published. -/
theorem following_of_executes {next : Option CallId} (hbegins : w₀.Begins ctx id inputs)
    (hc : ctx.graph.composition id = .ok c)
    (hreaches : Reaches ctx depth w₀ history (.ok (some v.call)) w)
    (hexecutes : Executes ctx (runner (steps ctx fuel)) depth w v (.ok next) w') :
    ∃ decl ∈ c.calls, decl.id = v.call ∧ v.Passed decl.successor ∧
      next = v.following decl.successor := by
  have hvisit := hexecutes
  obtain ⟨hingest, hfound, -, houtcome, -, hafter⟩ := hexecutes
  rename_i s call result a
  have hkeeps : w₀.scene.Keeps ({ w with scene := s } : Walk).scene :=
    hreaches.keeps.trans (evolves_ingestAll hingest).keeps
  obtain ⟨c', decl, d, hc', hdecl, -, -, hsuccessor⟩ := hbegins.applied hkeeps hfound
  obtain rfl : c = c' := Except.ok.inj (hc.symm.trans hc')
  obtain ⟨hmem, hid⟩ := Composition.mem_of_applied? hdecl
  refine ⟨decl, hmem, hid, ?_⟩
  rw [← hsuccessor]
  rcases afterCall_eq_ok hafter with ⟨rfl, rfl⟩ | ⟨site, iterate, rfl, hloop⟩
  · have hcompleted : v.outcome = .completed := houtcome
    obtain ⟨-, -, -, -, -, -, -, -, hpublished⟩ :=
      hvisit.completed (faithful_runner ctx fuel) hcompleted
    refine ⟨.completed hcompleted hpublished, ?_⟩
    have houtput := peek_output_of_completed (built_of_reaches hbegins hreaches) hvisit hcompleted
    cases call.successor with
    | stop | next _ => rfl
    | loop iterate after => simp [Flow.advance, Visit.following, hcompleted]
    | branch ifTrue ifFalse =>
        show (if (w'.scene.peek (.call v.call .output)).any Value.truthy then ifTrue else ifFalse) =
          _
        rw [houtput]
        rfl
  · rw [hloop] at houtcome ⊢
    have hv : v.outcome = .exhausted := houtcome
    refine ⟨.exhausted hv rfl, ?_⟩
    simp [Visit.following, hv]

/-- **The visits of a run are a path**, from the start of its composition to where control has
come. -/
theorem path_of_reaches {r : Except RunFault (Option CallId)} (hbegins : w₀.Begins ctx id inputs)
    (hc : ctx.graph.composition id = .ok c) (hreaches : Reaches ctx depth w₀ history r w)
    {next : Option CallId} (hr : r = .ok next) :
    c.Path w₀.scene.frame.start history.reverse next := by
  induction hreaches generalizing next with
  | @seeded s hseed =>
      obtain rfl := Except.ok.inj hr
      have hkeeps := (Flow.evolves_seed w₀.scene).keeps
      rw [hseed] at hkeeps
      rw [← Frame.start_of_reset_eq (hkeeps.frame hbegins.closed)]
      exact .nil
  | refused _ _ _ => exact absurd hr (by simp)
  | executed hbefore hexecutes ih =>
      subst hr
      obtain ⟨decl, hdecl, hid, hpassed, rfl⟩ := following_of_executes hbegins hc hbefore hexecutes
      rw [List.reverse_cons]
      exact (ih rfl).append (.cons hdecl hid hpassed .nil)

end Walk

namespace Engine

variable {e e' : Engine} {fuel : Nat} {id : CompositionId} {inputs outputs : List (String × Value)}
  {c : Composition}

/-- A run without a boundary has ended where its walk has. -/
theorem exists_reaches_of_run {ctx : Context} {depth : Nat} {w₀ w : Walk}
    (hboundary : w₀.scene.boundary = none) (h : Walk.run ctx fuel depth w₀ = some (.ok (), w)) :
    ∃ history, Walk.Reaches ctx depth w₀ history (.ok none) w := by
  rcases Walk.around_eq_some h with ⟨fault, s, -, hr, -⟩ | ⟨s, r₁, w₁, hseed, hsteps, hend⟩
  · exact absurd hr (by simp)
  · obtain ⟨history, hreaches⟩ := Walk.steps_reaches (.seeded hseed) hsteps
    rcases hend with ⟨rfl, rfl, -⟩ | ⟨s₁, rfl, hthere, -⟩
    · exact ⟨history, hreaches⟩
    · have hkept := hreaches.keeps.boundary
      rw [hboundary] at hkept
      exact absurd (by simpa using hkept) hthere

/-- The run that a standalone execution is, if it succeeds. -/
theorem exists_reaches_of_standalone (hc : e.context.graph.composition id = .ok c)
    (hrepresents : c.represents = none)
    (h : e.executeWithin fuel (.composition id) inputs = some (.ok outputs, e')) :
    ∃ w₀ history w, w₀.Begins e.context id inputs ∧
      Walk.Reaches e.context 0 w₀ history (.ok none) w ∧ w₀.log = Log.start e.tracing ∧
      e'.trace? = w.log.trace.map List.reverse := by
  rcases succeeds_of_executeWithin h with ⟨_, _, hopens, -⟩ | ⟨_, w, hopens, hrun, -, rfl⟩
  · cases hopens with
    | function htarget _ _ =>
        have hnone : e.functionOf? (.composition id) = none := by
          simp [functionOf?, hc, hrepresents]
        exact absurd (hnone.symm.trans htarget) (by simp)
  · cases hopens with
    | standalone heq _ _ hf hbind =>
        obtain rfl := RunTarget.composition.inj heq
        obtain ⟨history, hreaches⟩ := exists_reaches_of_run rfl hrun
        exact ⟨_, history, w, .standalone hf hbind, hreaches, rfl, rfl⟩

/-- **The walk is a control path.**  After a standalone execution that has succeeded, the visits
that were traced at its depth are those of a path of control through the composition, from the start
that is declared to where control ends, and all of calls that it uses.  If no call that the start
reaches leads back to itself, no call is visited twice; and if from the start on control only goes
on to a next call, exactly the calls that it reaches are visited, and each of them once. -/
theorem follows_control_of_executeWithin (htracing : e.tracing = true)
    (hc : e.context.graph.composition id = .ok c) (hrepresents : c.represents = none)
    (hnodup : (c.calls.map (·.id)).Nodup)
    (h : e.executeWithin fuel (.composition id) inputs = some (.ok outputs, e')) :
    ∃ w₀ w visits trace start used, w₀.Begins e.context id inputs ∧
      Walk.Reaches e.context 0 w₀ visits.reverse (.ok none) w ∧
      e'.trace? = some trace ∧
      ((trace.filter fun t => t.depth == 0).map fun t => (t.call, t.outcome))
        = visits.map (fun v => (v.call, v.outcome)) ∧
      c.starts = start.toList ∧ c.Path start visits none ∧ (visits = [] ↔ c.starts = []) ∧
      e.context.graph.usedCalls id = .ok used ∧ (∀ v ∈ visits, v.call ∈ used) ∧
      ∀ source, start = some source →
        ((∀ call, Relation.ReflTransGen c.Leads source call →
          ¬ Relation.TransGen c.Leads call call) →
          (visits.map (·.call)).Nodup) ∧
        (c.ChainFrom source → (visits.map (·.call)).Nodup ∧
          ∀ call, call ∈ visits.map (·.call) ↔ Relation.ReflTransGen c.Leads source call) := by
  obtain ⟨w₀, history, w, hbegins, hreaches, hlog, htrace⟩ :=
    exists_reaches_of_standalone hc hrepresents h
  have hpath := Walk.path_of_reaches hbegins hc hreaches rfl
  have hstart := hbegins.start_eq
  obtain ⟨entries, hentries, hvisits⟩ := hreaches.trace
  have hentries' : w.log.trace = some entries := by
    rw [hentries, hlog, htracing]
    simp [Log.start]
  obtain ⟨used, hused⟩ : ∃ used, e.context.graph.usedCalls id = .ok used := by
    obtain ⟨f, hf, -⟩ := hbegins.exists_frame
    obtain ⟨c', used, -, hused, -⟩ := Frame.ofGraph_eq_ok hf
    exact ⟨used, hused⟩
  generalize w₀.scene.frame.start = start at hpath hstart
  have hstarts : c.starts = start.toList := by
    cases start with
    | none => exact Graph.startOf_eq_none hc hstart
    | some source => exact Graph.startOf_eq_ok hc hstart
  refine ⟨w₀, w, history.reverse, entries.reverse, start, used,
    hbegins, by rwa [List.reverse_reverse],
    by rw [htrace, hentries']; rfl, ?_, hstarts, hpath, ?_, hused, ?_, ?_⟩
  · rw [List.filter_reverse, List.map_reverse, hvisits, List.map_reverse]
  · rw [hstarts]
    cases start with
    | none => simp [hpath.eq_nil]
    | some source =>
        have hvisited : history.reverse ≠ [] := by
          intro hnil
          rw [hnil] at hpath
          exact absurd hpath.eq_of_nil (by simp)
        simp [hvisited]
  · intro v hv
    cases start with
    | none =>
        rw [hpath.eq_nil] at hv
        exact absurd hv (by simp)
    | some source =>
        obtain ⟨hfollows, hmem⟩ := Graph.closed_usedCalls hc hused
        exact hfollows.mem_of_reaches (hmem source hstart) (hpath.reaches hv)
  · intro source hsource
    subst hsource
    exact ⟨hpath.nodup_of_acyclic, fun hchain =>
      ⟨hpath.nodup_of_chain hnodup hchain, hpath.mem_iff_of_chain hnodup hchain⟩⟩

end Engine

/-! ### A branch -/

/-- In the branch control leads from the first call to the others, and nowhere else. -/
theorem Sample.acyclic_branching (call : CallId) :
    ¬ Relation.TransGen branching.Leads call call := by
  have hedge : ∀ {source target}, branching.Leads source target → source = ⟨0⟩ ∧ target ≠ ⟨0⟩ := by
    intro source target h
    simp only [Composition.Leads, show branching.edges = [(⟨0⟩, ⟨1⟩), (⟨0⟩, ⟨2⟩)] from rfl,
      List.mem_cons,
      Prod.mk.injEq, List.not_mem_nil, or_false] at h
    rcases h with ⟨rfl, rfl⟩ | ⟨rfl, rfl⟩ <;> exact ⟨rfl, by decide⟩
  intro hcycle
  obtain ⟨_, hfirst, -⟩ := Relation.TransGen.head'_iff.1 hcycle
  obtain ⟨_, -, hlast⟩ := Relation.TransGen.tail'_iff.1 hcycle
  exact (hedge hlast).2 (hedge hfirst).1

/-- The first call negates truth, so that control takes the branch for what is not true; no call is
visited twice. -/
theorem Engine.follows_control_of_executeWithin_sample : ∃ outputs e' w₀ w visits,
    (Engine.new Sample.context.graph Sample.host { tracing := true }).executeWithin 2
      (.composition ⟨0⟩) []
        = some (.ok outputs, e') ∧
      Walk.Begins Sample.context ⟨0⟩ [] w₀ ∧
      Walk.Reaches Sample.context 0 w₀ visits.reverse (.ok none) w ∧
      visits.map (fun v => (v.call, v.outcome)) = [(⟨0⟩, .completed), (⟨2⟩, .completed)] ∧
      Sample.branching.Path (some ⟨0⟩) visits none ∧ (visits.map (·.call)).Nodup := by
  have hcheck : ((Engine.new Sample.context.graph Sample.host { tracing := true }).executeWithin 2
      (.composition ⟨0⟩) []).any (fun ran => ran.1.isOk &&
        ran.2.trace? ==
          some [⟨0, ⟨0⟩, ⟨0⟩, ⟨0⟩, .completed⟩, ⟨0, ⟨0⟩, ⟨2⟩, ⟨0⟩, .completed⟩]) = true := by
    decide +kernel
  obtain ⟨⟨r, e'⟩, hexecute, hcheck⟩ := (Option.any_eq_true ..).1 hcheck
  simp only [Bool.and_eq_true, beq_iff_eq] at hcheck
  obtain ⟨hok, htrace⟩ := hcheck
  cases r with
  | error fault => exact absurd hok (by simp [Except.isOk, Except.toBool])
  | ok outputs =>
    obtain ⟨w₀, w, visits, trace, start, used, hbegins, hreaches, htrace', hvisits, hstarts,
      hpath, -, -, -,
      horder⟩ :=
        follows_control_of_executeWithin (c := Sample.branching) rfl rfl rfl (by decide) hexecute
    obtain rfl : start = some ⟨0⟩ := by
      cases start with
      | none => exact absurd hstarts (by decide)
      | some source =>
          obtain rfl : ⟨0⟩ = source := by simpa [Sample.branching] using hstarts
          rfl
    rw [htrace, Option.some.injEq] at htrace'
    rw [← htrace'] at hvisits
    exact ⟨outputs, e', w₀, w, visits, hexecute, hbegins, hreaches, hvisits.symm, hpath,
      (horder ⟨0⟩ rfl).1 fun call _ => Sample.acyclic_branching call⟩

end CallFlow
