import CallFlow.Proofs.Authority
import CallFlow.Proofs.Settle

/-!
# Variables that merge branches

A call can key a mapping into a variable from anywhere, such as a constant for the branch that it
stands for.  When the call completes, that mapping is the one that counts, but whether the
variable is re-read from it depends on other mappings: on whether the call feeds the variable and
on whether the variable reads one that was written (`Walk.settles_of_executes`).  A constant alone
does not make it so (`Walk.settles_of_executes_sample`).
-/

namespace CallFlow

/-- The mapping from a constant for the branch that is taken if the flag is false. -/
def Sample.merged : Mapping := ⟨.constant (.int 20), none, .variable "v", none, some ⟨2⟩⟩

namespace Walk

variable {ctx : Context} {id : CompositionId} {inputs : List (String × Value)} {depth fuel : Nat}
  {w₀ w w' : Walk} {history : List Visit} {v : Visit} {r : Except RunFault (Option CallId)}
  {next : Option CallId} {name : String} {m : Mapping}

/-- **What a completed call does to a variable that it keys with one direct mapping.**  The call is
settled in a scene that differs from the one before the visit only inside the call, which shows what
it has published.  If the source of the mapping is written there, the variable is re-read when the
call feeds it or it reads a variable that was written, and it shows what the mapping reads if that
was not written later; otherwise it keeps what it has. -/
theorem settles_of_executes (hbegins : w₀.Begins ctx id inputs)
    (hreaches : Reaches ctx depth w₀ history r w)
    (hexecutes : Executes ctx (runner (steps ctx fuel)) depth w v (.ok next) w')
    (hcompleted : v.outcome = .completed)
    (hm : m ∈ w.scene.frame.wiring.group (.variable name) (some v.call))
    (hdirect : m.isDirect = true) :
    ∃ s order, (Flow.settle v.call).run s = (.ok order, w'.scene) ∧
      s.frame.wiring = w.scene.frame.wiring ∧
      (∀ slot, ¬ slot.Inside v.call → s.terminal? slot = w.scene.terminal? slot) ∧
      (∀ port, s.peek (.call v.call port) = (v.terminals.get? port).bind Terminal.peek) ∧
      ((s.peek m.source).isSome = true →
        Flow.Settles s w'.scene v.call order name m) := by
  obtain ⟨s, settled, hsettle, ⟨next', hr⟩, -, hwiring, hothers, hpeek, -⟩ :=
    hexecutes.completed (faithful_runner ctx fuel) hcompleted
  have hbuilt := built_of_reaches hbegins hreaches
  rw [← hwiring] at hbuilt hm
  cases settled with
  | error fault => exact absurd hr (by simp [Except.map])
  | ok order =>
      exact ⟨s, order, hsettle, hwiring, hothers, hpeek, fun hwritten =>
        Flow.settles_of_settle hbuilt hm hdirect hwritten hsettle⟩

/-- Behind the branch the variable `v` is keyed by the call that was taken, from a constant, and it
is unwritten after that call has completed. -/
theorem settles_of_executes_sample :
    ∃ (v₀ v₂ : Visit) (w w' : Walk) (fuel : Nat) (s : Scene) (order : List String),
      Reaches Sample.context 0 (Sample.startOf Sample.context) [v₀] (.ok (some v₂.call)) w ∧
      Executes Sample.context (runner (steps Sample.context fuel)) 0 w v₂ (.ok none) w' ∧
      v₂.call = ⟨2⟩ ∧ v₂.outcome = .completed ∧
      w.scene.frame.wiring.group (.variable "v") (some v₂.call) = [Sample.merged] ∧
      (Flow.settle v₂.call).run s = (.ok order, w'.scene) ∧
      (s.peek Sample.merged.source).isSome = true ∧
      Flow.Settles s w'.scene v₂.call order "v" Sample.merged ∧
      w'.scene.peek (.variable "v") = none := by
  obtain ⟨v₀, v₂, w', hreaches, -, -, hv₂, hcompleted, -, hunwritten⟩ := Sample.reaches
  cases hreaches with
  | @executed _ fuel _ w _ _ hbefore hexecutes =>
      have hmappings : w.scene.frame.wiring.mappings
          = (Sample.frameOf Sample.context).wiring.mappings := by
        rw [hbefore.wiring, Wiring.mappings_completeAll]
        rfl
      have hgroup :
          w.scene.frame.wiring.group (.variable "v") (some v₂.call) = [Sample.merged] := by
        rw [Wiring.group_eq_of_mappings hmappings, hv₂]
        rfl
      obtain ⟨s, order, hsettle, -, -, -, hsettles⟩ :=
        settles_of_executes (Sample.begins_startOf Sample.ofGraph_eq) hbefore hexecutes hcompleted
          (by rw [hgroup]; exact List.mem_cons_self) rfl
      exact ⟨v₀, v₂, w, w', fuel, s, order, hbefore, hexecutes, hv₂, hcompleted,
        hgroup, hsettle, rfl,
        hsettles rfl, hunwritten⟩

end Walk

end CallFlow
