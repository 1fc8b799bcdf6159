import CallFlow.Proofs.Integrity
import CallFlow.Store.Basic
import Mathlib.Data.List.Pairwise

/-!
# Graphs that come back from a store

A store keeps the definitions of a graph and neither their keys nor the next free identities.  For
a graph that was built nothing is lost by that: put together again it is the graph that it was,
unless a function is represented by two compositions, of which only the later one is its body
(`Graph.Built.assemble_parts`).

The keys come back because they are those in the definitions, in order, and the next free
identities because those in use have no gaps and there are words for them
(`Graph.Regular.ofParts_parts`).  A graph that was not built need not be so; what comes of its
parts is said for every graph whose definitions stand under their own identities
(`Graph.Keyed.assembles`).
-/

namespace CallFlow

namespace Graph

variable {g : Graph}

/-! ## The next free identities -/

theorem above_append (ns : List Nat) (n : Nat) :
    above (ns ++ [n]) = max (above ns) ((n + 1) % UInt32.size) := by
  simp [above]

theorem above_range {n : Nat} (h : n < UInt32.size) : above (List.range n) = n := by
  induction n with
  | zero => rfl
  | succ n ih =>
      rw [List.range_succ, above_append, ih (Nat.lt_of_succ_lt h), Nat.mod_eq_of_lt h]
      exact Nat.max_eq_right (Nat.le_succ n)

/-- The next free identity depends on which are in use, in whatever order. -/
theorem above_of_perm {ns ns' : List Nat} (h : ns.Perm ns') : above ns = above ns' :=
  h.foldl_eq' (fun _ _ _ _ _ => by omega) 0

/-! ## The graph of its parts -/

/-- Every definition stands under the identity that is inside of it. -/
structure Keyed (g : Graph) : Prop where
  functions : ∀ id d, (id, d) ∈ g.functions → d.id = id
  compositions : ∀ id c, (id, c) ∈ g.compositions → c.id = id

/-- The definitions stand in order of their keys. -/
structure Ordered (g : Graph) : Prop where
  functions : (Assoc.keys g.functions).Pairwise fun id id' => id.val < id'.val
  compositions : (Assoc.keys g.compositions).Pairwise fun id id' => id.val < id'.val

/-- The graph with next free identities right above those in use. -/
def recounted (g : Graph) : Graph :=
  { g with
    nextFunction := above ((Assoc.values g.functions).map fun d => d.id.val)
    nextComposition := above ((Assoc.values g.compositions).map fun c => c.id.val)
    nextCall := above (g.calls.map fun d => d.id.val) }

theorem Keyed.keys_functions (h : g.Keyed) :
    Assoc.keys g.functions = (Assoc.values g.functions).map (·.id) := by
  rw [← congrArg Assoc.keys (Assoc.map_values Description.id h.functions), Assoc.keys, List.map_map]
  rfl

theorem Keyed.keys_compositions (h : g.Keyed) :
    Assoc.keys g.compositions = (Assoc.values g.compositions).map (·.id) := by
  rw [← congrArg Assoc.keys (Assoc.map_values Composition.id h.compositions),
    Assoc.keys, List.map_map]
  rfl

/-- Put together from its parts, a graph has its definitions again. -/
theorem Keyed.ofParts_parts (h : g.Keyed) (hordered : g.Ordered) :
    ofParts g.name (Assoc.values g.functions) (Assoc.values g.compositions) = g.recounted := by
  have hfunctions : (Assoc.values g.functions).map (fun d => (d.id, d)) = g.functions :=
    Assoc.map_values _ h.functions
  have hcompositions : (Assoc.values g.compositions).map (fun c => (c.id, c)) = g.compositions :=
    Assoc.map_values _ h.compositions
  have hsortedFunctions : Assoc.sortedOfList FunctionId.before g.functions = g.functions :=
    Assoc.sortedOfList_of_rank (fun _ _ => rfl) hordered.functions
  have hsortedCompositions :
      Assoc.sortedOfList CompositionId.before g.compositions = g.compositions :=
    Assoc.sortedOfList_of_rank (fun _ _ => rfl) hordered.compositions
  rw [ofParts, hfunctions, hcompositions, hsortedFunctions, hsortedCompositions]
  rfl

theorem Regular.keyed (h : g.Regular) : g.Keyed :=
  ⟨fun id d hd => (h.wellFormed.functions id d (h.function_of_mem hd)).1,
    fun id c hc => (h.wellFormed.compositions id c (h.composition_of_mem hc)).1⟩

theorem Regular.ordered (h : g.Regular) : g.Ordered := by
  constructor
  · rw [h.numbered.functions]
    exact List.pairwise_map.2 List.pairwise_lt_range
  · rw [h.numbered.compositions]
    exact List.pairwise_map.2 List.pairwise_lt_range

theorem Regular.recounted (h : g.Regular) (hcounted : g.Counted) : g.recounted = g := by
  have hnextFunction :
      above ((Assoc.values g.functions).map fun d => d.id.val) = g.nextFunction := by
    have hids : (Assoc.values g.functions).map (fun d => d.id.val) =
        (Assoc.keys g.functions).map FunctionId.val := by
      rw [h.keyed.keys_functions, List.map_map]
      rfl
    rw [hids, h.numbered.functions]
    simpa [Function.comp_def] using above_range hcounted.functions
  have hnextComposition :
      above ((Assoc.values g.compositions).map fun c => c.id.val) = g.nextComposition := by
    have hids :
        (Assoc.values g.compositions).map (fun c => c.id.val) =
          (Assoc.keys g.compositions).map CompositionId.val := by
      rw [h.keyed.keys_compositions, List.map_map]
      rfl
    rw [hids, h.numbered.compositions]
    simpa [Function.comp_def] using above_range hcounted.compositions
  have hnextCall : above (g.calls.map fun d => d.id.val) = g.nextCall := by
    have hperm : (g.calls.map fun d => d.id.val).Perm (List.range g.nextCall) := by
      simpa [Function.comp_def] using h.numbered.calls.map CallId.val
    rw [above_of_perm hperm, above_range hcounted.calls]
  rw [Graph.recounted, hnextFunction, hnextComposition, hnextCall]

theorem Regular.ofParts_parts (h : g.Regular) (hcounted : g.Counted) :
    ofParts g.name (Assoc.values g.functions) (Assoc.values g.compositions) = g :=
  (h.keyed.ofParts_parts h.ordered).trans (h.recounted hcounted)

end Graph

/-! ## Bodies -/

namespace GraphParts

variable {p : GraphParts}

/-- A fault names a composition that is not the body of the function it represents. -/
theorem fault?_eq_some {cs : List Composition} {fault : AssemblyFault}
    (h : p.fault? cs = some fault) :
    ∃ c ∈ cs, ∃ f, c.represents = some f ∧ p.bodyOf? f ≠ some c.id ∧
      fault = .notItsBody c.id f := by
  induction cs with
  | nil => exact absurd h (by simp [fault?])
  | cons c rest ih =>
      have hlater : p.fault? rest = some fault → ∃ c' ∈ c :: rest, ∃ f, c'.represents = some f ∧
          p.bodyOf? f ≠ some c'.id ∧ fault = .notItsBody c'.id f := by
        intro hrest
        obtain ⟨c', hc', hfault⟩ := ih hrest
        exact ⟨c', List.mem_cons_of_mem _ hc', hfault⟩
      rw [fault?] at h
      split at h
      · exact hlater h
      · rename_i f hf
        split at h
        · exact hlater h
        · rename_i hbody
          exact ⟨c, by simp, f, hf, hbody, (Option.some.inj h).symm⟩

theorem fault?_eq_none_iff {cs : List Composition} :
    p.fault? cs = none ↔ ∀ c ∈ cs, ∀ f, c.represents = some f → p.bodyOf? f = some c.id := by
  induction cs with
  | nil => simp [fault?]
  | cons c rest ih =>
      rw [fault?]
      cases hf : c.represents with
      | none => simp [hf, ih]
      | some f => by_cases hbody : p.bodyOf? f = some c.id <;> simp [hf, hbody, ih]

end GraphParts

namespace Graph

variable {g : Graph}

/-- The functions that compositions represent, each as often as there is one. -/
def represented (g : Graph) : List FunctionId :=
  (Assoc.values g.compositions).filterMap (·.represents)

/-- Every composition is the body of the function that it represents. -/
def Linked (g : Graph) : Prop :=
  ∀ c ∈ Assoc.values g.compositions,
    ∀ f, c.represents = some f → ∃ d, g.function f = .ok d ∧ d.body = some c.id

theorem Keyed.bodyOf?_parts (h : g.Keyed) (f : FunctionId) :
    g.parts.bodyOf? f = (Assoc.find? g.functions f).bind (·.body) := by
  rw [GraphParts.bodyOf?, parts, Assoc.find?_values h.functions]

theorem Keyed.bodyOf?_eq_some_iff (h : g.Keyed) {f : FunctionId} {c : CompositionId} :
    g.parts.bodyOf? f = some c ↔ ∃ d, g.function f = .ok d ∧ d.body = some c := by
  simp only [h.bodyOf?_parts, Option.bind_eq_some_iff, function_eq_ok]

/-- The parts of a graph fit together exactly if every composition is the body of what it
represents. -/
theorem Keyed.fault?_parts_eq_none_iff (h : g.Keyed) :
    g.parts.fault? g.parts.compositions = none ↔ g.Linked := by
  simp only [GraphParts.fault?_eq_none_iff, h.bodyOf?_eq_some_iff]
  rfl

/-- **A graph that passes its check comes back from its parts**, with next free identities that are
counted again, exactly if every composition is the body of the function that it represents. -/
theorem Keyed.assembles (h : g.Keyed) (hordered : g.Ordered) (hcheck : g.check = .ok ()) :
    (g.Linked → g.parts.assemble = .ok g.recounted) ∧
    (¬ g.Linked → ∃ c ∈ Assoc.values g.compositions, ∃ f, c.represents = some f ∧
      (¬ ∃ d, g.function f = .ok d ∧ d.body = some c.id) ∧
      g.parts.assemble = .error (.notAssembled (.notItsBody c.id f))) := by
  constructor
  · intro hlinked
    have hparts : ofParts g.parts.name g.parts.functions g.parts.compositions = g.recounted :=
      h.ofParts_parts hordered
    have hrecounted : g.recounted.check = .ok () := hcheck
    rw [GraphParts.assemble, h.fault?_parts_eq_none_iff.2 hlinked]
    simp only [hparts, hrecounted]
  · intro hlinked
    cases hfault : g.parts.fault? g.parts.compositions with
    | none => exact absurd (h.fault?_parts_eq_none_iff.1 hfault) hlinked
    | some fault =>
        obtain ⟨c, hc, f, hf, hbody, rfl⟩ := GraphParts.fault?_eq_some hfault
        rw [Ne, h.bodyOf?_eq_some_iff] at hbody
        exact ⟨c, hc, f, hf, hbody, by rw [GraphParts.assemble, hfault]⟩

theorem Regular.bodyOf?_parts (h : g.Regular) {f : FunctionId} {d : Description}
    (hd : g.function f = .ok d) :
    g.parts.bodyOf? f = d.body := by
  rw [h.keyed.bodyOf?_parts, function_eq_ok.1 hd]
  rfl

theorem Regular.exists_composition_of_mem (h : g.Regular) {c : Composition}
    (hc : c ∈ Assoc.values g.compositions) : g.composition c.id = .ok c := by
  obtain ⟨⟨id, c⟩, hentry, rfl⟩ := List.mem_map.1 hc
  have hcomposition : g.composition id = .ok c := h.composition_of_mem hentry
  rwa [(h.wellFormed.compositions id c hcomposition).1]

/-- Every composition is the body of the function it represents exactly if no two represent the
same. -/
theorem Regular.fault?_parts_eq_none_iff (h : g.Regular) :
    g.parts.fault? g.parts.compositions = none ↔ g.represented.Nodup := by
  rw [GraphParts.fault?_eq_none_iff, represented, List.Nodup, List.pairwise_filterMap]
  constructor
  · intro hbodies
    have hids : (Assoc.values g.compositions).Pairwise fun c c' => c.id ≠ c'.id := by
      have hnodup := h.numbered.nodup_compositions
      rwa [h.keyed.keys_compositions, List.Nodup, List.pairwise_map] at hnodup
    refine hids.imp_of_mem fun {c c'} hc hc' hne f hf f' hf' heq => ?_
    subst heq
    exact hne (Option.some.inj ((hbodies c hc f hf).symm.trans (hbodies c' hc' f hf')))
  · intro hpairwise c hc f hf
    have hcomposition : g.composition c.id = .ok c := h.exists_composition_of_mem hc
    obtain ⟨d, hd, hbody⟩ := h.checked.bodies c.id c f hcomposition hf
    obtain ⟨b, hb⟩ := Option.isSome_iff_exists.1 hbody
    -- the body represents the function as well
    obtain ⟨c', hc', hf'⟩ := h.wellFormed.bodies f d b hd hb
    have hmem : c' ∈ Assoc.values g.compositions :=
      List.mem_map_of_mem (f := (·.2)) (Assoc.mem_of_find?_eq_some (composition_eq_ok.1 hc'))
    have hsame : c = c' := by
      by_contra hne
      have hsymm : Std.Symm fun (c c' : Composition) =>
          ∀ f, c.represents = some f → ∀ f', c'.represents = some f' → f ≠ f' :=
        ⟨fun _ _ hdistinct f hf f' hf' heq => hdistinct f' hf' f hf heq.symm⟩
      exact hpairwise.forall hc hmem hne f hf f hf' rfl
    subst hsame
    rw [h.bodyOf?_parts hd, hb, (h.wellFormed.compositions b c hc').1]

/-- **A graph that was built comes back from its parts as it was**, with the next free identities,
if no function is represented by two compositions.  If one is, the parts are rejected, since a
composition is not the body of the function that it represents. -/
theorem Built.assemble_parts (h : g.Built) :
    (g.represented.Nodup → g.parts.assemble = .ok g) ∧
    (¬ g.represented.Nodup →
      ∃ c f, g.parts.assemble = .error (.notAssembled (.notItsBody c f))) := by
  have hregular : g.Regular := h.regular
  constructor
  · intro hnodup
    have hbodies : g.parts.fault? g.parts.compositions = none :=
      hregular.fault?_parts_eq_none_iff.2 hnodup
    have hparts : ofParts g.parts.name g.parts.functions g.parts.compositions = g :=
      hregular.ofParts_parts h.counted
    rw [GraphParts.assemble, hbodies]
    simp only [hparts, hregular.check]
  · intro hnodup
    cases hfault : g.parts.fault? g.parts.compositions with
    | none => exact absurd (hregular.fault?_parts_eq_none_iff.1 hfault) hnodup
    | some fault =>
        obtain ⟨c, -, f, -, -, rfl⟩ := GraphParts.fault?_eq_some hfault
        exact ⟨c.id, f, by rw [GraphParts.assemble, hfault]⟩

/-- A second composition for the function takes its body away from the first one. -/
theorem Built.assemble_parts_sample :
    ((Sample.workshop.foldl Operation.apply (.empty "workshop")).Built ∧
      (Sample.workshop.foldl Operation.apply (.empty "workshop")).parts.assemble
        = .ok (Sample.workshop.foldl Operation.apply (.empty "workshop"))) ∧
    ((Operation.addComposition "other" (some ⟨0⟩)).apply
      (Sample.workshop.foldl Operation.apply (.empty "workshop"))).Built ∧
    ∃ c f, ((Operation.addComposition "other" (some ⟨0⟩)).apply
      (Sample.workshop.foldl Operation.apply (.empty "workshop"))).parts.assemble
        = .error (.notAssembled (.notItsBody c f)) := by
  have hbuilt : (Sample.workshop.foldl Operation.apply (.empty "workshop")).Built :=
    (Built.empty "workshop").foldl (by decide +kernel)
  have hother := hbuilt.apply (.addComposition "other" (some ⟨0⟩)) rfl (by decide +kernel)
  exact ⟨⟨hbuilt, (Built.assemble_parts hbuilt).1 (by decide +kernel)⟩, hother,
    (Built.assemble_parts hother).2 (by decide +kernel)⟩

end Graph

end CallFlow
