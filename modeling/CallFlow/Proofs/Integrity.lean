import CallFlow.Proofs.Builder
import CallFlow.Proofs.Assoc

/-!
# What holds of graphs that were built

A graph that comes from the empty one by proper operations (`Graph.Built`) is intact at every
time, also after operations that failed (`Graph.Built.intact`).

Being well formed is one of three invariants.  The second one counts (`Graph.Numbered`): the
identities in use are those from zero up to the next free ones, each once.  The third one is that
whatever a builder checks when it adds something stays true (`Graph.Checked`).  Each invariant is
kept by every change that operations make, the third one because functions and compositions only
ever gain ports, calls and bodies (`Graph.Change.function`, `Graph.Change.composition`).
-/

namespace CallFlow

namespace Graph

variable {g g' : Graph}

/-- The graph comes from the empty one by proper operations, each of which may have failed, and at
no time were there more definitions than words for their identities. -/
inductive Built : Graph → Prop where
  | empty (name : String) : Built (.empty name)
  | apply {g : Graph} (built : Built g) (op : Operation) (proper : op.isProper g = true)
      (counted : (op.apply g).Counted) : Built (op.apply g)

theorem Built.counted (h : g.Built) : g.Counted := by
  cases h with
  | empty name =>
      have hzero : 0 < UInt32.size := by decide
      exact ⟨hzero, hzero, hzero⟩
  | apply _ _ _ hcounted => exact hcounted

/-- Is each of the operations proper when it is made, one after the other, and are there words for
the definitions that it makes? -/
def areProper : Graph → List Operation → Bool
  | _, [] => true
  | g, op :: rest => op.isProper g && decide (op.apply g).Counted && areProper (op.apply g) rest

theorem Built.foldl (h : g.Built) {ops : List Operation} (hops : g.areProper ops = true) :
    (ops.foldl Operation.apply g).Built := by
  induction ops generalizing g with
  | nil => exact h
  | cons op rest ih =>
      obtain ⟨hfirst, hrest⟩ := Bool.and_eq_true_iff.1 hops
      obtain ⟨hop, hcounted⟩ := Bool.and_eq_true_iff.1 hfirst
      exact ih (h.apply op hop (of_decide_eq_true hcounted)) hrest

/-- The calls of all compositions. -/
def calls (g : Graph) : List CallDecl := (Assoc.values g.compositions).flatMap (·.calls)

/-! ## Identities -/

/-- The identities in use are those from zero up to the next free ones, each once. -/
structure Numbered (g : Graph) : Prop where
  functions : Assoc.keys g.functions = (List.range g.nextFunction).map FunctionId.mk
  compositions : Assoc.keys g.compositions = (List.range g.nextComposition).map CompositionId.mk
  calls : (g.calls.map (·.id)).Perm ((List.range g.nextCall).map CallId.mk)

theorem numbered_empty (name : String) : (Graph.empty name).Numbered := ⟨rfl, rfl, .refl _⟩

theorem insertSorted_function (h : Assoc.keys g.functions =
    (List.range g.nextFunction).map FunctionId.mk)
    (d : Description) : Assoc.insertSorted FunctionId.before g.functions ⟨g.nextFunction⟩ d
      = g.functions ++ [(⟨g.nextFunction⟩, d)] := by
  refine Assoc.insertSorted_of_last (fun id hid => ?_) d
  rw [h] at hid
  obtain ⟨i, hi, rfl⟩ := List.mem_map.1 hid
  have hless : i < g.nextFunction := List.mem_range.1 hi
  refine ⟨?_, ?_⟩
  · intro heq
    have : i = g.nextFunction := congrArg FunctionId.val heq
    omega
  · simp [FunctionId.before]
    omega

theorem insertSorted_composition
    (h : Assoc.keys g.compositions = (List.range g.nextComposition).map CompositionId.mk)
      (c : Composition) :
    Assoc.insertSorted CompositionId.before g.compositions ⟨g.nextComposition⟩ c
      = g.compositions ++ [(⟨g.nextComposition⟩, c)] := by
  refine Assoc.insertSorted_of_last (fun id hid => ?_) c
  rw [h] at hid
  obtain ⟨i, hi, rfl⟩ := List.mem_map.1 hid
  have hless : i < g.nextComposition := List.mem_range.1 hi
  refine ⟨?_, ?_⟩
  · intro heq
    have : i = g.nextComposition := congrArg CompositionId.val heq
    omega
  · simp [CompositionId.before]
    omega

/-- The calls of a composition that changes are among those of the graph. -/
theorem perm_calls_modify {id : CompositionId} {c : Composition} {f : Composition → Composition}
    (new : List CallId) (hc : g.composition id = .ok c)
    (h : ((f c).calls.map (·.id)).Perm (c.calls.map (·.id) ++ new)) :
    ((Assoc.values (Assoc.modify g.compositions id f)).flatMap (·.calls) |>.map (·.id)).Perm
      (g.calls.map (·.id) ++ new) := by
  obtain ⟨front, back, hsplit, hmodify⟩ := Assoc.exists_split_of_find? (composition_eq_ok.1 hc)
  rw [hmodify, calls, hsplit]
  simp only [Assoc.values, List.map_append, List.map_cons, List.flatMap_append, List.flatMap_cons,
    List.append_assoc]
  refine List.Perm.append_left _ ?_
  exact (h.append_right _).trans (by simpa using List.perm_append_comm.append_left _)

/-- **Every change keeps the identities in use gapless.** -/
theorem Change.numbered (h : g.Change g') (hg : g.Numbered) : g'.Numbered := by
  cases h with
  | @addFunction d _ _ _ =>
      refine ⟨?_, hg.compositions, hg.calls⟩
      rw [insertSorted_function hg.functions]
      simp [Assoc.keys, List.range_succ, ← hg.functions]
  | modifyFunction _ _ _ => exact ⟨by simpa using hg.functions, hg.compositions, hg.calls⟩
  | addComposition name represents _ =>
      have hfunctions :
          Assoc.keys (g.withBody ⟨g.nextComposition⟩ represents) = Assoc.keys g.functions := by
        cases represents <;> simp [withBody]
      refine ⟨hfunctions.trans hg.functions, ?_, ?_⟩
      · rw [insertSorted_composition hg.compositions]
        simp [Assoc.keys, List.range_succ, ← hg.compositions]
      · rw [calls, insertSorted_composition hg.compositions]
        simpa [Assoc.values, Composition.empty, calls] using hg.calls
  | addCall hc _ =>
      refine ⟨hg.functions, by simpa using hg.compositions, ?_⟩
      refine (perm_calls_modify [⟨g.nextCall⟩] hc (by simp)).trans ?_
      simpa [List.range_succ] using hg.calls.append_right [⟨g.nextCall⟩]
  | @modifyCall id c call f hc hkept _ =>
      refine ⟨hg.functions, by simpa using hg.compositions, ?_⟩
      refine (perm_calls_modify [] hc ?_).trans (by simpa using hg.calls)
      simp [Composition.modifyCall, Composition.map_id_go hkept]
  | addStart hc _ =>
      refine ⟨hg.functions, by simpa using hg.compositions, ?_⟩
      refine (perm_calls_modify [] hc ?_).trans (by simpa using hg.calls)
      split <;> simp
  | addMapping hc _ =>
      refine ⟨hg.functions, by simpa using hg.compositions, ?_⟩
      exact (perm_calls_modify [] hc (by simp)).trans (by simpa using hg.calls)

theorem Numbered.nodup_functions (h : g.Numbered) : (Assoc.keys g.functions).Nodup := by
  rw [h.functions]
  exact List.Nodup.map (fun i j hij => congrArg FunctionId.val hij) List.nodup_range

theorem Numbered.nodup_compositions (h : g.Numbered) : (Assoc.keys g.compositions).Nodup := by
  rw [h.compositions]
  exact List.Nodup.map (fun i j hij => congrArg CompositionId.val hij) List.nodup_range

theorem Numbered.nodup_calls (h : g.Numbered) : (g.calls.map (·.id)).Nodup := by
  rw [h.calls.nodup_iff]
  exact List.Nodup.map (fun i j hij => congrArg CallId.val hij) List.nodup_range

/-! ## What one change does -/

/-- A function that is there stays, with its ports, and its body is the one it had or one that was
added later. -/
theorem Change.function (h : g.Change g') (hg : g.WellFormed) {id : FunctionId} {d : Description}
    (hd : g.function id = .ok d) : ∃ d', g'.function id = .ok d' ∧
      (∀ port, hasPort d port = true → hasPort d' port = true) ∧
      ∀ body, d.body = some body → ∃ body', d'.body = some body' ∧ body.val ≤ body'.val := by
  have hsame : ∀ {d' : Description}, d'.body = d.body → ∀ body, d.body = some body →
      ∃ body', d'.body = some body' ∧ body.val ≤ body'.val :=
    fun heq body hbody => ⟨body, heq.trans hbody, Nat.le_refl _⟩
  cases h with
  | addFunction _ _ _ =>
      have hne : (⟨g.nextFunction⟩ : FunctionId) ≠ id := by
        rintro rfl
        exact absurd (hg.functions _ d hd).2 (Nat.lt_irrefl _)
      refine ⟨d, ?_, fun _ hport => hport, hsame rfl⟩
      rw [function_eq_ok, Assoc.find?_insertSorted, if_neg hne]
      exact function_eq_ok.1 hd
  | @modifyFunction id' d' f _ hkept _ =>
      simp only [function_eq_ok, Assoc.find?_modify, function_eq_ok.1 hd, Option.map_some]
      split
      · exact ⟨f d, rfl, hkept.ports d, hsame (hkept.body d)⟩
      · exact ⟨d, rfl, fun _ hport => hport, hsame rfl⟩
  | addComposition name represents _ =>
      cases represents with
      | none => exact ⟨d, hd, fun _ hport => hport, hsame rfl⟩
      | some f =>
          simp only [withBody, function_eq_ok, Assoc.find?_modify, function_eq_ok.1 hd,
            Option.map_some]
          split
          · refine ⟨_, rfl, fun port hport => by cases port <;> exact hport, fun body hbody => ?_⟩
            obtain ⟨c, hc, -⟩ := hg.bodies id d body hd hbody
            exact ⟨⟨g.nextComposition⟩, rfl, Nat.le_of_lt (hg.compositions body c hc).2.1⟩
          · exact ⟨d, rfl, fun _ hport => hport, hsame rfl⟩
  | addCall _ _ | modifyCall _ _ _ | addStart _ _ | addMapping _ _ =>
      exact ⟨d, hd, fun _ hport => hport, hsame rfl⟩

theorem Change.extends (h : g.Change g') (hg : g.WellFormed) : g.Extends g' where
  functions id d hd := by
    obtain ⟨d', hd', hports, -⟩ := h.function hg hd
    exact ⟨d', hd', hports⟩
  calls := by cases h <;> first | exact Nat.le_refl _ | exact Nat.le_succ _

/-- A function that was added or changed breaks no rule. -/
theorem Change.valid (h : g.Change g') (hg : ∀ id d, g.function id = .ok d → d.fault? = none)
    {id : FunctionId} {d : Description} (hd : g'.function id = .ok d) : d.fault? = none := by
  cases h with
  | @addFunction new _ _ hvalid =>
      rw [function_eq_ok, Assoc.find?_insertSorted] at hd
      split at hd
      · obtain rfl := Option.some.inj hd
        exact hvalid
      · exact hg id d (function_eq_ok.2 hd)
  | @modifyFunction id' d' f hd' _ hvalid =>
      rcases function_modify hd with hd | ⟨d₀, hd₀, rfl, rfl⟩
      · exact hg id d hd
      · obtain rfl : d' = d₀ := Except.ok.inj (hd'.symm.trans hd₀)
        exact hvalid (hg _ d' hd₀)
  | addComposition name represents _ =>
      cases represents with
      | none => exact hg id d hd
      | some f =>
          rcases function_modify (f := fun d => { d with body := some ⟨g.nextComposition⟩ }) hd
            with hd | ⟨d₀, hd₀, -, rfl⟩
          · exact hg id d hd
          · exact hg _ d₀ hd₀
  | addCall _ _ | modifyCall _ _ _ | addStart _ _ | addMapping _ _ => exact hg id d hd

/-- The second composition is the first one after a change that was checked in the graph. -/
structure Develops (g : Graph) (c c' : Composition) : Prop where
  grows : c.Grows c'
  starts : c.starts.Nodup → c'.starts.Nodup
  mappings : ∀ m ∈ c'.mappings, m ∈ c.mappings ∨ g.Admits c m

theorem Develops.refl (c : Composition) : g.Develops c c :=
  ⟨⟨rfl, fun _ decl hdecl => ⟨decl, hdecl, rfl⟩⟩, fun h => h, fun _ hm => .inl hm⟩

/-- A composition behind a change of one composition. -/
theorem composition_modify {id id' : CompositionId} {c c' : Composition}
    {f : Composition → Composition}
    {nextCall : Nat} (hc : g.composition id = .ok c) (hf : g.Develops c (f c))
    (h : ({ g with compositions := Assoc.modify g.compositions id f, nextCall } : Graph).composition
      id' = .ok c') :
    ∃ c₀, g.composition id' = .ok c₀ ∧ g.Develops c₀ c' := by
  rw [composition_eq_ok, Assoc.find?_modify] at h
  split at h
  · rename_i heq
    subst heq
    rw [composition_eq_ok.1 hc] at h
    obtain rfl := Option.some.inj h
    exact ⟨c, hc, hf⟩
  · exact ⟨c', composition_eq_ok.2 h, .refl c'⟩

/-- A composition is one that was there, after a change that was checked, or a new one, which is the
body of its function. -/
theorem Change.composition (h : g.Change g') {id : CompositionId} {c' : Composition}
    (hc' : g'.composition id = .ok c') :
    (∃ c, g.composition id = .ok c ∧ g.Develops c c') ∨
    ∃ name represents, c' = .empty id name represents ∧
      ∀ f, represents = some f → ∃ d, g'.function f = .ok d ∧ d.body = some id := by
  cases h with
  | addFunction _ _ _ | modifyFunction _ _ _ => exact .inl ⟨c', hc', .refl c'⟩
  | addComposition name represents hfunction =>
      rw [composition_eq_ok, Assoc.find?_insertSorted] at hc'
      split at hc'
      · rename_i heq
        subst heq
        refine .inr ⟨name, represents, (Option.some.inj hc').symm, ?_⟩
        rintro f rfl
        obtain ⟨d, hd⟩ := hfunction f rfl
        refine ⟨{ d with body := some ⟨g.nextComposition⟩ }, ?_, rfl⟩
        rw [function_eq_ok, withBody, Assoc.find?_modify, if_pos rfl, function_eq_ok.1 hd]
        rfl
      · exact .inl ⟨c', composition_eq_ok.2 hc', .refl c'⟩
  | addCall hc _ =>
      exact .inl (composition_modify hc
        ⟨Composition.grows_addCall _, fun h => h, fun _ hm => .inl hm⟩ hc')
  | @modifyCall _ c call f hc hkept _ =>
      exact .inl (composition_modify hc
        ⟨Composition.grows_modifyCall hkept, fun h => h, fun _ hm => .inl hm⟩ hc')
  | @addStart _ c call hc _ =>
      refine .inl (composition_modify hc ?_ hc')
      by_cases hstart : c.starts.contains call = true
      · rw [if_pos hstart]
        exact .refl c
      · rw [if_neg hstart]
        refine ⟨⟨rfl, fun _ decl hdecl => ⟨decl, hdecl, rfl⟩⟩, fun hnodup => ?_,
          fun _ hm => .inl hm⟩
        refine List.nodup_append.2 ⟨hnodup, by simp, fun a ha b hb heq => ?_⟩
        obtain rfl := List.mem_singleton.1 hb
        exact hstart (by simpa [← heq] using ha)
  | @addMapping _ c m hc hadmits =>
      refine .inl (composition_modify hc ?_ hc')
      refine ⟨⟨rfl, fun _ decl hdecl => ⟨decl, hdecl, rfl⟩⟩, fun h => h, fun m' hm' => ?_⟩
      rcases List.mem_append.1 hm' with hm' | hm'
      · exact .inl hm'
      · obtain rfl := List.mem_singleton.1 hm'
        exact .inr hadmits

/-! ## What was checked stays true -/

/-- What a builder checks of definitions when it adds them is true of those that are there. -/
structure Checked (g : Graph) : Prop where
  valid : ∀ id d, g.function id = .ok d → d.fault? = none
  bodies : ∀ id c f, g.composition id = .ok c → c.represents = some f →
    ∃ d, g.function f = .ok d ∧ d.body.isSome = true
  starts : ∀ id c, g.composition id = .ok c → c.starts.Nodup
  mappings : ∀ id c, g.composition id = .ok c → ∀ m ∈ c.mappings, g.Admits c m

theorem checked_empty (name : String) : (Graph.empty name).Checked :=
  ⟨fun _ _ h => absurd h (by simp [function_eq_ok, empty]),
    fun _ _ _ h => absurd h (by simp [composition_eq_ok, empty]),
    fun _ _ h => absurd h (by simp [composition_eq_ok, empty]),
    fun _ _ h => absurd h (by simp [composition_eq_ok, empty])⟩

/-- **Every change keeps true what was checked before.** -/
theorem Change.checked (h : g.Change g') (hg : g.WellFormed) (hchecked : g.Checked) :
    g'.Checked where
  valid id d hd := h.valid hchecked.valid hd
  bodies id c' f hc' hf := by
    rcases h.composition hc' with ⟨c, hc, hdevelops⟩ | ⟨name, represents, rfl, hbody⟩
    · obtain ⟨d, hd, hbody⟩ := hchecked.bodies id c f hc (hdevelops.grows.represents ▸ hf)
      obtain ⟨body, hbody⟩ := Option.isSome_iff_exists.1 hbody
      obtain ⟨d', hd', -, hlater⟩ := h.function hg hd
      obtain ⟨body', hbody', -⟩ := hlater body hbody
      exact ⟨d', hd', Option.isSome_iff_exists.2 ⟨body', hbody'⟩⟩
    · obtain ⟨d, hd, hnew⟩ := hbody f hf
      exact ⟨d, hd, Option.isSome_iff_exists.2 ⟨id, hnew⟩⟩
  starts id c' hc' := by
    rcases h.composition hc' with ⟨c, hc, hdevelops⟩ | ⟨name, represents, rfl, -⟩
    · exact hdevelops.starts (hchecked.starts id c hc)
    · exact .nil
  mappings id c' hc' m hm := by
    rcases h.composition hc' with ⟨c, hc, hdevelops⟩ | ⟨name, represents, rfl, -⟩
    · have hadmits : g.Admits c m := by
        rcases hdevelops.mappings m hm with hold | hnew
        · exact hchecked.mappings id c hc m hold
        · exact hnew
      exact (hadmits.extends (h.extends hg)).grows hdevelops.grows
    · exact absurd hm (by simp [Composition.empty])

/-- The three invariants together. -/
structure Regular (g : Graph) : Prop where
  wellFormed : g.WellFormed
  numbered : g.Numbered
  checked : g.Checked

theorem Changes.regular (h : g.Changes g') (hg : g.Regular) : g'.Regular := by
  induction h with
  | refl => exact hg
  | tail _ hchange ih =>
      exact ⟨hchange.wellFormed ih.wellFormed, hchange.numbered ih.numbered,
        hchange.checked ih.wellFormed ih.checked⟩

/-- **A graph that was built has the three invariants.** -/
theorem Built.regular (h : g.Built) : g.Regular := by
  induction h with
  | empty name => exact ⟨wellFormed_empty name, numbered_empty name, checked_empty name⟩
  | apply _ op hproper _ ih => exact (op.changes_apply hproper).regular ih

/-! ## Intact graphs -/

/-- Nothing in the graph points nowhere, is there twice or stands under an identity that is not its
own, and the graph passes its check. -/
structure Intact (g : Graph) : Prop where
  functionKeys : ∀ id d, (id, d) ∈ g.functions → d.id = id
  compositionKeys : ∀ id c, (id, c) ∈ g.compositions → c.id = id
  functionsOnce : (Assoc.keys g.functions).Nodup
  compositionsOnce : (Assoc.keys g.compositions).Nodup
  callsOnce : (g.calls.map (·.id)).Nodup
  functionsBelow : ∀ id d, (id, d) ∈ g.functions → id.val < g.nextFunction
  compositionsBelow : ∀ id c, (id, c) ∈ g.compositions → id.val < g.nextComposition
  callsBelow : ∀ decl ∈ g.calls, decl.id.val < g.nextCall
  callFunctions : ∀ decl ∈ g.calls, ∃ d, g.function decl.function = .ok d
  starts :
      ∀ id c, (id, c) ∈ g.compositions → c.starts.Nodup ∧ ∀ start ∈ c.starts, c.hasCall start = true
  successors :
      ∀ id c, (id, c) ∈ g.compositions → ∀ decl ∈ c.calls, ∀ target ∈ decl.successor.targets,
    c.hasCall target = true
  represents :
      ∀ id c f, (id, c) ∈ g.compositions → c.represents = some f → ∃ d, g.function f = .ok d
  bodies : ∀ id d b, (id, d) ∈ g.functions → d.body = some b →
    ∃ c, g.composition b = .ok c ∧ c.represents = some id
  mappings : ∀ id c, (id, c) ∈ g.compositions → ∀ m ∈ c.mappings,
    g.Offers c m.source ∧ g.Offers c m.target ∧
      ∀ call, m.priority = some call → c.hasCall call = true
  check : g.check = .ok ()

theorem Regular.function_of_mem (h : g.Regular) {id : FunctionId} {d : Description}
    (hd : (id, d) ∈ g.functions) : g.function id = .ok d :=
  function_eq_ok.2 (Assoc.find?_of_mem h.numbered.nodup_functions hd)

theorem Regular.composition_of_mem (h : g.Regular) {id : CompositionId} {c : Composition}
    (hc : (id, c) ∈ g.compositions) : g.composition id = .ok c :=
  composition_eq_ok.2 (Assoc.find?_of_mem h.numbered.nodup_compositions hc)

theorem exists_composition_of_mem_calls {decl : CallDecl} (h : decl ∈ g.calls) :
    ∃ id c, (id, c) ∈ g.compositions ∧ decl ∈ c.calls := by
  obtain ⟨c, hc, hdecl⟩ := List.mem_flatMap.1 h
  obtain ⟨⟨id, c⟩, hentry, rfl⟩ := List.mem_map.1 hc
  exact ⟨id, c, hentry, hdecl⟩

/-- Descriptions and mappings pass the check again, as they did when they were added. -/
theorem Regular.check (h : g.Regular) : g.check = .ok () := by
  have hfunctions : (Assoc.values g.functions).forM checkDescription = .ok () := by
    refine forM_eq_ok fun d hd => ?_
    obtain ⟨⟨id, d⟩, hentry, rfl⟩ := List.mem_map.1 hd
    have hvalid : d.fault? = none := h.checked.valid id d (h.function_of_mem hentry)
    simp [checkDescription, hvalid]
  have hcompositions : (Assoc.values g.compositions).forM
      (fun c => c.mappings.forM (g.checkMapping c.id)) = .ok () := by
    refine forM_eq_ok fun c hc => forM_eq_ok fun m hm => ?_
    obtain ⟨⟨id, c⟩, hentry, rfl⟩ := List.mem_map.1 hc
    have hcomposition : g.composition id = .ok c := h.composition_of_mem hentry
    have hid : c.id = id := (h.wellFormed.compositions id c hcomposition).1
    refine checkMapping_eq_ok_iff.2 ⟨c, ?_, h.checked.mappings id c hcomposition m hm⟩
    rw [hid]
    exact hcomposition
  rw [Graph.check, hfunctions]
  exact hcompositions

/-- **Graphs that were built are intact**, whatever operations there were, in whatever order, and
whether or not each of them succeeded. -/
theorem Built.intact (h : g.Built) : g.Intact := by
  have hregular : g.Regular := h.regular
  have hnumbered : g.Numbered := hregular.numbered
  have hfunction : ∀ id d, (id, d) ∈ g.functions → d.id = id ∧ id.val < g.nextFunction :=
    fun id d hd => hregular.wellFormed.functions id d (hregular.function_of_mem hd)
  have hcomposition :
      ∀ id c, (id, c) ∈ g.compositions → c.id = id ∧ id.val < g.nextComposition ∧ c.Fits g :=
    fun id c hc => hregular.wellFormed.compositions id c (hregular.composition_of_mem hc)
  constructor
  case functionKeys => exact fun id d hd => (hfunction id d hd).1
  case compositionKeys => exact fun id c hc => (hcomposition id c hc).1
  case functionsOnce => exact hnumbered.nodup_functions
  case compositionsOnce => exact hnumbered.nodup_compositions
  case callsOnce => exact hnumbered.nodup_calls
  case functionsBelow => exact fun id d hd => (hfunction id d hd).2
  case compositionsBelow => exact fun id c hc => (hcomposition id c hc).2.1
  case callsBelow =>
    intro decl hdecl
    obtain ⟨id, c, hc, hmem⟩ := exists_composition_of_mem_calls hdecl
    exact (hcomposition id c hc).2.2.fresh decl hmem
  case callFunctions =>
    intro decl hdecl
    obtain ⟨id, c, hc, hmem⟩ := exists_composition_of_mem_calls hdecl
    exact (hcomposition id c hc).2.2.functions decl hmem
  case starts =>
    intro id c hc
    exact ⟨hregular.checked.starts id c (hregular.composition_of_mem hc),
      (hcomposition id c hc).2.2.starts⟩
  case successors => exact fun id c hc => (hcomposition id c hc).2.2.successors
  case represents => exact fun id c f hc => (hcomposition id c hc).2.2.represents f
  case bodies =>
    exact fun id d b hd => hregular.wellFormed.bodies id d b (hregular.function_of_mem hd)
  case mappings =>
    intro id c hc m hm
    have hadmits : g.Admits c m :=
      hregular.checked.mappings id c (hregular.composition_of_mem hc) m hm
    exact ⟨hadmits.source, hadmits.target, hadmits.priority⟩
  case check => exact hregular.check

end Graph

namespace Sample

/-- A function whose body calls another one, and keeps its receiver.  Four of the operations fail:
two parameters have one name, there is no function 7, no call 5 and no boundary in a composition for
itself. -/
def workshop : List Graph.Operation := [
  .addFunction "twice" [⟨"a", .any, .positional 0, none⟩, ⟨"a", .any, .positional 1, none⟩],
  .addFunction "outer" [⟨"a", .any, .positional 0, none⟩],
  .addNative "inner" [⟨"a", .any, .positional 0, none⟩] "inner",
  .setReceiver ⟨0⟩ ⟨"self", .any, .keyword "self", none⟩,
  .setSelfOutput ⟨0⟩ ⟨"self", .any⟩,
  .addComposition "main" none,
  .addComposition "body" (some ⟨0⟩),
  .addCall ⟨0⟩ ⟨7⟩,
  .addCall ⟨0⟩ ⟨0⟩,
  .addCall ⟨1⟩ ⟨1⟩,
  .setSuccessor ⟨0⟩ ⟨0⟩ (.next ⟨5⟩),
  .sequence ⟨0⟩ [⟨0⟩],
  .sequence ⟨1⟩ [⟨1⟩],
  .addMapping ⟨0⟩ ⟨.boundary (.param 0), none, .call ⟨0⟩ (.param 0), none, none⟩,
  .addMapping ⟨0⟩ ⟨.call ⟨0⟩ .selfOutput, none, .call ⟨0⟩ .receiver, none, some ⟨0⟩⟩,
  .addMapping ⟨1⟩ ⟨.boundary .receiver, none, .boundary .selfOutput, none, none⟩]

end Sample

namespace Graph

/-- The graph has two functions, two compositions and a call in each of them. -/
theorem Built.intact_sample :
    ((Sample.workshop.foldl Operation.apply (.empty "workshop")).Built ∧
      (Sample.workshop.foldl Operation.apply (.empty "workshop")).calls.map (·.id) = [⟨0⟩, ⟨1⟩]) ∧
    (Sample.workshop.foldl Operation.apply (.empty "workshop")).Intact := by
  have hbuilt : (Sample.workshop.foldl Operation.apply (.empty "workshop")).Built :=
    (Built.empty "workshop").foldl (by decide +kernel)
  exact ⟨⟨hbuilt, by decide +kernel⟩, Built.intact hbuilt⟩

/-- A self-output without a receiver does not pass the check. -/
example : ((Operation.setSelfOutput ⟨0⟩ ⟨"self", .any⟩).apply
    ((Operation.addFunction "f" []).apply (.empty "loose"))).check.toOption = none := by
      decide +kernel

end Graph

end CallFlow
