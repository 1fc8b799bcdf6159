import CallFlow.Proofs.Imports

/-!
# Graphs that are exported

Whatever requests are made of a store, its rows are in order and every text that can be read holds
the definition that the key of its row names (`TableStore.Tidy`).  So a graph that is loaded is
the one its parts are put together to (`Graph.Restored`), and so is every graph with the same
outline.

An export prints the members of all objects in order of their keys, those of constants among them.
So what is imported from it has the entries of all maps in this order
(`Command.comes_back_of_export`): it is the graph that was exported only if they were so before,
and what depends on their order changes otherwise.
-/

namespace CallFlow

open CallFlow.Json (Piece)

namespace TableStore

/-! ## Rows that hold what their keys name -/

/-- Rows stand in order of different keys, which those definitions have that can be read from
them. -/
structure TidyRows {α : Type} (read : Piece → Option α) (rank : α → Nat)
    (rows : List DefinitionRow) : Prop where
  increasing : rows.Pairwise fun r r' => r.key < r'.key
  named : ∀ r ∈ rows, ∀ a, readRow read r = .ok a → rank a = r.key

/-- The rows of every graph hold what their keys name. -/
structure Tidy (s : TableStore) : Prop where
  functions : ∀ id, TidyRows Description.ofPiece? (·.id.val) (rowsOf id s.functions)
  compositions : ∀ id, TidyRows Composition.ofPiece? (·.id.val) (rowsOf id s.compositions)

/-- A number that is read from the text of one is that number. -/
theorem eq_of_natBelow?_readInt {bound m n : Nat}
    (h : Piece.natBelow? bound (Json.readInt n) = some m) : m = n := by
  have hnat : ¬ (n : Int) < 0 := by omega
  rw [Json.readInt, Json.ofNumeral] at h
  simp only [hnat, decide_false, Int.natAbs_natCast, Decimal.ofDigits_digitsOf] at h
  split at h
  · rw [Piece.natBelow?] at h
    split at h
    · rw [← Option.some.inj h, Int.toNat_natCast]
    · cases h
  · simp only [Bool.and_false, Bool.false_eq_true, if_false] at h
    split at h <;> cases h

/-- The first field of a record that was written is read again, however deep the others nest. -/
theorem eq_of_field?_compact {k : String} {m n : Nat} {members : List (String × Json)} {w : Piece}
    {names : List String} {fs : List (String × Piece)} {bound : Nat}
    (hparse : Piece.parse? (Json.obj ((k, .ofNat n) :: members)).compact = some w)
    (hfs : w.record? names = some fs)
    (hfield : Piece.field? fs k (Piece.natBelow? bound) = some m) : m = n := by
  rcases Json.first_of_parse?_compact hparse with rfl | ⟨ms, rfl⟩
  · cases hfs
  · rw [Piece.record?] at hfs
    split at hfs
    · obtain rfl := Option.some.inj hfs
      rw [Piece.field?, Piece.byText, List.map_cons, Assoc.find?, if_pos rfl] at hfield
      exact eq_of_natBelow?_readInt hfield
    · cases hfs

/-- Whatever is read from the row of a function has its identity. -/
theorem id_of_readRow_functionRow {id : GraphId} {d d' : Description}
    (h : readRow Description.ofPiece? (functionRow id d) = .ok d') : d'.id = d.id := by
  rw [readRow_eq] at h
  obtain ⟨w, hparse, hread⟩ := Option.bind_eq_some_iff.1 (eq_some_of_readable h)
  obtain ⟨fs, hfs, hread⟩ := Option.bind_eq_some_iff.1 hread
  obtain ⟨f, hfield, hread⟩ := Option.bind_eq_some_iff.1 hread
  obtain ⟨w', hfind, hf⟩ := Option.bind_eq_some_iff.1 hfield
  obtain ⟨n, hn, rfl⟩ := Option.map_eq_some_iff.1 hf
  have heq : n = d.id.val :=
    eq_of_field?_compact hparse hfs (Option.bind_eq_some_iff.2 ⟨w', hfind, hn⟩)
  iterate 7 obtain ⟨_, -, hread⟩ := Option.bind_eq_some_iff.1 hread
  rw [← Option.some.inj hread, heq]

/-- Whatever is read from the row of a composition has its identity. -/
theorem id_of_readRow_compositionRow {id : GraphId} {c c' : Composition}
    (h : readRow Composition.ofPiece? (compositionRow id c) = .ok c') : c'.id = c.id := by
  rw [readRow_eq] at h
  obtain ⟨w, hparse, hread⟩ := Option.bind_eq_some_iff.1 (eq_some_of_readable h)
  obtain ⟨fs, hfs, hread⟩ := Option.bind_eq_some_iff.1 hread
  obtain ⟨i, hfield, hread⟩ := Option.bind_eq_some_iff.1 hread
  obtain ⟨w', hfind, hi⟩ := Option.bind_eq_some_iff.1 hfield
  obtain ⟨n, hn, rfl⟩ := Option.map_eq_some_iff.1 hi
  have heq : n = c.id.val :=
    eq_of_field?_compact hparse hfs (Option.bind_eq_some_iff.2 ⟨w', hfind, hn⟩)
  iterate 5 obtain ⟨_, -, hread⟩ := Option.bind_eq_some_iff.1 hread
  rw [← Option.some.inj hread, heq]

section Rows

variable {α : Type} {read : Piece → Option α} {rank : α → Nat} {rows : List DefinitionRow}
  {id : GraphId}

theorem TidyRows.nil : TidyRows read rank [] := ⟨.nil, fun _ hr => absurd hr (by simp)⟩

/-- New rows of a graph are tidy, and those of other graphs stay so. -/
theorem TidyRows.replace (toRow : α → DefinitionRow) (rank : α → Nat)
    (hgraph : ∀ a, (toRow a).graph = id)
    (hkey : ∀ a, (toRow a).key = rank a)
    (hread : ∀ a a', readRow read (toRow a) = .ok a' → rank a' = rank a)
    {definitions : List α} (hkeys : distinctKeys (definitions.map toRow) = true)
    (h : ∀ id', TidyRows read rank (rowsOf id' rows)) (id' : GraphId) :
    TidyRows read rank (rowsOf id' (rowsBut id rows ++ definitions.map toRow)) := by
  rw [rowsOf_replace toRow hgraph hkey]
  split
  · constructor
    · have hdistinct : (definitions.mergeSort fun a b => decide (rank a ≤ rank b)).Pairwise
          fun a b => rank a ≠ rank b := by
        have hnodup := (distinctKeys_map_iff toRow hgraph hkey).1 hkeys
        rw [← ((List.mergeSort_perm definitions _).map rank).nodup_iff] at hnodup
        exact List.pairwise_map.1 hnodup
      refine List.pairwise_map.2
        (((Assoc.pairwise_mergeSort_rank rank definitions).and hdistinct).imp ?_)
      intro a b ⟨hle, hne⟩
      rw [hkey, hkey]
      exact Nat.lt_of_le_of_ne hle hne
    · intro r hr a' ha'
      obtain ⟨a, -, rfl⟩ := List.mem_map.1 hr
      rw [hread a a' ha', hkey]
  · exact h id'

/-- Definitions that are read from tidy rows are in order. -/
theorem TidyRows.pairwise (h : TidyRows read rank rows) {definitions : List α}
    (hread : rows.mapM (readRow read) = .ok definitions) :
    definitions.Pairwise fun a b => rank a < rank b := by
  have hkeys : definitions.map rank = rows.map (·.key) := by
    have hnamed := h.named
    clear h
    induction rows generalizing definitions with
    | nil =>
        obtain rfl := Except.ok.inj hread
        rfl
    | cons r rows ih =>
        rw [List.mapM_cons] at hread
        obtain ⟨a, ha, hread⟩ := bind_eq_ok hread
        obtain ⟨rest, hrest, hread⟩ := bind_eq_ok hread
        obtain rfl := Except.ok.inj hread
        rw [List.map_cons, List.map_cons, hnamed r (List.mem_cons_self ..) a ha,
          ih hrest fun r' hr' => hnamed r' (List.mem_cons_of_mem _ hr')]
  have hpairwise := List.pairwise_map.2 h.increasing
  rw [← hkeys] at hpairwise
  exact List.pairwise_map.1 hpairwise

end Rows

/-! ## Requests leave tidy tables -/

variable {s : TableStore}

theorem tidy_empty : (GraphStore.empty : TableStore).Tidy := by
  have hnone : ∀ id, rowsOf id [] = [] := fun id => List.mergeSort_nil
  constructor
  · intro id
    show TidyRows _ _ (rowsOf id [])
    rw [hnone]
    exact .nil
  · intro id
    show TidyRows _ _ (rowsOf id [])
    rw [hnone]
    exact .nil

theorem Tidy.create (h : s.Tidy) (name : String) : (GraphStore.create name s).2.Tidy :=
  ⟨h.functions, h.compositions⟩

theorem Tidy.save (h : s.Tidy) (id : GraphId) (g : Graph) : (GraphStore.save id g s).2.Tidy := by
  simp only [GraphStore.save]
  split
  · exact h
  · split
    · rename_i hkeys
      obtain ⟨hfunctions, hcompositions⟩ := Bool.and_eq_true_iff.1 hkeys
      exact ⟨.replace (functionRow id) _ (fun _ => rfl) (fun _ => rfl)
          (fun _ _ hread => congrArg FunctionId.val (id_of_readRow_functionRow hread))
          hfunctions h.functions,
        .replace (compositionRow id) _ (fun _ => rfl) (fun _ => rfl)
          (fun _ _ hread => congrArg CompositionId.val (id_of_readRow_compositionRow hread))
          hcompositions
          h.compositions⟩
    · exact h

theorem Tidy.delete (h : s.Tidy) (id : GraphId) : (GraphStore.delete id s).2.Tidy := by
  simp only [GraphStore.delete]
  split
  · exact h
  · constructor
    · intro id'
      show TidyRows _ _ (rowsOf id' (rowsBut id s.functions))
      rw [rowsOf_rowsBut]
      split
      · exact .nil
      · exact h.functions id'
    · intro id'
      show TidyRows _ _ (rowsOf id' (rowsBut id s.compositions))
      rw [rowsOf_rowsBut]
      split
      · exact .nil
      · exact h.compositions id'

/-- Every request leaves tidy tables. -/
theorem Tidy.answer (h : s.Tidy) (r : GraphStore.Request) : (GraphStore.answer s r).2.Tidy := by
  cases r with
  | create name => exact h.create name
  | save id g => exact h.save id g
  | delete id => exact h.delete id
  | importGraph g => exact (h.create g.name).save _ g
  | load _ | list | function _ _ | composition _ _ | functions _ | find _ => exact h

theorem Tidy.run (h : s.Tidy) (requests : List GraphStore.Request) :
    (GraphStore.run requests s).2.Tidy := by
  induction requests generalizing s with
  | nil => exact h
  | cons r rest ih => exact ih (h.answer r)

end TableStore

/-! ## Graphs that were loaded -/

/-- The graph is the one that its parts are put together to. -/
structure Graph.Restored (g : Graph) : Prop where
  keyed : g.Keyed
  ordered : g.Ordered
  linked : g.Linked
  counted : g.recounted = g
  check : g.check = .ok ()

namespace Graph

variable {g g' : Graph}

theorem Ordered.ofParts (name : String) (functions : List Description)
    (compositions : List Composition) :
    (Graph.ofParts name functions compositions).Ordered :=
  ⟨Assoc.pairwise_rank_sortedOfList _ FunctionId.val_injective (fun _ _ => rfl) _,
    Assoc.pairwise_rank_sortedOfList _ CompositionId.val_injective (fun _ _ => rfl) _⟩

/-- What is put together from parts in order is put together from its own parts. -/
theorem restored_of_assemble {p : GraphParts} (hsorted : p.Sorted) (h : p.assemble = .ok g) :
    g.Restored ∧ g.parts = p := by
  obtain ⟨hfault, rfl, hcheck⟩ := GraphParts.assemble_eq_ok h
  have hparts := hsorted.parts_ofParts
  have hkeyed := Keyed.ofParts p.name p.functions p.compositions
  have hordered := Ordered.ofParts p.name p.functions p.compositions
  refine ⟨⟨hkeyed, hordered, hkeyed.fault?_parts_eq_none_iff.1 (by rwa [hparts]), ?_, hcheck⟩,
    hparts⟩
  rw [← hkeyed.ofParts_parts hordered]
  exact congrArg (fun p : GraphParts => Graph.ofParts p.name p.functions p.compositions) hparts

theorem Restored.assemble (h : g.Restored) : g.parts.assemble = .ok g := by
  rw [(h.keyed.assembles h.ordered h.check).1 h.linked, h.counted]

/-! ### Constants do not matter -/

theorem keyed_outline_iff : g.outline.Keyed ↔ g.Keyed := by
  have hiff : ∀ {κ α : Type} (f : α → α) (key : α → κ) (_ : ∀ a, key (f a) = key a) (m : Assoc κ α),
      (∀ k a, (k, a) ∈ Assoc.mapValues f m → key a = k) ↔ ∀ k a, (k, a) ∈ m → key a = k := by
    intro κ α f key hkey m
    rw [Assoc.mapValues_eq_map]
    constructor
    · intro h k a ha
      rw [← hkey]
      exact h k (f a) (List.mem_map_of_mem (f := fun e => (e.1, f e.2)) ha)
    · intro h k a ha
      obtain ⟨e, he, heq⟩ := List.mem_map.1 ha
      obtain ⟨rfl, rfl⟩ := Prod.mk.inj heq
      rw [hkey]
      exact h _ _ he
  have hfunctions := hiff Description.outline (·.id) (fun _ => rfl) g.functions
  have hcompositions := hiff Composition.outline (·.id) (fun _ => rfl) g.compositions
  exact ⟨fun h => ⟨hfunctions.1 h.functions, hcompositions.1 h.compositions⟩,
    fun h => ⟨hfunctions.2 h.functions, hcompositions.2 h.compositions⟩⟩

theorem ordered_outline_iff : g.outline.Ordered ↔ g.Ordered := by
  have hfunctions : Assoc.keys g.outline.functions = Assoc.keys g.functions :=
    Assoc.keys_mapValues ..
  have hcompositions : Assoc.keys g.outline.compositions = Assoc.keys g.compositions :=
    Assoc.keys_mapValues ..
  constructor
  · rintro ⟨h, h'⟩
    exact ⟨hfunctions ▸ h, hcompositions ▸ h'⟩
  · rintro ⟨h, h'⟩
    exact ⟨hfunctions.symm ▸ h, hcompositions.symm ▸ h'⟩

theorem values_outline (g : Graph) :
    Assoc.values g.outline.functions = (Assoc.values g.functions).map Description.outline ∧
      Assoc.values g.outline.compositions =
        (Assoc.values g.compositions).map Composition.outline := by
  simp only [outline, Assoc.mapValues_eq_map, Assoc.values, List.map_map]
  exact ⟨rfl, rfl⟩

theorem linked_outline_iff : g.outline.Linked ↔ g.Linked := by
  have hbody : ∀ f c, (∃ d, g.outline.function f = .ok d ∧ d.body = some c) ↔
      ∃ d, g.function f = .ok d ∧ d.body = some c := by
    intro f c
    rw [function_outline]
    cases g.function f with
    | error fault => simp [Except.map]
    | ok d => simp [Except.map, Description.outline]
  simp only [Linked, (values_outline g).2, List.forall_mem_map, hbody]
  rfl

theorem recounted_outline : g.outline.recounted = g.recounted.outline := by
  have hcalls : g.outline.calls = g.calls := by
    rw [calls, calls, (values_outline g).2, List.flatMap_map]
    rfl
  rw [recounted, hcalls, (values_outline g).1, (values_outline g).2, List.map_map, List.map_map]
  rfl

/-- Whether a graph is restored does not depend on what constants are. -/
theorem Restored.of_outline (h : g.Restored) (houtline : g'.outline = g.outline) : g'.Restored where
  keyed := keyed_outline_iff.1 (houtline ▸ keyed_outline_iff.2 h.keyed)
  ordered := ordered_outline_iff.1 (houtline ▸ ordered_outline_iff.2 h.ordered)
  linked := linked_outline_iff.1 (houtline ▸ linked_outline_iff.2 h.linked)
  counted := by
    have hcounted : g'.recounted.outline = g'.outline := by
      rw [← recounted_outline, houtline, recounted_outline, h.counted]
    obtain ⟨-, -, -, hnextFunction, hnextComposition, hnextCall⟩ := Graph.mk.inj hcounted
    show (⟨g'.name, g'.functions, g'.compositions, g'.recounted.nextFunction,
      g'.recounted.nextComposition,
      g'.recounted.nextCall⟩ : Graph) = g'
    rw [show g'.recounted.nextFunction = g'.nextFunction from hnextFunction,
      show g'.recounted.nextComposition = g'.nextComposition from hnextComposition,
      show g'.recounted.nextCall = g'.nextCall from hnextCall]
  check := by rw [← check_outline, houtline, check_outline, h.check]

/-- **What is loaded of a restored graph that was saved** is that graph, with the constants that are
read from its texts. -/
theorem Restored.reloaded_eq (h : g.Restored) :
    g.reloaded = readable (g.mapConstants? Constant.reread?) := by
  rw [reloaded, (h.keyed.sorted_parts h.ordered).ordered, mapConstants?_parts]
  cases hg : g.mapConstants? Constant.reread? with
  | none => rfl
  | some g' => exact (h.of_outline (outline_of_mapConstants? hg)).assemble

end Graph

namespace TableStore

variable {s : TableStore} {id : GraphId} {g : Graph}

/-- Definitions that are read from rows fit. -/
theorem fits_of_mapM_readRow {α : Type} {toJson : α → Json} {read : Piece → Option α}
    {Fits : α → Prop}
    (h : Decodes toJson read Fits) {rows : List DefinitionRow} {definitions : List α}
    (hread : rows.mapM (readRow read) = .ok definitions) : ∀ a ∈ definitions, Fits a := by
  have hrows : rows.mapM (fun r => (Piece.parse? r.text).bind read) = some definitions := by
    refine eq_some_of_readable ?_
    rw [← mapM_readable, ← hread]
    exact congrArg rows.mapM (funext fun r => (readRow_eq read r).symm)
  intro a ha
  obtain ⟨r, -, hr⟩ := exists_of_mem_mapM hrows a ha
  obtain ⟨w, -, hw⟩ := Option.bind_eq_some_iff.1 hr
  exact (h w a hw).1

/-- **A graph that is loaded** from tidy tables is restored, all its definitions fit, and the maps
among its constants have each key once. -/
theorem Tidy.restored_of_load (h : s.Tidy) (hload : GraphStore.load id s = .ok g) :
    g.Restored ∧ (∀ d ∈ Assoc.values g.functions, d.Sized) ∧
      (∀ c ∈ Assoc.values g.compositions, c.Sized) ∧
      ∀ v ∈ g.constants, v.Distinct := by
  obtain ⟨r, -, hload⟩ := bind_eq_ok hload
  obtain ⟨functions, hfunctions, hload⟩ := bind_eq_ok hload
  obtain ⟨compositions, hcompositions, hload⟩ := bind_eq_ok hload
  have hsorted : GraphParts.Sorted ⟨r.name, functions, compositions⟩ :=
    ⟨(h.functions id).pairwise hfunctions, (h.compositions id).pairwise hcompositions⟩
  obtain ⟨hrestored, hparts⟩ := Graph.restored_of_assemble hsorted hload
  have hfunctions := fits_of_mapM_readRow decodes_description hfunctions
  have hcompositions := fits_of_mapM_readRow decodes_composition hcompositions
  have hconstants : ∀ v ∈ g.constants, v.Distinct := by
    rw [Graph.constants, hparts]
    refine List.forall_mem_append.2 ⟨fun v hv => ?_, fun v hv => ?_⟩
    · obtain ⟨d, hd, hv⟩ := List.mem_flatMap.1 hv
      exact (hfunctions d hd).2 v hv
    · obtain ⟨c, hc, hv⟩ := List.mem_flatMap.1 hv
      exact (hcompositions c hc).2 v hv
  obtain ⟨-, hvalues, hvalues'⟩ := GraphParts.mk.inj hparts
  rw [hvalues, hvalues']
  exact ⟨hrestored, fun d hd => (hfunctions d hd).1, fun c hc => (hcompositions c hc).1, hconstants⟩

end TableStore

/-! ## Exports -/

/-- The numbers of the graph fit, and it does not nest too deep for a text. -/
structure Graph.Exportable (g : Graph) : Prop where
  nextFunction : g.nextFunction < UInt32.size
  nextComposition : g.nextComposition < UInt32.size
  nextCall : g.nextCall < UInt32.size
  depth : g.toJson.depth ≤ Json.nestingLimit

theorem Graph.Restored.unambiguous {g : Graph} (h : g.Restored) : g.Unambiguous := by
  have hsorted := h.keyed.sorted_parts h.ordered
  have hne : ∀ {m n : Nat}, m < n → m ≠ n := Nat.ne_of_lt
  exact ⟨List.pairwise_map.2
    (hsorted.functions.imp fun hless heq => hne hless (congrArg FunctionId.val heq)),
    List.pairwise_map.2
      (hsorted.compositions.imp fun hless heq => hne hless (congrArg CompositionId.val heq))⟩

/-- A graph whose definitions can be told apart is imported, whatever the tables hold. -/
theorem TableStore.importGraph_of_unambiguous {g : Graph} (hg : g.Unambiguous) (s : TableStore) :
    ∃ s', GraphStore.importGraph g s = (.ok ⟨s.lastId + 1⟩, s') := by
  rcases save_cases ⟨s.lastId + 1⟩ g (GraphStore.create g.name s).2 with ⟨-, hmissing⟩ |
    ⟨-, hnot⟩ | ⟨hsave, -, -⟩
  · refine absurd ?_ hmissing
    show _ ∈ ((s.graphs ++ [(⟨⟨s.lastId + 1⟩, g.name⟩ : GraphRow)]).map _).map _
    simp
  · exact absurd hg hnot
  · refine ⟨(GraphStore.save ⟨s.lastId + 1⟩ g (GraphStore.create g.name s).2).2, ?_⟩
    show (Except.map _ (GraphStore.save ⟨s.lastId + 1⟩ g (GraphStore.create g.name s).2).1, _) = _
    rw [hsave]
    rfl

theorem Graph.Restored.sized {g : Graph} (h : g.Restored)
    (hfunctions : ∀ d ∈ Assoc.values g.functions, d.Sized)
    (hcompositions : ∀ c ∈ Assoc.values g.compositions, c.Sized) (hg : g.Exportable) : g.Sized where
  functionOrder := h.ordered.functions
  compositionOrder := h.ordered.compositions
  functionKeys := by
    rw [h.keyed.keys_functions]
    exact List.forall_mem_map.2 fun d hd => (hfunctions d hd).id
  compositionKeys := by
    rw [h.keyed.keys_compositions]
    exact List.forall_mem_map.2 fun c hc => (hcompositions c hc).id
  functions := hfunctions
  compositions := hcompositions
  nextFunction := hg.nextFunction
  nextComposition := hg.nextComposition
  nextCall := hg.nextCall

namespace Command

theorem exists_of_loadGraph {s : TableStore} {graph : String} {g : Graph}
    (h : loadGraph s graph = .ok g) :
    ∃ id, GraphStore.load id s = .ok g := by
  rw [loadGraph] at h
  split at h
  · cases h
  · rename_i id hid
    split at h
    · rename_i g' hload
      exact ⟨id, by rw [hload, Except.ok.inj h]⟩
    · cases h

/-- What a run prints depends on the graph that is loaded and not on where it comes from. -/
theorem runStored_congr {s s' : TableStore} {graph graph' : String} {g : Graph}
    (h : loadGraph s graph = .ok g)
    (h' : loadGraph s' graph' = .ok g) (options : RunOptions) (inputs : List (String × Value)) :
    (runStored { options with graph := graph' } inputs s').1 =
      (runStored { options with graph } inputs s).1 := by
  simp only [runStored, h, h']
  have htarget : targetOf g { options with graph := graph' } = targetOf g { options with graph } :=
    rfl
  simp only [bind, Except.bind, htarget]
  cases targetOf g { options with graph } <;> rfl

/-- A text in which there is no graph is not imported. -/
theorem exit_of_unreadable {around : Surroundings} {database file text : String}
    {name : Option String}
    (htext : around.readFile file = .ok text) (hnone : Graph.ofText? text = none) :
    (run around ⟨database, .importFile file name⟩).1.exit = 2 := by
  show (runImport around database file name).1.exit = 2
  simp only [runImport, htext, graphOfText, hnone]
  rfl

/-- What is loaded after an import of the text that an export printed, from which a graph could be
read. -/
theorem import_of_export {g g' : Graph} (hrestored : g.Restored) (hsized : g.Sized)
    (hdepth : g.toJson.depth ≤ Json.nestingLimit)
    (hread : g.mapConstants? Constant.resorted? = some g')
    {around : Surroundings} {database file : String} {opened : Opened}
    (htext : around.readFile file = .ok (printed g.toJson))
    (hopened : around.openStore database = .ok opened)
    (hwritable : opened.writable = true) :
    ∃ s', run around ⟨database, .importFile file none⟩ =
        (.success (printed (.obj [("id", .int (opened.store.lastId + 1)), ("name", .str g.name)])),
          some s') ∧
      ∀ graph, whole? graph = some (opened.store.lastId + 1) →
        loadGraph s' graph =
          (readable (g'.mapConstants? Constant.reread?)).mapError (notLoaded graph) := by
  have houtline := Graph.outline_of_mapConstants? hread
  have hrestored' := hrestored.of_outline houtline
  have hname : g'.name = g.name := (Graph.mk.inj houtline).1
  have hg' : Graph.ofText? (printed g.toJson) = some g' := by
    rw [Graph.ofText?_printed hsized hdepth, hread]
  obtain ⟨s', himport⟩ := TableStore.importGraph_of_unambiguous hrestored'.unambiguous opened.store
  refine ⟨s', ?_, fun graph hgraph => ?_⟩
  · rw [run_import htext hg' hrestored'.check hopened]
    show ((storeGraph g' opened).1, some (storeGraph g' opened).2) = _
    rw [storeGraph, if_pos hwritable, himport, hname]
  · rw [loadGraph_of_whole? hgraph,
      TableStore.load_importGraph (Graph.portable_of_ofText? hg') himport,
      hrestored'.reloaded_eq]

/-- **What an import of an export is worth**, for every state to which requests lead.  The text that
is printed is imported if a constant is read from the text of each one, and what is loaded then are
the constants that are read from the texts of these.  If all floats are read as they are, the graph
that comes back is the one that was exported with the entries of all maps in order of their keys.
So it is the same graph exactly if they were in this order before, and then every run prints the
same. -/
theorem comes_back_of_export {requests : List GraphStore.Request} {s : TableStore}
    (hs : (GraphStore.run requests (GraphStore.empty : TableStore)).2 = s)
    {graph : String} {g : Graph}
    (hload : loadGraph s graph = .ok g) (hg : g.Exportable) :
    runExport graph s = (.success (printed g.toJson), s) ∧
    ∀ (around : Surroundings) (database file : String) (opened : Opened),
      around.readFile file = .ok (printed g.toJson) → around.openStore database = .ok opened →
        opened.writable = true →
      (g.mapConstants? Constant.resorted? = none →
        (run around ⟨database, .importFile file none⟩).1.exit = 2) ∧
      (∀ g', g.mapConstants? Constant.resorted? = some g' → ∃ s',
        run around ⟨database, .importFile file none⟩ =
          (.success (printed (.obj [("id", .int (opened.store.lastId + 1)),
            ("name", .str g.name)])), some s') ∧
        ∀ graph', whole? graph' = some (opened.store.lastId + 1) →
          loadGraph s' graph' =
            (readable (g'.mapConstants? Constant.reread?)).mapError (notLoaded graph')) ∧
      ((∀ v ∈ g.constants, v.Exact) → ∃ s',
        run around ⟨database, .importFile file none⟩ =
          (.success (printed (.obj [("id", .int (opened.store.lastId + 1)),
            ("name", .str g.name)])), some s') ∧
        ∀ graph', whole? graph' = some (opened.store.lastId + 1) →
          loadGraph s' graph' = .ok (g.mapConstants Constant.sorted) ∧
          (loadGraph s' graph' = .ok g ↔ ∀ v ∈ g.constants, v.sorted = v) ∧
          (loadGraph s' graph' = .ok g → ∀ (options : RunOptions) (inputs : List (String × Value)),
            (runStored { options with graph := graph' } inputs s').1 =
              (runStored { options with graph } inputs s).1)) := by
  have htidy : s.Tidy := hs ▸ TableStore.tidy_empty.run requests
  obtain ⟨id, hid⟩ := exists_of_loadGraph hload
  obtain ⟨hrestored, hfunctions, hcompositions, hdistinct⟩ := htidy.restored_of_load hid
  have hsized := hrestored.sized hfunctions hcompositions hg
  refine ⟨by rw [runExport, hload], fun around database file opened htext hopened hwritable => ?_⟩
  refine ⟨fun hnone => exit_of_unreadable htext
    (by rw [Graph.ofText?_printed hsized hg.depth, hnone]),
    fun g' hread => import_of_export hrestored hsized hg.depth hread htext hopened hwritable,
    fun hexact => ?_⟩
  have hread : g.mapConstants? Constant.resorted? = some (g.mapConstants Constant.sorted) :=
    Graph.mapConstants?_eq_some fun v hv =>
      Constant.resorted?_eq_sorted (hdistinct v hv) (hexact v hv)
  have hagain : (g.mapConstants Constant.sorted).mapConstants? Constant.reread? =
      some (g.mapConstants Constant.sorted) := by
    rw [Graph.mapConstants?_eq_self_iff, Graph.constants_mapConstants]
    exact List.forall_mem_map.2 fun v hv =>
      Constant.reread?_eq_self _ (hdistinct v hv).sorted (hexact v hv).sorted
  obtain ⟨s', hrun, hloads⟩ :=
    import_of_export hrestored hsized hg.depth hread htext hopened hwritable
  refine ⟨s', hrun, fun graph' hgraph' => ?_⟩
  have hload' : loadGraph s' graph' = .ok (g.mapConstants Constant.sorted) := by
    rw [hloads graph' hgraph', hagain]
    rfl
  refine ⟨hload', ?_, fun hsame options inputs => runStored_congr hload hsame options inputs⟩
  rw [hload', Except.ok.injEq, Graph.mapConstants_eq_self_iff]

end Command

namespace Sample

/-- A function lists the keys of its argument, which by default is a map whose entries are not in
order. -/
def jumbled : Graph :=
  .ofParts "jumbled"
    [{ Description.plain ⟨0⟩ "f"
      [⟨"m", .map, .positional 0, some (.map [("b", .int 2), ("a", .int 1)])⟩] with
        implementation := some "list" }] []

/-- Runs the function. -/
def runJumbled : RunOptions := ⟨"1", some "f", none, "", false, false, true⟩

/-- Every file holds the export of the graph, and every database is empty. -/
def jumbledFile : Surroundings :=
  ⟨fun _ => .ok (Command.printed jumbled.toJson), fun _ => .ok ⟨{}, true⟩⟩

theorem constants_jumbled : jumbled.constants = [.map [("b", .int 2), ("a", .int 1)]] := rfl

theorem restored_jumbled : jumbled.Restored where
  keyed := .ofParts ..
  ordered := .ofParts ..
  linked := fun c hc => absurd hc (by simp [show Assoc.values jumbled.compositions = [] from rfl])
  counted := rfl
  check := rfl

theorem exportable_jumbled : jumbled.Exportable :=
  ⟨by decide, by decide, by decide, by decide +kernel⟩

theorem sized_jumbled : jumbled.Sized := by
  refine restored_jumbled.sized (fun d hd => ?_) (fun c hc => absurd hc List.not_mem_nil)
    exportable_jumbled
  obtain rfl := List.mem_singleton.1 hd
  exact ⟨by decide, by simp [Description.plain]⟩

end Sample

/-- The graph is loaded as it was imported.  When an export of it was imported, the entries are in
another order and the function prints other keys first. -/
theorem Command.comes_back_of_export_sample :
    ∃ s s', (GraphStore.run [.importGraph Sample.jumbled] (GraphStore.empty : TableStore)).2 = s ∧
      loadGraph s "1" = .ok Sample.jumbled ∧
      runExport "1" s = (.success (printed Sample.jumbled.toJson), s) ∧
      run Sample.jumbledFile ⟨"g.db", .importFile "g.json" none⟩ =
        (.success (printed (.obj [("id", .int 1), ("name", .str "jumbled")])), some s') ∧
      loadGraph s' "1" = .ok (Sample.jumbled.mapConstants Constant.sorted) ∧
      loadGraph s' "1" ≠ .ok Sample.jumbled ∧
      (runStored Sample.runJumbled [] s').1 ≠ (runStored Sample.runJumbled [] s).1 := by
  have hdepth := Sample.exportable_jumbled.depth
  have hexact : ∀ v ∈ Sample.jumbled.constants, v.Exact := by
    rw [Sample.constants_jumbled]
    exact List.forall_mem_singleton.2 ⟨trivial, trivial, trivial, trivial⟩
  have hdistinct : ∀ v ∈ Sample.jumbled.constants, v.Distinct := by
    rw [Sample.constants_jumbled]
    exact List.forall_mem_singleton.2 ⟨show ["b", "a"].Nodup by decide, trivial, trivial, trivial⟩
  obtain ⟨s, himport⟩ := TableStore.importGraph_of_unambiguous Sample.restored_jumbled.unambiguous
    (GraphStore.empty : TableStore)
  change _ = ((Except.ok ⟨1⟩, s) : Except StoreFault GraphId × TableStore) at himport
  have hload : loadGraph s "1" = .ok Sample.jumbled := by
    rw [loadGraph_of_whole? (n := 1) (by decide),
      TableStore.load_importGraph (Sample.sized_jumbled.portable hdepth) himport,
      Sample.restored_jumbled.reloaded_eq,
      Graph.mapConstants?_eq_self_iff.2 fun v hv =>
        Constant.reread?_eq_self v (hdistinct v hv) (hexact v hv)]
    rfl
  have hs : (GraphStore.run [.importGraph Sample.jumbled] (GraphStore.empty : TableStore)).2 = s :=
    congrArg Prod.snd himport
  obtain ⟨hexport, hreturns⟩ := comes_back_of_export hs hload Sample.exportable_jumbled
  obtain ⟨-, -, hsorted⟩ := hreturns Sample.jumbledFile "g.db" "g.json" ⟨{}, true⟩ rfl rfl rfl
  obtain ⟨s', hrun, hloads⟩ := hsorted hexact
  obtain ⟨hload', hsame, -⟩ := hloads "1" (by decide)
  refine ⟨s, s', hs, hload, hexport, hrun, hload', fun hload => ?_, ?_⟩
  · have hjumbled :
        Constant.map [("a", .int 1), ("b", .int 2)] = .map [("b", .int 2), ("a", .int 1)] := by
      have hsorted := hsame.1 hload
      rw [Sample.constants_jumbled, List.forall_mem_singleton] at hsorted
      exact hsorted
    exact absurd (Prod.mk.inj (List.cons.inj (Constant.map.inj hjumbled)).1).1 (by decide)
  · have hrunOf :
        ∀ {g s}, loadGraph s "1" = .ok g → targetOf g Sample.runJumbled = .ok (.function ⟨0⟩) →
        (runStored Sample.runJumbled [] s).1 =
          executeGraph g Sample.runJumbled (.function ⟨0⟩) [] := by
      intro g s hg htarget
      simp only [runStored, Sample.runJumbled] at htarget ⊢
      simp only [hg, bind, Except.bind, htarget]
      rfl
    rw [hrunOf hload' rfl, hrunOf hload rfl]
    decide +kernel

end CallFlow
