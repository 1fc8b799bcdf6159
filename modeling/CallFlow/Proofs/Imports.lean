import CallFlow.Command.Run
import CallFlow.Proofs.FailedSaves
import CallFlow.Proofs.Reload
import CallFlow.Proofs.Sizes

/-!
# Graphs that are imported

A graph that was saved is loaded from the texts of its definitions: the constants are what is read
from them, and the definitions stand under the identities that are inside of them
(`Graph.reloaded`).

So an import that succeeds is not yet one that keeps the graph.  What is loaded is what was in the
file exactly if every definition stands under its own identity, every composition is the body of
the function it represents, and every constant is read again as it is
(`Command.comes_back_of_import`).  A check asks for none of these.
-/

namespace CallFlow

/-- What was read of a stored text, if it was readable. -/
def readable {α : Type} : Option α → Except StoreFault α
  | some a => .ok a
  | none => .error .unreadable

/-- The parts in order of the identities inside them. -/
def GraphParts.ordered (p : GraphParts) : GraphParts :=
  { p with
    functions := p.functions.mergeSort fun d d' => decide (d.id.val ≤ d'.id.val)
    compositions := p.compositions.mergeSort fun c c' => decide (c.id.val ≤ c'.id.val) }

/-- What is loaded of a graph that was saved. -/
def Graph.reloaded (g : Graph) : Except StoreFault Graph := do
  (← readable (g.parts.ordered.mapConstants? Constant.reread?)).assemble

/-- The texts of all definitions can be read. -/
structure Graph.Portable (g : Graph) : Prop where
  functions : ∀ d ∈ Assoc.values g.functions, d.Sized ∧ d.toJson.depth ≤ Json.nestingLimit
  compositions : ∀ c ∈ Assoc.values g.compositions, c.Sized ∧ c.toJson.depth ≤ Json.nestingLimit

theorem Graph.Sized.portable {g : Graph} (hg : g.Sized)
    (hdepth : g.toJson.depth ≤ Json.nestingLimit) : g.Portable :=
  ⟨fun d hd => ⟨hg.functions d hd, Nat.le_trans (depth_le_of_mem_functions hd) hdepth⟩,
    fun c hc => ⟨hg.compositions c hc, Nat.le_trans (depth_le_of_mem_compositions hc) hdepth⟩⟩

/-- A graph that was read can be written and read again. -/
theorem Graph.portable_of_ofText? {text : String} {g : Graph}
    (h : Graph.ofText? text = some g) : g.Portable :=
  (Graph.sized_of_ofText? h).1.portable (Graph.sized_of_ofText? h).2

/-! ## Loading what was saved -/

namespace TableStore

theorem readRow_eq {α : Type} (read : Json.Piece → Option α) (r : DefinitionRow) :
    readRow read r = readable ((Json.Piece.parse? r.text).bind read) := by
  rw [readRow]
  cases (Json.Piece.parse? r.text).bind read <;> rfl

theorem mapM_readable {α β : Type} (f : α → Option β) (as : List α) :
    (as.mapM fun a => readable (f a)) = readable (as.mapM f) := by
  induction as with
  | nil => rfl
  | cons a as ih =>
      rw [List.mapM_cons, List.mapM_cons, ih]
      cases f a with
      | none => rfl
      | some b => cases as.mapM f <;> rfl

/-- New rows of definitions are read as the definitions in order, with the constants that are read
from their texts. -/
theorem mapM_readRow_replace {α : Type} (toRow : α → DefinitionRow) (rank : α → Nat)
    {toJson : α → Json}
    {read : Json.Piece → Option α} {Fits : α → Prop} {again : α → Option α}
    (hread : Encodes Json.Piece.ofPrinted toJson read Fits again) {id : GraphId}
    (hgraph : ∀ a, (toRow a).graph = id)
    (hkey : ∀ a, (toRow a).key = rank a) (htext : ∀ a, (toRow a).text = (toJson a).compact)
    (rows : List DefinitionRow) {definitions : List α}
    (h : ∀ a ∈ definitions, Fits a ∧ (toJson a).depth ≤ Json.nestingLimit) :
    (rowsOf id (rowsBut id rows ++ definitions.map toRow)).mapM (readRow read) =
      readable ((definitions.mergeSort fun a b => decide (rank a ≤ rank b)).mapM again) := by
  rw [rowsOf_replace toRow hgraph hkey, if_pos rfl, ← mapM_readable, List.mapM_map]
  have hsorted : ∀ a ∈ definitions.mergeSort fun a b => decide (rank a ≤ rank b),
      readRow read (toRow a) = readable (again a) := by
    intro a ha
    obtain ⟨hfits, hdepth⟩ := h a ((List.mergeSort_perm ..).mem_iff.1 ha)
    rw [readRow_eq, htext, Json.parse?_compact hdepth, Option.bind_some, hread.read a hfits]
  generalize definitions.mergeSort (fun a b => decide (rank a ≤ rank b)) = sorted at hsorted
  induction sorted with
  | nil => rfl
  | cons a sorted ih =>
      rw [List.mapM_cons, List.mapM_cons, ih fun b hb => hsorted b (List.mem_cons_of_mem _ hb),
        Function.comp_apply,
        hsorted a (List.mem_cons_self ..)]

/-- A graph that has a row has it under its new name. -/
theorem row_rename {s : TableStore} {id : GraphId} {r : GraphRow} (h : s.row id = .ok r)
    (name : String)
    (functions compositions : List DefinitionRow) :
    row { s with graphs := rename id name s.graphs, functions, compositions } id =
      .ok ⟨id, name⟩ := by
  have hfind : s.graphs.find? (fun r => r.id == id) = some r := by
    rw [row] at h
    split at h
    · rename_i hfind
      rw [hfind, Except.ok.inj h]
    · cases h
  have hid : r.id = id := (mem_of_row_eq_ok h).2
  have hcomp :
      (fun r : GraphRow => r.id == id) ∘ (fun r => if r.id = id then { r with name } else r) =
      fun r => r.id == id := by
    funext r
    by_cases hr : r.id = id <;> simp [hr]
  rw [row, rename, List.find?_map, hcomp, hfind]
  simp [hid]

/-- **What is loaded of a graph that was saved.** -/
theorem load_save {g : Graph} (hg : g.Portable) {id : GraphId} {s : TableStore}
    (h : (GraphStore.save id g s).1 = .ok ()) :
    GraphStore.load id (GraphStore.save id g s).2 = g.reloaded := by
  simp only [GraphStore.save] at h ⊢
  cases hrow : s.row id with
  | error fault =>
      rw [hrow] at h
      cases h
  | ok r =>
      rw [hrow] at h
      simp only at h ⊢
      split at h
      · rename_i hkeys
        rw [if_pos hkeys]
        have hname := row_rename hrow g.parts.name
          (rowsBut id s.functions ++ g.parts.functions.map (functionRow id))
          (rowsBut id s.compositions ++ g.parts.compositions.map (compositionRow id))
        have hfunctions :=
          mapM_readRow_replace (functionRow id) (fun d => d.id.val) Json.Channel.printed.description
          (fun _ => rfl) (fun _ => rfl) (fun _ => rfl) s.functions
          (show ∀ d ∈ g.parts.functions, _ from hg.functions)
        have hcompositions := mapM_readRow_replace (compositionRow id) (fun c => c.id.val)
          Json.Channel.printed.composition (fun _ => rfl) (fun _ => rfl) (fun _ => rfl)
          s.compositions
          (show ∀ c ∈ g.parts.compositions, _ from hg.compositions)
        simp only [GraphStore.load, readFunctions, readCompositions, hname, hfunctions,
          hcompositions]
        rw [Graph.reloaded, GraphParts.mapConstants?, GraphParts.ordered]
        dsimp only
        generalize g.parts.functions.mergeSort _ = functions
        generalize g.parts.compositions.mergeSort _ = compositions
        cases functions.mapM (Description.mapConstants? Constant.reread?) with
        | none => rfl
        | some functions =>
            cases compositions.mapM (Composition.mapConstants? Constant.reread?) <;> rfl
      · cases h

/-- **What is loaded of a graph that was imported.** -/
theorem load_importGraph {g : Graph} (hg : g.Portable) {id : GraphId} {s s' : TableStore}
    (h : GraphStore.importGraph g s = (.ok id, s')) : GraphStore.load id s' = g.reloaded := by
  obtain ⟨hid, rfl⟩ := Prod.mk.inj h
  obtain ⟨⟨⟩, hsave, rfl⟩ := map_eq_ok hid
  exact load_save hg hsave

end TableStore

/-! ## Graphs that are loaded as they were -/

/-- The definitions are in order of the identities inside of them. -/
structure GraphParts.Sorted (p : GraphParts) : Prop where
  functions : p.functions.Pairwise fun d d' => d.id.val < d'.id.val
  compositions : p.compositions.Pairwise fun c c' => c.id.val < c'.id.val

namespace GraphParts.Sorted

variable {p : GraphParts}

theorem ordered (h : p.Sorted) : p.ordered = p := by
  have hfunctions : p.ordered.functions = p.functions :=
    List.mergeSort_of_pairwise (h.functions.imp fun hless => by simpa using Nat.le_of_lt hless)
  have hcompositions : p.ordered.compositions = p.compositions :=
    List.mergeSort_of_pairwise (h.compositions.imp fun hless => by simpa using Nat.le_of_lt hless)
  show (⟨p.name, p.ordered.functions, p.ordered.compositions⟩ : GraphParts) = p
  rw [hfunctions, hcompositions]

/-- What is put together from parts in order has these parts. -/
theorem parts_ofParts (h : p.Sorted) :
    (Graph.ofParts p.name p.functions p.compositions).parts = p := by
  rw [Graph.parts, Graph.functions_ofParts _ _ h.functions,
    Graph.compositions_ofParts _ _ h.compositions]
  simp [Graph.ofParts, Assoc.values, Function.comp_def]

/-- The order does not depend on what constants are. -/
theorem of_outline (h : p.Sorted) {p' : GraphParts} (houtline : p'.outline = p.outline) :
    p'.Sorted := by
  have hfunctions : p'.functions.map (·.id.val) = p.functions.map (·.id.val) := by
    have heq := congrArg (fun p : GraphParts => p.functions.map (·.id.val)) houtline
    simpa [outline, Description.outline, Function.comp_def] using heq
  have hcompositions : p'.compositions.map (·.id.val) = p.compositions.map (·.id.val) := by
    have heq := congrArg (fun p : GraphParts => p.compositions.map (·.id.val)) houtline
    simpa [outline, Composition.outline, Function.comp_def] using heq
  constructor
  · have hpairwise := List.pairwise_map.2 h.functions
    rw [← hfunctions] at hpairwise
    exact List.pairwise_map.1 hpairwise
  · have hpairwise := List.pairwise_map.2 h.compositions
    rw [← hcompositions] at hpairwise
    exact List.pairwise_map.1 hpairwise

end GraphParts.Sorted

theorem GraphParts.assemble_eq_ok {p : GraphParts} {g : Graph} (h : p.assemble = .ok g) :
    p.fault? p.compositions = none ∧ g = Graph.ofParts p.name p.functions p.compositions ∧
      g.check = .ok () := by
  rw [GraphParts.assemble] at h
  split at h
  · cases h
  · rename_i hfault
    dsimp only at h
    split at h
    · rename_i hcheck
      obtain rfl := Except.ok.inj h
      exact ⟨hfault, rfl, hcheck⟩
    · cases h

theorem eq_some_of_readable {α : Type} {a? : Option α} {a : α} (h : readable a? = .ok a) :
    a? = some a := by
  cases a? with
  | none => cases h
  | some b => rw [Except.ok.inj h]

namespace Graph

variable {g : Graph}

theorem Keyed.ofParts (name : String) (functions : List Description)
    (compositions : List Composition) :
    (Graph.ofParts name functions compositions).Keyed := by
  constructor
  · intro id d hd
    obtain ⟨d, -, heq⟩ := List.mem_map.1 (Assoc.mem_of_mem_sortedOfList hd)
    obtain ⟨rfl, rfl⟩ := Prod.mk.inj heq
    rfl
  · intro id c hc
    obtain ⟨c, -, heq⟩ := List.mem_map.1 (Assoc.mem_of_mem_sortedOfList hc)
    obtain ⟨rfl, rfl⟩ := Prod.mk.inj heq
    rfl

theorem Keyed.sorted_parts (h : g.Keyed) (hordered : g.Ordered) : g.parts.Sorted := by
  have hfunctions := hordered.functions
  have hcompositions := hordered.compositions
  rw [h.keys_functions, List.pairwise_map] at hfunctions
  rw [h.keys_compositions, List.pairwise_map] at hcompositions
  exact ⟨hfunctions, hcompositions⟩

/-- If no constant changes, what is loaded of a graph are its own parts. -/
theorem Keyed.reloaded_eq (h : g.Keyed) (hordered : g.Ordered)
    (hconstants : ∀ v ∈ g.constants, v.reread? = some v) :
    g.reloaded = g.parts.assemble := by
  rw [reloaded, (h.sorted_parts hordered).ordered,
    GraphParts.mapConstants?_eq_self_iff.2 hconstants]
  rfl

/-- **When a graph is loaded as it was**: its definitions stand under their own identities, its
compositions are the bodies of what they represent, and its constants are read again as they are. -/
theorem exists_reloaded_iff (hordered : g.Ordered) (hcheck : g.check = .ok ()) :
    (∃ g', g.reloaded = .ok g' ∧ g'.name = g.name ∧ g'.functions = g.functions ∧
      g'.compositions = g.compositions) ↔
      g.Keyed ∧ g.Linked ∧ ∀ v ∈ g.constants, v.reread? = some v := by
  constructor
  · rintro ⟨g', hreloaded, -, hfunctions, hcompositions⟩
    obtain ⟨p, hread, hassemble⟩ := bind_eq_ok hreloaded
    obtain ⟨hfault, hg', -⟩ := GraphParts.assemble_eq_ok hassemble
    have hkeyed' : g'.Keyed := hg' ▸ .ofParts ..
    have hkeyed : g.Keyed := ⟨hfunctions ▸ hkeyed'.functions, hcompositions ▸ hkeyed'.compositions⟩
    have hsorted := hkeyed.sorted_parts hordered
    have hp := eq_some_of_readable hread
    rw [hsorted.ordered] at hp
    have houtline := GraphParts.outline_of_mapConstants? hp
    -- what was read has the parts of the graph that was put together from it
    have hsame : p = g.parts := by
      have hparts := (hsorted.of_outline houtline).parts_ofParts
      have hname : p.name = g.name := congrArg GraphParts.name houtline
      rw [← hg'] at hparts
      rw [parts, ← hfunctions, ← hcompositions, ← hname]
      exact congrArg (fun p' : GraphParts => GraphParts.mk p.name p'.functions p'.compositions)
        hparts.symm
    subst hsame
    exact ⟨hkeyed, hkeyed.fault?_parts_eq_none_iff.1 hfault,
      GraphParts.mapConstants?_eq_self_iff.1 hp⟩
  · rintro ⟨hkeyed, hlinked, hconstants⟩
    refine ⟨g.recounted, ?_, rfl, rfl, rfl⟩
    rw [hkeyed.reloaded_eq hordered hconstants]
    exact (hkeyed.assembles hordered hcheck).1 hlinked

end Graph

/-! ## Exported graphs are read -/

theorem Command.printed_eq (j : Json) :
    printed j = String.ofList (Json.prettyChars 0 j.sorted ++ Json.lineBreak 0) := by
  have hline : String.ofList (Json.lineBreak 0) = "\n" := by decide
  rw [printed, Json.pretty, String.ofList_append, hline]

/-- **From the text that an export prints, a graph is read**, with the constants that are read from
theirs. -/
theorem Graph.ofText?_printed {g : Graph} (hg : g.Sized)
    (hdepth : g.toJson.depth ≤ Json.nestingLimit) :
    Graph.ofText? (Command.printed g.toJson) = g.mapConstants? Constant.resorted? := by
  have hsorted := Nat.le_trans (Json.depth_sorted_le g.toJson) hdepth
  have hparse := (Json.spells_pretty 0 g.toJson.sorted).parse? hsorted (Json.areBlank_lineBreak 0)
  rw [Graph.ofText?, Command.printed_eq, hparse, Option.bind_some]
  exact Json.Channel.printedSorted.graph hg

/-! ## Imports -/

namespace Command

variable {around : Surroundings} {database file : String} {name : Option String} {report : Report}
  {kept : Option TableStore}

/-- What is said about a graph that could not be loaded. -/
def notLoaded (graph : String) (fault : StoreFault) : Report :=
  .failure 3 ("failed to load graph " ++ graph ++ ": " ++ fault.text)

theorem loadGraph_of_whole? {s : TableStore} {graph : String} {n : Int}
    (h : whole? graph = some n) :
    loadGraph s graph = (GraphStore.load ⟨n⟩ s).mapError (notLoaded graph) := by
  simp only [loadGraph, findGraph, h]
  cases GraphStore.load ⟨n⟩ s <;> rfl

/-- An import of a graph that passes its check stores it. -/
theorem run_import {text : String} {g : Graph} {opened : Opened}
    (htext : around.readFile file = .ok text)
    (hg : Graph.ofText? text = some g) (hcheck : g.check = .ok ())
    (hopened : around.openStore database = .ok opened) :
    run around ⟨database, .importFile file name⟩ =
      ((storeGraph { g with name := name.getD g.name } opened).1,
        some (storeGraph { g with name := name.getD g.name } opened).2) := by
  show runImport around database file name = _
  simp only [runImport, htext, graphOfText, hg, hcheck, withOpened, hopened]

/-- What an import did that has succeeded. -/
theorem exists_of_import (h : run around ⟨database, .importFile file name⟩ = (report, kept))
    (hexit : report.exit = 0) :
    ∃ (text : String) (g : Graph) (opened : Opened) (id : GraphId) (s : TableStore),
      around.readFile file = .ok text ∧ Graph.ofText? text = some g ∧ g.check = .ok () ∧
      GraphStore.importGraph { g with name := name.getD g.name } opened.store = (.ok id, s) ∧
      kept = some s ∧
      report =
        .success (printed (.obj [("id", .int id.val), ("name", .str (name.getD g.name))])) := by
  have hfails :
      ∀ {exit message kept'}, exit ≠ 0 → (Report.failure exit message, kept') ≠ (report, kept) := by
    rintro exit message kept' hne heq
    obtain ⟨rfl, -⟩ := Prod.mk.inj heq
    exact hne hexit
  change runImport around database file name = (report, kept) at h
  rw [runImport] at h
  split at h
  case h_1 => exact absurd h (hfails (by decide))
  case h_2 text htext =>
  cases hg : Graph.ofText? text with
  | none =>
      rw [graphOfText, hg] at h
      exact absurd h (hfails (by decide))
  | some g =>
      cases hcheck : g.check with
      | error fault =>
          simp only [graphOfText, hg, hcheck] at h
          exact absurd h (hfails (by decide))
      | ok =>
          simp only [graphOfText, hg, hcheck, withOpened] at h
          split at h
          case h_1 => exact absurd h (hfails (by decide))
          case h_2 opened hopened =>
          rw [storeGraph] at h
          split at h
          case isFalse => exact absurd h (hfails (by decide))
          case isTrue =>
          split at h
          case h_2 => exact absurd h (hfails (by decide))
          case h_1 id s himport =>
          obtain ⟨rfl, rfl⟩ := Prod.mk.inj h
          exact ⟨text, g, opened, id, s, htext, hg, hcheck, himport, rfl, rfl⟩

/-- **What an import that succeeds is worth**, for all files and databases.  What is loaded is put
together from the texts of the definitions.  It is what was in the file exactly if the definitions
stand under their own identities, the compositions are the bodies of what they represent, and the
constants are read again as they are; if it is only a composition that is not such a body then
nothing is loaded. -/
theorem comes_back_of_import (h : run around ⟨database, .importFile file name⟩ = (report, kept))
    (hexit : report.exit = 0) :
    ∃ (text : String) (g : Graph) (id : GraphId) (s : TableStore),
      around.readFile file = .ok text ∧ Graph.ofText? text = some g ∧ g.check = .ok () ∧
        kept = some s ∧
      report = .success (printed (.obj [("id", .int id.val), ("name", .str (name.getD g.name))])) ∧
      ∀ graph, whole? graph = some id.val →
        loadGraph s graph =
          { g with name := name.getD g.name }.reloaded.mapError (notLoaded graph) ∧
        ((∃ g', runExport graph s = (.success (printed g'.toJson), s) ∧ loadGraph s graph = .ok g' ∧
            g'.name = name.getD g.name ∧ g'.functions = g.functions ∧
              g'.compositions = g.compositions) ↔
          g.Keyed ∧ g.Linked ∧ ∀ v ∈ g.constants, v.reread? = some v) ∧
        (g.Keyed → (∀ v ∈ g.constants, v.reread? = some v) → ¬ g.Linked → ∃ c f,
          runExport graph s = (notLoaded graph (.notAssembled (.notItsBody c f)), s)) := by
  obtain ⟨text, g, opened, id, s, htext, hg, hcheck, himport, hkept, hreport⟩ :=
    exists_of_import h hexit
  have hsized := (Graph.sized_of_ofText? hg).1
  have hportable := Graph.portable_of_ofText? hg
  have hload := TableStore.load_importGraph (g := { g with name := name.getD g.name })
    ⟨hportable.functions, hportable.compositions⟩ himport
  refine ⟨text, g, id, s, htext, hg, hcheck, hkept, hreport, fun graph hgraph => ?_⟩
  have hloadGraph : loadGraph s graph =
      { g with name := name.getD g.name }.reloaded.mapError (notLoaded graph) := by
    rw [loadGraph_of_whole? hgraph, ← hload]
  have hordered : Graph.Ordered { g with name := name.getD g.name } :=
    ⟨hsized.functionOrder, hsized.compositionOrder⟩
  have hsame := Graph.exists_reloaded_iff hordered hcheck
  refine ⟨hloadGraph, ⟨fun hexists => ?_, fun ⟨hkeyed, hlinked, hconstants⟩ => ?_⟩,
    fun hkeyed hconstants hnot => ?_⟩
  · obtain ⟨g', -, hg', hkept⟩ := hexists
    rw [hloadGraph] at hg'
    obtain ⟨hkeyed, hlinked, hconstants⟩ := hsame.1 ⟨g', mapError_eq_ok hg', hkept⟩
    exact ⟨⟨hkeyed.functions, hkeyed.compositions⟩, hlinked, hconstants⟩
  · obtain ⟨g', hreloaded, hkept⟩ :=
      hsame.2 ⟨⟨hkeyed.functions, hkeyed.compositions⟩, hlinked, hconstants⟩
    have hg' : loadGraph s graph = .ok g' := by
      rw [hloadGraph, hreloaded]
      rfl
    exact ⟨g', by rw [runExport, hg'], hg', hkept⟩
  · have hkeyed : Graph.Keyed { g with name := name.getD g.name } :=
      ⟨hkeyed.functions, hkeyed.compositions⟩
    obtain ⟨c, -, f, -, -, hassemble⟩ := (hkeyed.assembles hordered hcheck).2 hnot
    refine ⟨c.id, f, ?_⟩
    rw [runExport, hloadGraph, hkeyed.reloaded_eq hordered hconstants, hassemble]
    rfl

end Command

namespace Sample

/-- A composition represents a function that has no body. -/
def strayed : Graph :=
  .ofParts "strayed" [.plain ⟨0⟩ "f" []] [Composition.empty ⟨0⟩ "body" (some ⟨0⟩)]

/-- Every file holds the graph, and every database is empty. -/
def strayedFile : Surroundings :=
  ⟨fun _ => .ok (Command.printed strayed.toJson), fun _ => .ok ⟨{}, true⟩⟩

end Sample

theorem Sample.sized_strayed : strayed.Sized := by
  refine ⟨by decide, by decide, by decide, by decide, fun d hd => ?_,
    fun c hc => ?_, by decide, by decide, by decide⟩
  · obtain rfl := List.mem_singleton.1 hd
    exact ⟨by decide, by simp [Description.plain]⟩
  · obtain rfl := List.mem_singleton.1 hc
    exact ⟨by decide, by simp [Composition.empty], by simp [Composition.empty], by
      simp [Composition.empty],
      by simp [Composition.empty]⟩

/-- The graph passes its check and is imported, and cannot be exported. -/
theorem Command.comes_back_of_import_sample :
    Sample.strayed.check = .ok () ∧
    ∃ s id, (run Sample.strayedFile ⟨"g.db", .importFile "g.json" none⟩).1
        = .success (printed (.obj [("id", .int id), ("name", .str "strayed")])) ∧
      (run Sample.strayedFile ⟨"g.db", .importFile "g.json" none⟩).2 = some s ∧
      ∀ graph, whole? graph = some id → ∃ c f,
        runExport graph s = (notLoaded graph (.notAssembled (.notItsBody c f)), s) := by
  have hconstants :
      ∀ {F : Constant → Option Constant}, ∀ v ∈ Sample.strayed.constants, F v = some v :=
    fun v hv => absurd hv (by simp [show Sample.strayed.constants = [] from rfl])
  have htext : Graph.ofText? (printed Sample.strayed.toJson) = some Sample.strayed := by
    rw [Graph.ofText?_printed Sample.sized_strayed (by decide +kernel),
      Graph.mapConstants?_eq_self_iff.2 hconstants]
  have hcheck : Sample.strayed.check = .ok () := rfl
  have hexit : (run Sample.strayedFile ⟨"g.db", .importFile "g.json" none⟩).1.exit = 0 := by
    rw [run_import rfl htext hcheck rfl]
    decide +kernel
  obtain ⟨text, g, id, s, hread, hg, -, hkept, hreport, hloads⟩ :=
    comes_back_of_import Prod.mk.eta.symm hexit
  obtain rfl := Except.ok.inj hread
  obtain rfl := Option.some.inj (htext.symm.trans hg)
  have hkeyed : Sample.strayed.Keyed := .ofParts ..
  have hnot : ¬ Sample.strayed.Linked := by
    intro hlinked
    obtain ⟨d, hd, hbody⟩ := hlinked _ (List.mem_singleton_self _) ⟨0⟩ rfl
    obtain rfl := Except.ok.inj hd
    cases hbody
  exact ⟨hcheck, s, id.val, hreport, hkept,
    fun graph hgraph => (hloads graph hgraph).2.2 hkeyed hconstants hnot⟩

end CallFlow
