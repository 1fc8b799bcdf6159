import CallFlow.Proofs.Assoc
import CallFlow.Proofs.Shelf
import CallFlow.Store.Memory
import CallFlow.Store.Tables

/-!
# Stores that behave alike

Both stores give the answers of the shelf to every sequence of requests, so that they cannot be
told from each other (`GraphStore.stores_conform`), if the graphs that are saved can be stored as
text (`Graph.Storable`).

The plain store keeps sorted maps of the definitions (`MemoryStore.Shows`).  The tabular store
keeps rows, from whose texts the definitions are read again, and no rows of graphs that are not
there (`TableStore.Shows`).  Both put a graph together from its parts, which restores the volume
that the shelf has (`Volume.Increasing.assemble_eq`).
-/

namespace CallFlow

theorem FunctionId.val_injective : Function.Injective FunctionId.val := by
  intro id id' h
  cases id
  exact congrArg FunctionId.mk h

theorem CompositionId.val_injective : Function.Injective CompositionId.val := by
  intro id id' h
  cases id
  exact congrArg CompositionId.mk h

/-! ## Parts of volumes -/

/-- A maximum that is reckoned from the left. -/
theorem Volume.nextWord_eq (used : List Nat) : nextWord used = Graph.above used := by
  rw [nextWord, Graph.above, ← List.foldl_map (g := max), List.foldl_max, Nat.zero_max]

/-- Definitions in order of their identities stay as they are in a graph. -/
theorem Graph.functions_ofParts (name : String) {ds : List Description} (cs : List Composition)
    (h : ds.Pairwise fun d d' => d.id.val < d'.id.val) :
    (ofParts name ds cs).functions = ds.map fun d => (d.id, d) := by
  refine Assoc.sortedOfList_of_rank (fun _ _ => rfl) ?_
  rw [Assoc.keys, List.map_map]
  exact List.pairwise_map.2 h

theorem Graph.compositions_ofParts (name : String) (ds : List Description) {cs : List Composition}
    (h : cs.Pairwise fun c c' => c.id.val < c'.id.val) :
    (ofParts name ds cs).compositions = cs.map fun c => (c.id, c) := by
  refine Assoc.sortedOfList_of_rank (fun _ _ => rfl) ?_
  rw [Assoc.keys, List.map_map]
  exact List.pairwise_map.2 h

namespace Volume

variable {v : Volume}

/-- The parts that a store keeps of a volume. -/
def parts (v : Volume) : GraphParts := ⟨v.name, v.functions, v.compositions⟩

theorem Increasing.ofParts (h : v.Increasing) :
    Graph.ofParts v.name v.functions v.compositions = v.graph := by
  have hfunctions := Graph.functions_ofParts v.name v.compositions h.functions
  have hcompositions := Graph.compositions_ofParts v.name v.functions h.compositions
  rw [graph, nextWord_eq, nextWord_eq, nextWord_eq, ← hfunctions, ← hcompositions]
  rfl

theorem Increasing.bodyOf?_eq_some_iff (h : v.Increasing) {f : FunctionId} {c : CompositionId} :
    v.parts.bodyOf? f = some c ↔ ∃ d ∈ v.functions, d.id = f ∧ d.body = some c := by
  rw [GraphParts.bodyOf?, Option.bind_eq_some_iff]
  simp only [parts, find?_eq_some_iff_of_distinct Description.id h.distinctFunctions, and_assoc]

/-- The first composition that does not fit is the first whose function has another body. -/
theorem Increasing.fault?_eq (h : v.Increasing) (cs : List Composition) : v.parts.fault? cs =
    cs.findSome? fun c => if v.isBody c then none else c.represents.map (.notItsBody c.id) := by
  induction cs with
  | nil => rfl
  | cons c rest ih =>
      rw [GraphParts.fault?, List.findSome?_cons, ih]
      cases hrepresents : c.represents with
      | none => simp [isBody, hrepresents]
      | some f =>
          have hbody : v.parts.bodyOf? f = some c.id ↔ v.isBody c = true := by
            rw [h.bodyOf?_eq_some_iff, isBody_iff]
            simp [hrepresents]
          by_cases hfits : v.isBody c = true <;> simp [hfits, hbody]

/-- **Putting the parts of a volume together restores it.** -/
theorem Increasing.assemble_eq (h : v.Increasing) : v.parts.assemble = v.restore := by
  have hfault : v.parts.fault? v.parts.compositions = v.misfit? := h.fault?_eq v.compositions
  have hgraph : Graph.ofParts v.parts.name v.parts.functions v.parts.compositions = v.graph :=
    h.ofParts
  rw [GraphParts.assemble, restore, hfault, hgraph]
  cases v.misfit? with
  | some fault => rfl
  | none => cases hcheck : v.graph.check <;> simp only [hcheck]

end Volume

/-! ## The plain store -/

namespace MemoryStore

/-- Definitions stand under the identities inside them. -/
structure Keyed (g : KeptGraph) : Prop where
  functions : ∀ id d, (id, d) ∈ g.functions → d.id = id
  compositions : ∀ id c, (id, c) ∈ g.compositions → c.id = id

/-- The volume of what is kept of a graph. -/
def volumeOf (k : KeptGraph) : Volume :=
  ⟨k.name, Assoc.values k.functions, Assoc.values k.compositions⟩

/-- The plain store shows the shelf. -/
structure Shows (s : MemoryStore) (a : Shelf) : Prop where
  nextId : s.nextId = a.last + 1
  keys : Assoc.keys s.graphs = a.live
  fits : a.Fits
  kept : ∀ id, (Assoc.find? s.graphs id).map volumeOf = a.volumes id
  keyed : ∀ id g, Assoc.find? s.graphs id = some g → Keyed g

variable {s : MemoryStore} {a : Shelf}

theorem volumeOf_keep {g : Graph} (hg : g.Storable) : volumeOf (keep g.parts) = .of g := by
  have hfunctions := Assoc.values_sortedOfList FunctionId.before Description.id
    FunctionId.val_injective (fun _ _ => rfl) hg.functionIds
  have hcompositions := Assoc.values_sortedOfList CompositionId.before Composition.id
    CompositionId.val_injective (fun _ _ => rfl) hg.compositionIds
  rw [volumeOf, keep, Graph.parts, Volume.of]
  simp only [hfunctions, hcompositions]
  rfl

theorem keyed_keep {g : Graph} (hg : g.Storable) : Keyed (keep g.parts) where
  functions id d hd := by
    have hnodup : ((g.parts.functions.map fun d => (d.id, d)).map (·.1)).Nodup := by
      simpa [Function.comp_def, Graph.parts] using hg.functionIds
    have hmem := (Assoc.perm_sortedOfList hnodup).mem_iff.1 hd
    obtain ⟨d', -, heq⟩ := List.mem_map.1 hmem
    obtain ⟨rfl, rfl⟩ := Prod.mk.inj heq
    rfl
  compositions id c hc := by
    have hnodup : ((g.parts.compositions.map fun c => (c.id, c)).map (·.1)).Nodup := by
      simpa [Function.comp_def, Graph.parts] using hg.compositionIds
    have hmem := (Assoc.perm_sortedOfList hnodup).mem_iff.1 hc
    obtain ⟨c', -, heq⟩ := List.mem_map.1 hmem
    obtain ⟨rfl, rfl⟩ := Prod.mk.inj heq
    rfl

/-- What the plain store finds under an identity is what the shelf has there. -/
theorem Shows.kept_cases (h : s.Shows a) (id : GraphId) :
    (∃ k, s.kept id = .ok k ∧ a.volumes id = some (volumeOf k) ∧ a.found id = .ok (volumeOf k) ∧
      Keyed k) ∨
    (s.kept id = .error (.graphNotFound id) ∧ a.volumes id = none ∧
      a.found id = .error (.graphNotFound id)) := by
  have hkept := h.kept id
  rw [MemoryStore.kept, Shelf.found]
  cases hk : Assoc.find? s.graphs id with
  | some k =>
      rw [hk] at hkept
      rw [← hkept]
      exact .inl ⟨k, rfl, rfl, rfl, h.keyed id k hk⟩
  | none =>
      rw [hk] at hkept
      rw [← hkept]
      exact .inr ⟨rfl, rfl, rfl⟩

theorem Shows.mem_keys (h : s.Shows a) {id : GraphId} {v : Volume} (hid : a.volumes id = some v) :
    id ∈ Assoc.keys s.graphs := by
  rw [← h.kept id] at hid
  obtain ⟨k, hk, -⟩ := Option.map_eq_some_iff.1 hid
  exact Assoc.isSome_find?_iff.1 (by simp [hk])

/-- Changing what is there under an identity. -/
theorem Shows.insert (h : s.Shows a) {id : GraphId} {v : Volume} (hid : a.volumes id = some v)
    {k : KeptGraph} (hk : Keyed k) (hincreasing : (volumeOf k).Increasing) :
    Shows { s with graphs := Assoc.insert s.graphs id k } (a.put id (some (volumeOf k))) where
  nextId := h.nextId
  keys := by
    rw [Shelf.live_put hid, ← h.keys]
    exact Assoc.keys_insert_of_mem (h.mem_keys hid) k
  fits := h.fits.put hid hincreasing
  kept id' := by
    rw [Assoc.find?_insert]
    by_cases heq : id = id'
    · simp [Shelf.volumes_put, heq]
    · simp [Shelf.volumes_put, heq, Ne.symm heq, h.kept id']
  keyed id' k' hk' := by
    rw [Assoc.find?_insert] at hk'
    split at hk'
    · obtain rfl := Option.some.inj hk'
      exact hk
    · exact h.keyed id' k' hk'

theorem Shows.create (h : s.Shows a) (name : String) :
    (GraphStore.create name s).1 = (a.add { name }).1 ∧
      (GraphStore.create name s).2.Shows (a.add { name }).2 := by
  have hid : (⟨s.nextId⟩ : GraphId) = ⟨a.last + 1⟩ := congrArg GraphId.mk h.nextId
  have hnew : (⟨a.last + 1⟩ : GraphId) ∉ Assoc.keys s.graphs := by
    intro hmem
    rw [h.keys] at hmem
    have hle : (a.last : Int) + 1 ≤ a.last := (Shelf.mem_ids.1 (List.mem_filter.1 hmem).1).2
    omega
  have hgraphs : (GraphStore.create name s).2.graphs
      = Assoc.insert s.graphs ⟨a.last + 1⟩ ⟨name, [], []⟩ := by
    rw [← hid]
    rfl
  refine ⟨hid, ⟨?_, ?_, h.fits.add (Volume.increasing_nil name), ?_, ?_⟩⟩
  · show s.nextId + 1 = ((a.last + 1 : Nat) : Int) + 1
    have hnext := h.nextId
    omega
  · rw [hgraphs, Shelf.live_add, Assoc.insert_of_not_mem hnew, ← h.keys]
    simp [Assoc.keys]
  · intro id
    show _ = (a.put ⟨a.last + 1⟩ (some { name })).volumes id
    rw [hgraphs, Assoc.find?_insert, Shelf.volumes_put]
    by_cases heq : ⟨a.last + 1⟩ = id
    · rw [if_pos heq, if_pos heq.symm]
      rfl
    · rw [if_neg heq, if_neg (Ne.symm heq)]
      exact h.kept id
  · intro id k hk
    rw [hgraphs, Assoc.find?_insert] at hk
    split at hk
    · obtain rfl := Option.some.inj hk
      exact ⟨fun _ _ hd => absurd hd (by simp), fun _ _ hc => absurd hc (by simp)⟩
    · exact h.keyed id k hk

theorem Shows.save (h : s.Shows a) (id : GraphId) {g : Graph} (hg : g.Storable) :
    (GraphStore.save id g s).1 = (a.change id (some (.of g))).1 ∧
      (GraphStore.save id g s).2.Shows (a.change id (some (.of g))).2 := by
  have hvolume := volumeOf_keep hg
  simp only [GraphStore.save]
  rcases h.kept_cases id with ⟨k, hkept, hid, -⟩ | ⟨hkept, hid, -⟩
  · rw [hkept, Shelf.change_of_found hid, ← hvolume]
    exact ⟨rfl, h.insert hid (keyed_keep hg) (hvolume ▸ Volume.increasing_of hg)⟩
  · rw [hkept, Shelf.change_of_not_found hid]
    exact ⟨rfl, h⟩

theorem Shows.delete (h : s.Shows a) (id : GraphId) :
    (GraphStore.delete id s).1 = (a.change id none).1 ∧
      (GraphStore.delete id s).2.Shows (a.change id none).2 := by
  simp only [GraphStore.delete]
  rcases h.kept_cases id with ⟨k, hkept, hid, -⟩ | ⟨hkept, hid, -⟩
  · rw [hkept, Shelf.change_of_found hid]
    refine ⟨rfl, h.nextId, ?_, h.fits.erase id, fun id' => ?_, fun id' k' hk' => ?_⟩
    · rw [Shelf.live_erase, ← h.keys]
      exact Assoc.keys_erase s.graphs id
    · rw [Assoc.find?_erase]
      by_cases heq : id' = id <;> simp [Shelf.volumes_put, heq, h.kept]
    · rw [Assoc.find?_erase] at hk'
      split at hk'
      · exact absurd hk' (by simp)
      · exact h.keyed id' k' hk'
  · rw [hkept, Shelf.change_of_not_found hid]
    exact ⟨rfl, h⟩

theorem Shows.list (h : s.Shows a) : GraphStore.list s = a.list := by
  have hnodup : (Assoc.keys s.graphs).Nodup := by
    rw [h.keys]
    exact a.nodup_live
  show s.graphs.map _ = a.live.filterMap _
  rw [← h.keys, Assoc.keys, List.filterMap_map, ← List.filterMap_eq_map]
  refine List.filterMap_congr fun entry hentry => ?_
  obtain ⟨id, k⟩ := entry
  have hvolume : a.volumes id = some (volumeOf k) := by
    rw [← h.kept id, Assoc.find?_of_mem hnodup hentry]
    rfl
  simp [hvolume, Volume.summary, volumeOf, Assoc.values]

/-- **The plain store simulates the shelf.** -/
theorem simulates : GraphStore.Simulates MemoryStore Shows where
  empty := ⟨rfl, rfl, Shelf.fits_empty, fun _ => rfl,
    fun _ _ h => absurd h (by simp [GraphStore.empty])⟩
  fits h := h.fits
  create h name := h.create name
  save h id _ hg := h.save id hg
  load h id := by
    simp only [GraphStore.load]
    rcases h.kept_cases id with ⟨k, hkept, hid, hfound, -⟩ | ⟨hkept, -, hfound⟩
    · rw [hkept, hfound]
      exact (h.fits.increasing id _ hid).assemble_eq
    · rw [hkept, hfound]
      rfl
  delete h id := h.delete id
  list h := h.list
  function h id f := by
    simp only [GraphStore.function]
    rw [Shelf.function]
    rcases h.kept_cases id with ⟨k, hkept, -, hfound, hkeyed⟩ | ⟨hkept, -, hfound⟩
    · rw [hkept, hfound]
      have hfind := Assoc.find?_values hkeyed.functions f
      simp only [bind, Except.bind, volumeOf]
      cases hd : Assoc.find? k.functions f <;> simp [hfind, hd]
    · rw [hkept, hfound]
      rfl
  composition h id c := by
    simp only [GraphStore.composition]
    rw [Shelf.composition]
    rcases h.kept_cases id with ⟨k, hkept, -, hfound, hkeyed⟩ | ⟨hkept, -, hfound⟩
    · rw [hkept, hfound]
      have hfind := Assoc.find?_values hkeyed.compositions c
      simp only [bind, Except.bind, volumeOf]
      cases hd : Assoc.find? k.compositions c <;> simp [hfind, hd]
    · rw [hkept, hfound]
      rfl
  functions h id := by
    simp only [GraphStore.functions]
    rcases h.kept_cases id with ⟨k, hkept, -, hfound, -⟩ | ⟨hkept, -, hfound⟩ <;>
      rw [hkept, hfound] <;> rfl

end MemoryStore

/-! ## The tabular store -/

/-- The texts of all definitions read back to them. -/
structure Volume.Readable (v : Volume) : Prop where
  functions : ∀ d ∈ v.functions,
    (Json.Piece.parse? d.toJson.compact).bind Description.ofPiece? = some d
  compositions : ∀ c ∈ v.compositions,
    (Json.Piece.parse? c.toJson.compact).bind Composition.ofPiece? = some c

theorem Graph.Storable.readable {g : Graph} (hg : g.Storable) : (Volume.of g).Readable where
  functions d hd := hg.functionTexts d ((Volume.perm_functions_of g).mem_iff.1 hd)
  compositions c hc := hg.compositionTexts c ((Volume.perm_compositions_of g).mem_iff.1 hc)

namespace TableStore

section Rows

variable {α : Type} {id : GraphId} {rows : List DefinitionRow} (toRow : α → DefinitionRow)
  {rank : α → Nat}

/-- Behind new rows of a graph its rows are these, in order, and those of other graphs are as they
were. -/
theorem rowsOf_replace (hgraph : ∀ a, (toRow a).graph = id) (hkey : ∀ a, (toRow a).key = rank a)
    (definitions : List α) (id' : GraphId) :
    rowsOf id' (rowsBut id rows ++ definitions.map toRow) =
      if id' = id then (definitions.mergeSort fun a b => decide (rank a ≤ rank b)).map toRow
      else rowsOf id' rows := by
  unfold rowsOf rowsBut
  rw [List.filter_append, List.filter_filter, List.filter_map]
  split
  · rename_i heq
    subst heq
    have hnone : (rows.filter fun r => (r.graph == id') && (r.graph != id')) = [] := by
      refine List.filter_eq_nil_iff.2 fun r _ => ?_
      by_cases hr : r.graph = id' <;> simp [hr]
    have hall : definitions.filter ((fun r => r.graph == id') ∘ toRow) = definitions := by
      refine List.filter_eq_self.2 fun a _ => ?_
      simp [hgraph]
    rw [hnone, hall, List.nil_append]
    exact (List.map_mergeSort fun a _ b _ => by rw [hkey, hkey]).symm
  · rename_i hne
    have hkept : (rows.filter fun r => (r.graph == id') && (r.graph != id))
        = rows.filter fun r => r.graph == id' := by
      refine List.filter_congr fun r _ => ?_
      by_cases hr : r.graph = id' <;> simp [hr, hne]
    have hnone : definitions.filter ((fun r => r.graph == id') ∘ toRow) = [] := by
      refine List.filter_eq_nil_iff.2 fun a _ => ?_
      simp [hgraph, Ne.symm hne]
    rw [hkept, hnone, List.map_nil, List.append_nil]

theorem rowsOf_rowsBut (id' : GraphId) :
    rowsOf id' (rowsBut id rows) = if id' = id then [] else rowsOf id' rows := by
  have hreplace : rowsOf id' (rowsBut id rows ++ ([] : List Nat).map fun n => ⟨id, n, ""⟩) = _ :=
    rowsOf_replace (fun n => ⟨id, n, ""⟩) (fun _ => rfl) (fun _ => rfl) [] id'
  simpa using hreplace

theorem distinctKeys_map_iff (hgraph : ∀ a, (toRow a).graph = id)
    (hkey : ∀ a, (toRow a).key = rank a)
    {definitions : List α} :
    distinctKeys (definitions.map toRow) = true ↔ (definitions.map rank).Nodup := by
  induction definitions with
  | nil => simp [distinctKeys]
  | cons a rest ih =>
      rw [List.map_cons, distinctKeys, Bool.and_eq_true, ih, List.map_cons,
        List.nodup_cons, List.all_map]
      refine and_congr_left fun _ => ?_
      simp [hgraph, hkey]

variable {read : Json.Piece → Option α}

theorem mapM_readRow {definitions : List α}
    (h : ∀ a ∈ definitions, readRow read (toRow a) = .ok a) :
    (definitions.map toRow).mapM (readRow read) = .ok definitions := by
  induction definitions with
  | nil => rfl
  | cons a rest ih =>
      rw [List.map_cons, List.mapM_cons, h a (by simp),
        ih fun b hb => h b (List.mem_cons_of_mem _ hb)]
      rfl

theorem find?_rows {definitions : List α} {key : Nat} {test : α → Bool}
    (htest : ∀ a, ((toRow a).key == key) = test a) :
    ((definitions.map toRow).find? fun r => r.key == key) = (definitions.find? test).map toRow := by
  have hcomp : (fun r : DefinitionRow => r.key == key) ∘ toRow = test := funext htest
  rw [List.find?_map, hcomp]

end Rows

theorem readRow_functionRow {id : GraphId} {d : Description}
    (h : (Json.Piece.parse? d.toJson.compact).bind Description.ofPiece? = some d) :
    readRow Description.ofPiece? (functionRow id d) = .ok d := by
  simp [readRow, functionRow, h]

theorem readRow_compositionRow {id : GraphId} {c : Composition}
    (h : (Json.Piece.parse? c.toJson.compact).bind Composition.ofPiece? = some c) :
    readRow Composition.ofPiece? (compositionRow id c) = .ok c := by
  simp [readRow, compositionRow, h]

/-- The tabular store shows the shelf.  There are no rows of graphs that are not there. -/
structure Shows (s : TableStore) (a : Shelf) : Prop where
  lastId : s.lastId = a.last
  ids : s.graphs.map (·.id) = a.live
  fits : a.Fits
  names : ∀ r ∈ s.graphs, ∃ v, a.volumes r.id = some v ∧ v.name = r.name
  functions : ∀ id,
    rowsOf id s.functions = ((a.volumes id).elim [] (·.functions)).map (functionRow id)
  compositions : ∀ id,
    rowsOf id s.compositions = ((a.volumes id).elim [] (·.compositions)).map (compositionRow id)
  readable : ∀ id v, a.volumes id = some v → v.Readable

variable {s : TableStore} {a : Shelf}

theorem Shows.row_cases (h : s.Shows a) (id : GraphId) :
    (∃ r v, s.row id = .ok r ∧ a.volumes id = some v ∧ a.found id = .ok v ∧ r.name = v.name) ∨
    (s.row id = .error (.graphNotFound id) ∧ a.volumes id = none ∧
      a.found id = .error (.graphNotFound id)) := by
  cases hr : s.graphs.find? fun r => r.id == id with
  | some r =>
      have hid : r.id = id := by simpa using List.find?_some hr
      obtain ⟨v, hv, hname⟩ := h.names r (List.mem_of_find?_eq_some hr)
      rw [hid] at hv
      exact .inl ⟨r, v, by rw [row, hr], hv, Shelf.found_eq_ok.2 hv, hname.symm⟩
  | none =>
      have hnone : a.volumes id = none := by
        cases hv : a.volumes id with
        | none => rfl
        | some v =>
            have hlive : id ∈ a.live := h.fits.given id v hv
            rw [← h.ids] at hlive
            obtain ⟨r, hmem, hid⟩ := List.mem_map.1 hlive
            exact absurd (List.find?_eq_none.1 hr r hmem) (by simp [hid])
      exact .inr ⟨by rw [row, hr], hnone, by rw [Shelf.found, hnone]⟩

theorem Shows.readFunctions (h : s.Shows a) {id : GraphId} {v : Volume}
    (hv : a.volumes id = some v) :
    s.readFunctions id = .ok v.functions := by
  rw [TableStore.readFunctions, h.functions, hv]
  exact mapM_readRow _ fun d hd => readRow_functionRow ((h.readable id v hv).functions d hd)

theorem Shows.readCompositions (h : s.Shows a) {id : GraphId} {v : Volume}
    (hv : a.volumes id = some v) : s.readCompositions id = .ok v.compositions := by
  rw [TableStore.readCompositions, h.compositions, hv]
  exact mapM_readRow _ fun c hc => readRow_compositionRow ((h.readable id v hv).compositions c hc)

theorem Shows.create (h : s.Shows a) (name : String) :
    (GraphStore.create name s).1 = (a.add { name }).1 ∧
      (GraphStore.create name s).2.Shows (a.add { name }).2 := by
  have hid : (⟨s.lastId + 1⟩ : GraphId) = ⟨a.last + 1⟩ := by rw [h.lastId]
  have hvolumes : ∀ id, (a.add { name }).2.volumes id
      = if id = ⟨a.last + 1⟩ then some { name } else a.volumes id := fun id => rfl
  -- a new graph has as few rows as one that is not there
  have hunused : a.volumes ⟨a.last + 1⟩ = none := by
    cases hv : a.volumes ⟨a.last + 1⟩ with
    | none => rfl
    | some v => exact absurd rfl (h.fits.ne_new hv)
  refine ⟨hid, ⟨?_, ?_, h.fits.add (Volume.increasing_nil name), fun r hr => ?_, fun id => ?_,
    fun id => ?_, fun id v hv => ?_⟩⟩
  · show s.lastId + 1 = ((a.last + 1 : Nat) : Int)
    have hlast := h.lastId
    omega
  · show (s.graphs ++ [(⟨⟨s.lastId + 1⟩, name⟩ : GraphRow)]).map (·.id) = _
    rw [Shelf.live_add, List.map_append, h.ids, ← hid]
    rfl
  · rcases List.mem_append.1 hr with hr | hr
    · obtain ⟨v, hv, hname⟩ := h.names r hr
      exact ⟨v, by rw [hvolumes, if_neg (h.fits.ne_new hv), hv], hname⟩
    · obtain rfl := List.mem_singleton.1 hr
      exact ⟨{ name }, by rw [hvolumes, if_pos hid], rfl⟩
  · rw [hvolumes]
    show rowsOf id s.functions = _
    rw [h.functions]
    split
    · rename_i heq
      rw [heq, hunused]
      rfl
    · rfl
  · rw [hvolumes]
    show rowsOf id s.compositions = _
    rw [h.compositions]
    split
    · rename_i heq
      rw [heq, hunused]
      rfl
    · rfl
  · rw [hvolumes] at hv
    split at hv
    · obtain rfl := Option.some.inj hv
      exact ⟨fun _ hd => absurd hd (by simp), fun _ hc => absurd hc (by simp)⟩
    · exact h.readable id v hv

theorem map_id_rename (id : GraphId) (name : String) (rows : List GraphRow) :
    (rename id name rows).map (·.id) = rows.map (·.id) := by
  rw [rename, List.map_map]
  refine List.map_congr_left fun r _ => ?_
  by_cases hr : r.id = id <;> simp [hr]

/-- Replacing what is there under an identity. -/
theorem Shows.replace (h : s.Shows a) {id : GraphId} {v : Volume} (hv : a.volumes id = some v)
    {g : Graph} (hg : g.Storable) :
    Shows
      { s with
        graphs := rename id g.parts.name s.graphs
        functions := rowsBut id s.functions ++ g.parts.functions.map (functionRow id)
        compositions := rowsBut id s.compositions ++ g.parts.compositions.map (compositionRow id) }
      (a.put id (some (.of g))) where
  lastId := h.lastId
  ids := by rw [map_id_rename, h.ids, Shelf.live_put hv]
  fits := h.fits.put hv (Volume.increasing_of hg)
  names r hr := by
    obtain ⟨r₀, hr₀, rfl⟩ := List.mem_map.1 hr
    by_cases heq : r₀.id = id
    · exact ⟨.of g, by simp [heq, Shelf.volumes_put], by simp [heq, Volume.of, Graph.parts]⟩
    · obtain ⟨w, hw, hname⟩ := h.names r₀ hr₀
      exact ⟨w, by simp [heq, Shelf.volumes_put, hw], by simp [heq, hname]⟩
  functions id' := by
    rw [Shelf.volumes_put]
    refine (rowsOf_replace (functionRow id) (fun _ => rfl) (fun _ => rfl) _ id').trans ?_
    split
    · rename_i heq
      subst heq
      rfl
    · exact h.functions id'
  compositions id' := by
    rw [Shelf.volumes_put]
    refine (rowsOf_replace (compositionRow id) (fun _ => rfl) (fun _ => rfl) _ id').trans ?_
    split
    · rename_i heq
      subst heq
      rfl
    · exact h.compositions id'
  readable id' w hw := by
    rw [Shelf.volumes_put] at hw
    split at hw
    · obtain rfl := Option.some.inj hw
      exact hg.readable
    · exact h.readable id' w hw

theorem Shows.save (h : s.Shows a) (id : GraphId) {g : Graph} (hg : g.Storable) :
    (GraphStore.save id g s).1 = (a.change id (some (.of g))).1 ∧
      (GraphStore.save id g s).2.Shows (a.change id (some (.of g))).2 := by
  have hfunctions : distinctKeys (g.parts.functions.map (functionRow id)) = true := by
    refine (distinctKeys_map_iff (functionRow id) (fun _ => rfl) (fun _ => rfl)).2 ?_
    simpa [Function.comp_def, Graph.parts, functionRow] using
      hg.functionIds.map FunctionId.val_injective
  have hcompositions : distinctKeys (g.parts.compositions.map (compositionRow id)) = true := by
    refine (distinctKeys_map_iff (compositionRow id) (fun _ => rfl) (fun _ => rfl)).2 ?_
    simpa [Function.comp_def, Graph.parts, compositionRow] using
      hg.compositionIds.map CompositionId.val_injective
  simp only [GraphStore.save]
  rcases h.row_cases id with ⟨r, v, hrow, hv, -⟩ | ⟨hrow, hv, -⟩
  · rw [hrow, Shelf.change_of_found hv]
    simp only [hfunctions, hcompositions, Bool.and_self, if_true]
    exact ⟨trivial, h.replace hv hg⟩
  · rw [hrow, Shelf.change_of_not_found hv]
    exact ⟨rfl, h⟩

theorem Shows.delete (h : s.Shows a) (id : GraphId) :
    (GraphStore.delete id s).1 = (a.change id none).1 ∧
      (GraphStore.delete id s).2.Shows (a.change id none).2 := by
  simp only [GraphStore.delete]
  rcases h.row_cases id with ⟨r, v, hrow, hv, -⟩ | ⟨hrow, hv, -⟩
  · rw [hrow, Shelf.change_of_found hv]
    refine ⟨rfl, h.lastId, ?_, h.fits.erase id, fun r' hr' => ?_, fun id' => ?_, fun id' => ?_,
      fun id' w hw => ?_⟩
    · show (s.graphs.filter fun r => r.id != id).map (·.id) = _
      rw [Shelf.live_erase, ← h.ids, List.filter_map]
      rfl
    · obtain ⟨hmem, hne⟩ := List.mem_filter.1 hr'
      obtain ⟨w, hw, hname⟩ := h.names r' hmem
      refine ⟨w, ?_, hname⟩
      rw [Shelf.volumes_put, if_neg (by simpa using hne), hw]
    · rw [rowsOf_rowsBut, Shelf.volumes_put]
      split
      · rfl
      · exact h.functions id'
    · rw [rowsOf_rowsBut, Shelf.volumes_put]
      split
      · rfl
      · exact h.compositions id'
    · rw [Shelf.volumes_put] at hw
      split at hw
      · exact absurd hw (by simp)
      · exact h.readable id' w hw
  · rw [hrow, Shelf.change_of_not_found hv]
    exact ⟨rfl, h⟩

theorem Shows.list (h : s.Shows a) : GraphStore.list s = a.list := by
  show s.graphs.map _ = a.live.filterMap _
  rw [← h.ids, List.filterMap_map, ← List.filterMap_eq_map]
  refine List.filterMap_congr fun r hr => ?_
  obtain ⟨v, hv, hname⟩ := h.names r hr
  simp [hv, Volume.summary, h.functions, h.compositions, hname]

/-- **The tabular store simulates the shelf.** -/
theorem simulates : GraphStore.Simulates TableStore Shows where
  empty := ⟨rfl, rfl, Shelf.fits_empty, fun _ hr => absurd hr (by simp [GraphStore.empty]),
    fun _ => by simp [rowsOf, GraphStore.empty], fun _ => by simp [rowsOf, GraphStore.empty],
    fun _ _ hv => absurd hv (by simp)⟩
  fits h := h.fits
  create h name := h.create name
  save h id _ hg := h.save id hg
  load h id := by
    simp only [GraphStore.load]
    rcases h.row_cases id with ⟨r, v, hrow, hv, hfound, hname⟩ | ⟨hrow, -, hfound⟩
    · rw [hrow, hfound]
      show (do
        let functions ← TableStore.readFunctions _ id
        let compositions ← TableStore.readCompositions _ id
        (GraphParts.mk r.name functions compositions).assemble) = v.restore
      rw [h.readFunctions hv, h.readCompositions hv, hname]
      exact (h.fits.increasing id v hv).assemble_eq
    · rw [hrow, hfound]
      rfl
  delete h id := h.delete id
  list h := h.list
  function h id f := by
    simp only [GraphStore.function]
    rw [Shelf.function]
    rcases h.row_cases id with ⟨r, v, hrow, hv, hfound, -⟩ | ⟨hrow, -, hfound⟩
    · have htest : ∀ d : Description, ((functionRow id d).key == f.val) = (d.id == f) :=
        fun d => FunctionId.val_injective.beq_eq
      rw [hrow, hfound, h.functions, hv, Option.elim_some, find?_rows _ htest]
      simp only [bind, Except.bind]
      cases hd : v.functions.find? fun d => d.id == f with
      | none => rfl
      | some d =>
          have hmem := List.mem_of_find?_eq_some hd
          exact readRow_functionRow ((h.readable id v hv).functions d hmem)
    · rw [hrow, hfound]
      rfl
  composition h id c := by
    simp only [GraphStore.composition]
    rw [Shelf.composition]
    rcases h.row_cases id with ⟨r, v, hrow, hv, hfound, -⟩ | ⟨hrow, -, hfound⟩
    · have htest : ∀ d : Composition, ((compositionRow id d).key == c.val) = (d.id == c) :=
        fun d => CompositionId.val_injective.beq_eq
      rw [hrow, hfound, h.compositions, hv, Option.elim_some, find?_rows _ htest]
      simp only [bind, Except.bind]
      cases hd : v.compositions.find? fun d => d.id == c with
      | none => rfl
      | some d =>
          have hmem := List.mem_of_find?_eq_some hd
          exact readRow_compositionRow ((h.readable id v hv).compositions d hmem)
    · rw [hrow, hfound]
      rfl
  functions h id := by
    simp only [GraphStore.functions]
    rcases h.row_cases id with ⟨r, v, hrow, hv, hfound, -⟩ | ⟨hrow, -, hfound⟩
    · rw [hrow, hfound]
      exact h.readFunctions hv
    · rw [hrow, hfound]
      rfl

/-- A graph that is not there has no rows. -/
theorem Shows.no_rows (h : s.Shows a) {id : GraphId} (hid : a.volumes id = none) :
    (∀ r ∈ s.graphs, r.id ≠ id) ∧ (∀ r ∈ s.functions, r.graph ≠ id) ∧
      ∀ r ∈ s.compositions, r.graph ≠ id := by
  have hrows : ∀ {rows : List DefinitionRow}, rowsOf id rows = [] → ∀ r ∈ rows, r.graph ≠ id := by
    intro rows hnone r hr heq
    have hmem : r ∈ rowsOf id rows :=
      (List.mergeSort_perm ..).mem_iff.2 (List.mem_filter.2 ⟨hr, by simp [heq]⟩)
    exact absurd (hnone ▸ hmem) (by simp)
  refine ⟨fun r hr heq => ?_, hrows ?_, hrows ?_⟩
  · obtain ⟨v, hv, -⟩ := h.names r hr
    rw [heq] at hv
    exact absurd (hid.symm.trans hv) (by simp)
  · rw [h.functions, hid]
    rfl
  · rw [h.compositions, hid]
    rfl

end TableStore

namespace GraphStore

/-- **Both stores conform to the shelf**, so that they answer all requests alike; and a graph that
was deleted from the tabular store has left no row there. -/
theorem stores_conform {requests : List Request} (h : ∀ r ∈ requests, r.Storable) :
    Conforms MemoryStore requests ∧ Conforms TableStore requests ∧
    ∀ id, (∀ r ∈ (delete id (run requests (empty : TableStore)).2).2.graphs, r.id ≠ id) ∧
      (∀ r ∈ (delete id (run requests (empty : TableStore)).2).2.functions, r.graph ≠ id) ∧
      ∀ r ∈ (delete id (run requests (empty : TableStore)).2).2.compositions, r.graph ≠ id := by
  refine ⟨MemoryStore.simulates.conforms h, TableStore.simulates.conforms h, fun id => ?_⟩
  obtain ⟨-, hshows⟩ := TableStore.simulates.run h TableStore.simulates.empty
  exact (TableStore.simulates.delete hshows id).2.no_rows (Shelf.volumes_erase _ id)

end GraphStore

namespace Sample

/-- A function with a body that does nothing. -/
def idle : Graph :=
  .ofParts "idle" [{ Description.plain ⟨0⟩ "f" [] with body := some ⟨0⟩ }]
    [.empty ⟨0⟩ "b" (some ⟨0⟩)]

theorem storable_idle : idle.Storable where
  functionIds := by decide +kernel
  compositionIds := by decide +kernel
  functionTexts d hd := by
    obtain rfl := List.mem_singleton.1 hd
    have hcheck : ((Json.Piece.parse? ({ Description.plain ⟨0⟩ "f" [] with
        body := some ⟨0⟩ } : Description).toJson.compact).bind Description.ofPiece?).any (fun d =>
      d.params.isEmpty && d.receiver.isNone &&
        decide (d.id = ⟨0⟩ ∧ d.name = "f" ∧ d.output = ⟨"result", .any⟩ ∧
        d.selfOutput = none ∧ d.body = some ⟨0⟩ ∧ d.implementation = none)) = true := by
          decide +kernel
    obtain ⟨⟨id, name, params, receiver, output, selfOutput, body, implementation⟩, hread, hd⟩ :=
      (Option.any_eq_true ..).1 hcheck
    simp only [Bool.and_eq_true, decide_eq_true_eq, List.isEmpty_iff,
      Option.isNone_iff_eq_none] at hd
    obtain ⟨⟨rfl, rfl⟩, rfl, rfl, rfl, rfl, rfl, rfl⟩ := hd
    exact hread
  compositionTexts c hc := by
    obtain rfl := List.mem_singleton.1 hc
    have hcheck : ((Json.Piece.parse? (Composition.empty ⟨0⟩ "b" (some ⟨0⟩)).toJson.compact).bind
        Composition.ofPiece?).any
        (fun c => c.mappings.isEmpty && decide (c.id = ⟨0⟩ ∧ c.name = "b" ∧
          c.represents = some ⟨0⟩ ∧ c.starts = [] ∧ c.calls = [])) = true := by decide +kernel
    obtain ⟨⟨id, name, represents, starts, calls, mappings⟩, hread, hc⟩ :=
      (Option.any_eq_true ..).1 hcheck
    simp only [Bool.and_eq_true, decide_eq_true_eq, List.isEmpty_iff] at hc
    obtain ⟨rfl, rfl, rfl, rfl, rfl, rfl⟩ := hc
    exact hread

/-- Three graphs are made.  The first one is deleted, the second one renamed, and two requests
fail. -/
def visit : List GraphStore.Request := [
  .importGraph idle,
  .create "draft",
  .delete ⟨1⟩,
  .save ⟨2⟩ idle,
  .create "draft",
  .load ⟨1⟩,
  .save ⟨4⟩ idle,
  .function ⟨2⟩ ⟨0⟩,
  .find "idle"]

end Sample

namespace GraphStore

/-- The third graph has an identity of its own. -/
theorem stores_conform_sample :
    ((∀ r ∈ Sample.visit, r.Storable) ∧
      (Shelf.run Sample.visit {}).1.filterMap Answer.given? = [⟨1⟩, ⟨2⟩, ⟨3⟩]) ∧
    Conforms MemoryStore Sample.visit ∧ Conforms TableStore Sample.visit := by
  have hstorable : ∀ r ∈ Sample.visit, r.Storable := by
    intro r hr
    simp only [Sample.visit, List.mem_cons, List.not_mem_nil, or_false] at hr
    rcases hr with rfl | rfl | rfl | rfl | rfl | rfl | rfl | rfl | rfl
    all_goals first | exact Sample.storable_idle | exact trivial
  obtain ⟨hmemory, htable, -⟩ := stores_conform hstorable
  exact ⟨⟨hstorable, by decide +kernel⟩, hmemory, htable⟩

end GraphStore

end CallFlow
