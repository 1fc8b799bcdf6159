import CallFlow.Proofs.Stores

/-!
# Saves and imports that fail

A save of rows is a sequence of statements in a transaction (`TableStore.save_eq_transaction`):
rows are deleted, the graph is renamed, and new rows are inserted one after the other, until one
has a key that is in use.  If a statement fails then all of them are taken back.

An import is not one transaction but two, the first of which makes a graph without definitions.
If the second one fails then this graph stays.  Everything else is answered as before
(`GraphStore.GainsEmpty`).
-/

namespace CallFlow

/-- No two functions and no two compositions have one identity inside of them. -/
structure Graph.Unambiguous (g : Graph) : Prop where
  functionIds : ((Assoc.values g.functions).map (·.id)).Nodup
  compositionIds : ((Assoc.values g.compositions).map (·.id)).Nodup

namespace TableStore

/-! ## Statements of a transaction -/

/-- Is the key of the row in none of the table? -/
def isFree (table : List DefinitionRow) (r : DefinitionRow) : Bool :=
  table.all fun r' => r'.graph != r.graph || r'.key != r.key

/-- Inserts rows one after the other, until one has a key that is in use. -/
def insertRows : List DefinitionRow → List DefinitionRow → Except StoreFault (List DefinitionRow)
  | table, [] => .ok table
  | table, r :: rest =>
      if isFree table r then insertRows (table ++ [r]) rest else .error .duplicateKey

/-- The statements of a save. -/
def replaceRows (id : GraphId) (p : GraphParts)
    (s : TableStore) : Except StoreFault TableStore := do
  let s := { s with compositions := rowsBut id s.compositions }
  let s := { s with functions := rowsBut id s.functions }
  let s := { s with graphs := rename id p.name s.graphs }
  let s := { s with functions := ← insertRows s.functions (p.functions.map (functionRow id)) }
  return { s with
    compositions := ← insertRows s.compositions (p.compositions.map (compositionRow id)) }

/-- Runs statements.  If one fails then the tables are as they were before the first one. -/
def transaction (statements : TableStore → Except StoreFault TableStore) (s : TableStore) :
    Except StoreFault Unit × TableStore :=
  match statements s with
  | .ok s' => (.ok (), s')
  | .error fault => (.error fault, s)

/-- Rows are inserted if their keys are different from each other and from those in use. -/
theorem insertRows_eq (table rows : List DefinitionRow) :
    insertRows table rows =
      if rows.all (isFree table) && distinctKeys rows then .ok (table ++ rows) else
        .error .duplicateKey := by
  induction rows generalizing table with
  | nil => simp [insertRows, distinctKeys]
  | cons r rest ih =>
      have hfree : ∀ r', isFree (table ++ [r]) r' =
          (isFree table r' && (r'.graph != r.graph || r'.key != r.key)) := by
        intro r'
        simp [isFree, bne_comm (a := r.graph), bne_comm (a := r.key)]
      have hall : rest.all (isFree (table ++ [r]))
          = (rest.all (isFree table) &&
            rest.all fun r' => r'.graph != r.graph || r'.key != r.key) := by
        rw [funext hfree, Bool.eq_iff_iff]
        simp only [Bool.and_eq_true, List.all_eq_true, forall_and]
      rw [insertRows, ih, hall, List.all_cons, distinctKeys, List.append_assoc]
      cases isFree table r <;> simp [Bool.and_assoc]

/-- New rows of a graph whose rows were deleted are inserted if their keys are different from each
other. -/
theorem insertRows_rowsBut {α : Type} {id : GraphId} (toRow : α → DefinitionRow)
    (hgraph : ∀ a, (toRow a).graph = id) (table : List DefinitionRow) (definitions : List α) :
    insertRows (rowsBut id table) (definitions.map toRow) =
      if distinctKeys (definitions.map toRow) then .ok (rowsBut id table ++ definitions.map toRow)
      else .error .duplicateKey := by
  have hfree : (definitions.map toRow).all (isFree (rowsBut id table)) = true := by
    simp only [List.all_map, List.all_eq_true, isFree, rowsBut, Function.comp_apply, hgraph]
    intro a _ r hr
    simp [(List.mem_filter.1 hr).2]
  rw [insertRows_eq, hfree, Bool.true_and]

/-- What the statements of a save lead to. -/
theorem replaceRows_eq (id : GraphId) (p : GraphParts) (s : TableStore) :
    replaceRows id p s =
      if distinctKeys (p.functions.map (functionRow id)) &&
          distinctKeys (p.compositions.map (compositionRow id)) then
        .ok { s with
          graphs := rename id p.name s.graphs
          functions := rowsBut id s.functions ++ p.functions.map (functionRow id)
          compositions := rowsBut id s.compositions ++ p.compositions.map (compositionRow id) }
      else .error .duplicateKey := by
  have hfunctions := insertRows_rowsBut (functionRow id) (fun _ => rfl) s.functions p.functions
  have hcompositions :=
    insertRows_rowsBut (compositionRow id) (fun _ => rfl) s.compositions p.compositions
  simp only [replaceRows, hfunctions, hcompositions]
  cases distinctKeys (p.functions.map (functionRow id)) <;>
    cases distinctKeys (p.compositions.map (compositionRow id)) <;> rfl

/-- **A save is a transaction.** -/
theorem save_eq_transaction (id : GraphId) (g : Graph) (s : TableStore) :
    GraphStore.save id g s =
      match s.row id with
      | .error fault => (.error fault, s)
      | .ok _ => transaction (replaceRows id g.parts) s := by
  simp only [GraphStore.save]
  cases s.row id with
  | error fault => rfl
  | ok r =>
      simp only [transaction, replaceRows_eq]
      split <;> rfl

/-- A transaction that fails changes nothing, whichever statement it was. -/
theorem transaction_of_error {statements : TableStore → Except StoreFault TableStore}
    {s : TableStore}
    {fault : StoreFault} (h : statements s = .error fault) :
    transaction statements s = (.error fault, s) := by
  rw [transaction, h]

theorem transaction_of_ok {statements : TableStore → Except StoreFault TableStore}
    {s s' : TableStore} (h : statements s = .ok s') : transaction statements s = (.ok (), s') := by
  rw [transaction, h]

/-- The keys of all rows of a graph are different if its definitions can be told apart. -/
theorem distinctKeys_parts_iff (id : GraphId) (g : Graph) :
    (distinctKeys (g.parts.functions.map (functionRow id)) &&
      distinctKeys (g.parts.compositions.map (compositionRow id))) = true ↔ g.Unambiguous := by
  have hfunctions : distinctKeys (g.parts.functions.map (functionRow id)) = true ↔
      ((Assoc.values g.functions).map (·.id)).Nodup := by
    rw [distinctKeys_map_iff (functionRow id) (fun _ => rfl) (fun _ => rfl),
      ← List.nodup_map_iff FunctionId.val_injective, List.map_map]
    rfl
  have hcompositions : distinctKeys (g.parts.compositions.map (compositionRow id)) = true ↔
      ((Assoc.values g.compositions).map (·.id)).Nodup := by
    rw [distinctKeys_map_iff (compositionRow id) (fun _ => rfl) (fun _ => rfl),
      ← List.nodup_map_iff CompositionId.val_injective, List.map_map]
    rfl
  rw [Bool.and_eq_true, hfunctions, hcompositions]
  exact ⟨fun h => ⟨h.1, h.2⟩, fun h => ⟨h.1, h.2⟩⟩

/-- **When a save fails**: the store then is as it was. -/
theorem save_cases (id : GraphId) (g : Graph) (s : TableStore) :
    (GraphStore.save id g s = (.error (.graphNotFound id), s) ∧
      id ∉ (GraphStore.list s).map (·.id)) ∨
    (GraphStore.save id g s = (.error .duplicateKey, s) ∧ ¬ g.Unambiguous) ∨
    ((GraphStore.save id g s).1 = .ok () ∧ g.Unambiguous ∧
      id ∈ (GraphStore.list s).map (·.id)) := by
  have hids : (GraphStore.list s).map (·.id) = s.graphs.map (·.id) := List.map_map
  rw [hids, save_eq_transaction]
  cases hfind : s.graphs.find? fun r => r.id == id with
  | none =>
      rw [row, hfind]
      refine .inl ⟨rfl, fun hmem => ?_⟩
      obtain ⟨r, hr, hid⟩ := List.mem_map.1 hmem
      exact absurd hid (by simpa using List.find?_eq_none.1 hfind r hr)
  | some r =>
      have hmem : id ∈ s.graphs.map (·.id) :=
        List.mem_map.2 ⟨r, List.mem_of_find?_eq_some hfind, by simpa using List.find?_some hfind⟩
      rw [row, hfind]
      by_cases hg : g.Unambiguous
      · have hreplaced := replaceRows_eq id g.parts s
        rw [if_pos ((distinctKeys_parts_iff id g).2 hg)] at hreplaced
        exact .inr (.inr ⟨congrArg Prod.fst (transaction_of_ok hreplaced), hg, hmem⟩)
      · have hfails := replaceRows_eq id g.parts s
        rw [if_neg (mt (distinctKeys_parts_iff id g).1 hg)] at hfails
        exact .inr (.inl ⟨transaction_of_error hfails, hg⟩)

/-! ## Identities that were given out -/

/-- Only identities that were given out are in the tables. -/
structure GivenOut (s : TableStore) : Prop where
  graphs : ∀ r ∈ s.graphs, r.id.val ≤ s.lastId
  functions : ∀ r ∈ s.functions, r.graph.val ≤ s.lastId
  compositions : ∀ r ∈ s.compositions, r.graph.val ≤ s.lastId

variable {s : TableStore}

theorem GivenOut.create (h : s.GivenOut) (name : String) :
    (GraphStore.create name s).2.GivenOut := by
  have hlater : ∀ {n : Int}, n ≤ s.lastId → n ≤ s.lastId + 1 := fun hn => Int.le_trans hn (by omega)
  refine ⟨fun r hr => ?_, fun r hr => hlater (h.functions r hr),
    fun r hr => hlater (h.compositions r hr)⟩
  rcases List.mem_append.1 hr with hr | hr
  · exact hlater (h.graphs r hr)
  · obtain rfl := List.mem_singleton.1 hr
    exact Int.le_refl _

theorem mem_of_row_eq_ok {id : GraphId} {r : GraphRow} (h : s.row id = .ok r) :
    r ∈ s.graphs ∧ r.id = id := by
  rw [row] at h
  split at h
  · rename_i r' hfind
    obtain rfl := Except.ok.inj h
    exact ⟨List.mem_of_find?_eq_some hfind, by simpa using List.find?_some hfind⟩
  · cases h

/-- New rows are of the graph that is saved, which is there. -/
theorem GivenOut.save (h : s.GivenOut) (id : GraphId) (g : Graph) :
    (GraphStore.save id g s).2.GivenOut := by
  simp only [GraphStore.save]
  split
  · exact h
  · rename_i r hrow
    have hid : id.val ≤ s.lastId := by
      obtain ⟨hmem, rfl⟩ := mem_of_row_eq_ok hrow
      exact h.graphs r hmem
    have hreplaced :
        ∀ {α : Type} (toRow : α → DefinitionRow) (definitions : List α) (rows : List DefinitionRow),
        (∀ a, (toRow a).graph = id) → (∀ r ∈ rows, r.graph.val ≤ s.lastId) →
        ∀ r ∈ rowsBut id rows ++ definitions.map toRow, r.graph.val ≤ s.lastId := by
      intro α toRow definitions rows hgraph hrows r hr
      rcases List.mem_append.1 hr with hr | hr
      · exact hrows r (List.mem_filter.1 hr).1
      · obtain ⟨a, -, rfl⟩ := List.mem_map.1 hr
        rwa [hgraph]
    split
    · refine ⟨fun r hr => ?_, hreplaced _ _ _ (fun _ => rfl) h.functions,
        hreplaced _ _ _ (fun _ => rfl) h.compositions⟩
      have hmem : r.id ∈ s.graphs.map (·.id) :=
        map_id_rename id g.parts.name s.graphs ▸ List.mem_map_of_mem hr
      obtain ⟨r₀, hr₀, heq⟩ := List.mem_map.1 hmem
      exact heq ▸ h.graphs r₀ hr₀
    · exact h

theorem GivenOut.delete (h : s.GivenOut) (id : GraphId) : (GraphStore.delete id s).2.GivenOut := by
  simp only [GraphStore.delete]
  split
  · exact h
  · exact ⟨fun r hr => h.graphs r (List.mem_filter.1 hr).1,
      fun r hr => h.functions r (List.mem_filter.1 hr).1,
      fun r hr => h.compositions r (List.mem_filter.1 hr).1⟩

/-- Every request leaves tables in which only identities that were given out are. -/
theorem GivenOut.answer (h : s.GivenOut) (r : GraphStore.Request) :
    (GraphStore.answer s r).2.GivenOut := by
  cases r with
  | create name => exact h.create name
  | save id g => exact h.save id g
  | delete id => exact h.delete id
  | importGraph g => exact (h.create g.name).save _ g
  | load _ | list | function _ _ | composition _ _ | functions _ | find _ => exact h

theorem GivenOut.run (h : s.GivenOut) (requests : List GraphStore.Request) :
    (GraphStore.run requests s).2.GivenOut := by
  induction requests generalizing s with
  | nil => exact h
  | cons r rest ih => exact ih (h.answer r)

theorem givenOut_empty : (GraphStore.empty : TableStore).GivenOut :=
  ⟨fun _ hr => absurd hr (by simp [GraphStore.empty]),
    fun _ hr => absurd hr (by simp [GraphStore.empty]),
    fun _ hr => absurd hr (by simp [GraphStore.empty])⟩

/-! ## A graph without definitions -/

theorem ne_new {id : GraphId} (h : id.val ≤ s.lastId) : id ≠ ⟨s.lastId + 1⟩ := by
  rintro rfl
  exact absurd h (Int.not_le.2 (Int.lt_succ s.lastId))

theorem GivenOut.find?_new (h : s.GivenOut) :
    (s.graphs.find? fun r => r.id == ⟨s.lastId + 1⟩) = none :=
  List.find?_eq_none.2 fun r hr => by simpa using ne_new (h.graphs r hr)

theorem GivenOut.row_new (h : s.GivenOut) :
    s.row ⟨s.lastId + 1⟩ = .error (.graphNotFound ⟨s.lastId + 1⟩) := by
  rw [row, h.find?_new]

/-- A new graph has a row of its own, which is in the way of no other one. -/
theorem GivenOut.row_create (h : s.GivenOut) (name : String) (id : GraphId) :
    (GraphStore.create name s).2.row id =
      if id = ⟨s.lastId + 1⟩ then .ok ⟨id, name⟩ else s.row id := by
  have hgraphs : (GraphStore.create name s).2.graphs = s.graphs ++ [⟨⟨s.lastId + 1⟩, name⟩] := rfl
  rw [row, row, hgraphs, List.find?_append]
  by_cases hid : id = ⟨s.lastId + 1⟩
  · subst hid
    simp [h.find?_new]
  · simp only [List.find?_cons, beq_eq_false_iff_ne.2 (Ne.symm hid), List.find?_nil,
      Option.or_none, if_neg hid]

theorem rowsOf_new {rows : List DefinitionRow} (h : ∀ r ∈ rows, r.graph.val ≤ s.lastId) :
    rowsOf ⟨s.lastId + 1⟩ rows = [] := by
  have hnone : (rows.filter fun r => r.graph == ⟨s.lastId + 1⟩) = [] :=
    List.filter_eq_nil_iff.2 fun r hr => by simpa using ne_new (h r hr)
  rw [rowsOf, hnone, List.mergeSort_nil]

end TableStore

namespace GraphStore

/-- A store has gained a graph without definitions under a new identity, and nothing else can be
told from its answers. -/
structure GainsEmpty {σ : Type} [GraphStore σ] (id : GraphId) (name : String)
    (s s' : σ) : Prop where
  missing : load id s = .error (.graphNotFound id)
  load : load id s' = .ok (.ofParts name [] [])
  functions : functions id s' = .ok []
  list : list s' = list s ++ [⟨id, name, 0, 0⟩]
  find : ∀ name', find name' s' = if name' = name then .ok id else find name' s
  others : ∀ (q : Request) id', q.about? = some id' → id' ≠ id → (answer s' q).1 = (answer s q).1

end GraphStore

namespace TableStore

variable {s : TableStore}

/-- The answer to a request about a graph depends on its row and on those of definitions. -/
theorem answer_congr {s' : TableStore} {q : GraphStore.Request} {id : GraphId}
    (hid : q.about? = some id)
    (hrow : s'.row id = s.row id) (hfunctions : s'.functions = s.functions)
    (hcompositions : s'.compositions = s.compositions) :
    (GraphStore.answer s' q).1 = (GraphStore.answer s q).1 := by
  cases q with
  | save id' g =>
      obtain rfl : id' = id := Option.some.inj hid
      simp only [GraphStore.answer, GraphStore.save, hrow]
      cases s.row id' with
      | error fault => rfl
      | ok r => dsimp only; split <;> rfl
  | load id' =>
      obtain rfl : id' = id := Option.some.inj hid
      simp only [GraphStore.answer, GraphStore.load, hrow, readFunctions,
        readCompositions, hfunctions,
        hcompositions]
  | delete id' =>
      obtain rfl : id' = id := Option.some.inj hid
      simp only [GraphStore.answer, GraphStore.delete, hrow]
      cases s.row id' <;> rfl
  | function id' f =>
      obtain rfl : id' = id := Option.some.inj hid
      simp only [GraphStore.answer, GraphStore.function, hrow, hfunctions]
  | composition id' c =>
      obtain rfl : id' = id := Option.some.inj hid
      simp only [GraphStore.answer, GraphStore.composition, hrow, hcompositions]
  | functions id' =>
      obtain rfl : id' = id := Option.some.inj hid
      simp only [GraphStore.answer, GraphStore.functions, hrow, readFunctions, hfunctions]
  | create _ | list | importGraph _
  | find _ => exact absurd hid (by simp [GraphStore.Request.about?])

/-- A graph that is created is one without definitions. -/
theorem GivenOut.gainsEmpty_create (h : s.GivenOut) (name : String) :
    GraphStore.GainsEmpty ⟨s.lastId + 1⟩ name s (GraphStore.create name s).2 := by
  have hrow := h.row_create name
  have hfunctions : (GraphStore.create name s).2.readFunctions ⟨s.lastId + 1⟩ = .ok [] := by
    show (rowsOf ⟨s.lastId + 1⟩ s.functions).mapM _ = _
    rw [rowsOf_new h.functions]
    rfl
  have hcompositions : (GraphStore.create name s).2.readCompositions ⟨s.lastId + 1⟩ = .ok [] := by
    show (rowsOf ⟨s.lastId + 1⟩ s.compositions).mapM _ = _
    rw [rowsOf_new h.compositions]
    rfl
  have hlist : GraphStore.list (GraphStore.create name s).2 =
      GraphStore.list s ++ [⟨⟨s.lastId + 1⟩, name, 0, 0⟩] := by
    show (s.graphs ++ [(⟨⟨s.lastId + 1⟩, name⟩ : GraphRow)]).map _ = _
    rw [List.map_append]
    refine congrArg (s.graphs.map _ ++ [·]) ?_
    show GraphSummary.mk _ name (rowsOf _ s.functions).length (rowsOf _ s.compositions).length = _
    rw [rowsOf_new h.functions, rowsOf_new h.compositions]
    rfl
  constructor
  case missing =>
    simp only [GraphStore.load]
    rw [h.row_new]
    rfl
  case load =>
    simp only [GraphStore.load]
    rw [hrow, if_pos rfl, hfunctions, hcompositions]
    rfl
  case functions =>
    simp only [GraphStore.functions]
    rw [hrow, if_pos rfl, hfunctions]
    rfl
  case list => exact hlist
  case find =>
    intro name'
    rw [GraphStore.find, GraphStore.find, hlist, List.reverse_append, List.reverse_singleton,
      List.singleton_append,
      List.find?_cons]
    by_cases hname : name' = name
    · simp [hname]
    · simp only [beq_eq_false_iff_ne.2 (Ne.symm hname), if_neg hname]
  case others =>
    intro q id hid hne
    exact answer_congr hid (by rw [hrow, if_neg hne]) rfl rfl

/-- **When an import fails**: a graph without definitions stays behind. -/
theorem GivenOut.importGraph_cases (h : s.GivenOut) (g : Graph) :
    (g.Unambiguous ∧ (GraphStore.importGraph g s).1 = .ok ⟨s.lastId + 1⟩) ∨
    (¬ g.Unambiguous ∧ (GraphStore.importGraph g s).1 = .error .duplicateKey ∧
      GraphStore.GainsEmpty ⟨s.lastId + 1⟩ g.name s (GraphStore.importGraph g s).2) := by
  have hid : (GraphStore.create g.name s).1 = ⟨s.lastId + 1⟩ := rfl
  rw [GraphStore.importGraph]
  simp only [hid]
  rcases save_cases ⟨s.lastId + 1⟩ g (GraphStore.create g.name s).2 with
    ⟨-, hmissing⟩ | ⟨hsave, hg⟩ | ⟨hsave, hg, -⟩
  · rw [(h.gainsEmpty_create g.name).list] at hmissing
    exact absurd (by simp) hmissing
  · rw [hsave]
    exact .inr ⟨hg, rfl, h.gainsEmpty_create g.name⟩
  · rw [hsave]
    exact .inl ⟨hg, rfl⟩

end TableStore

namespace GraphStore

/-- **What saves and imports leave behind when they fail**, in every state to which requests lead.
A save fails if the graph is missing or if two definitions have one identity, and the store then is
as it was.  An import fails for the second reason alone, and the store then has gained a graph
without definitions. -/
theorem leaves_of_run {requests : List Request} {s : TableStore}
    (hs : (run requests (empty : TableStore)).2 = s) (g : Graph) :
    (∀ id,
      (save id g s = (.error (.graphNotFound id), s) ∧ id ∉ (list s).map (·.id)) ∨
      (save id g s = (.error .duplicateKey, s) ∧ ¬ g.Unambiguous) ∨
      ((save id g s).1 = .ok () ∧ g.Unambiguous ∧ id ∈ (list s).map (·.id))) ∧
    ((g.Unambiguous ∧ (importGraph g s).1 = .ok ⟨s.lastId + 1⟩) ∨
      (¬ g.Unambiguous ∧ (importGraph g s).1 = .error .duplicateKey ∧
        GainsEmpty ⟨s.lastId + 1⟩ g.name s (importGraph g s).2)) := by
  have hgiven : s.GivenOut := hs ▸ TableStore.givenOut_empty.run requests
  exact ⟨fun id => TableStore.save_cases id g s, hgiven.importGraph_cases g⟩

end GraphStore

namespace Sample

/-- Two functions have one identity inside of them. -/
def twins : Graph :=
  { Graph.empty "twins" with
    functions := [(⟨0⟩, .plain ⟨0⟩ "f" []), (⟨1⟩, .plain ⟨0⟩ "g" [])] }

end Sample

namespace GraphStore

/-- The graph that could not be imported is listed without definitions. -/
theorem leaves_of_run_sample :
    ¬ Sample.twins.Unambiguous ∧
    (importGraph Sample.twins (run [.importGraph Sample.idle] (empty : TableStore)).2).1 =
      .error .duplicateKey ∧
    list (importGraph Sample.twins (run [.importGraph Sample.idle] (empty : TableStore)).2).2
      = [⟨⟨1⟩, "idle", 1, 1⟩, ⟨⟨2⟩, "twins", 0, 0⟩] := by
  have htwins : ¬ Sample.twins.Unambiguous := fun h => absurd h.functionIds (by decide)
  obtain ⟨-, ⟨h, -⟩ | ⟨-, hfails, hgains⟩⟩ :=
    leaves_of_run (s := (run [.importGraph Sample.idle] empty).2) rfl Sample.twins
  · exact absurd h htwins
  · have hlist :
        list (run [.importGraph Sample.idle] (empty : TableStore)).2 = [⟨⟨1⟩, "idle", 1, 1⟩] := by
      decide +kernel
    refine ⟨htwins, hfails, hgains.list.trans ?_⟩
    rw [hlist]
    rfl

end GraphStore

end CallFlow
