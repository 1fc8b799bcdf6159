import CallFlow.Codec.Graph
import CallFlow.Json.Parser
import CallFlow.Json.Printer
import CallFlow.Proofs.Assoc
import CallFlow.Store.Basic
import Mathlib.Data.List.Nodup

/-!
# What a store of graphs does

The simplest store has a volume under each identity that is in use: the name of the graph that was
saved last, and its functions and compositions in order of their identities (`Shelf`).  What it
answers is said by that alone.  So it is a specification, and shares no operation with the stores
that are compared to it.

A store simulates the shelf if a relation between its states and shelves is kept by every
operation, under which the operation has the same result (`GraphStore.Simulates`).  Such a store
gives the answers of the shelf to every sequence of requests (`GraphStore.Simulates.run`).
Whatever is said of identities, of graphs that were saved or deleted and of names is shown of the
shelf alone (`GraphStore.Simulates.conforms`).
-/

namespace CallFlow

/-! ## Requests and answers -/

namespace GraphStore

/-- A request to a store. -/
inductive Request where
  | create (name : String)
  | save (id : GraphId) (g : Graph)
  | load (id : GraphId)
  | delete (id : GraphId)
  | list
  | function (id : GraphId) (f : FunctionId)
  | composition (id : GraphId) (c : CompositionId)
  | functions (id : GraphId)
  | importGraph (g : Graph)
  | find (name : String)

/-- The answer to a request. -/
inductive Answer where
  /-- The identity of a graph that was created or imported. -/
  | given (result : Except StoreFault GraphId)
  | done (result : Except StoreFault Unit)
  | graph (result : Except StoreFault Graph)
  | graphs (summaries : List GraphSummary)
  | function (result : Except StoreFault Description)
  | composition (result : Except StoreFault Composition)
  | functions (result : Except StoreFault (List Description))
  | found (result : Except StoreFault GraphId)

/-- The identity that was given out, if one was. -/
def Answer.given? : Answer → Option GraphId
  | .given (.ok id) => some id
  | _ => none

/-- The graph that the request is about. -/
def Request.about? : Request → Option GraphId
  | .save id _ | .load id | .delete id | .function id _ | .composition id _
  | .functions id => some id
  | .create _ | .list | .importGraph _ | .find _ => none

/-- The graph that the request changes or makes, if its answer is the given one. -/
def Request.changed? : Request → Answer → Option GraphId
  | .save id _, _ | .delete id, _ => some id
  | .create _, a | .importGraph _, a => a.given?
  | _, _ => none

section

variable {σ : Type} [GraphStore σ]

/-- What a store answers, and the store afterwards. -/
def answer (s : σ) : Request → Answer × σ
  | .create name => (.given (.ok (create name s).1), (create name s).2)
  | .save id g => (.done (save id g s).1, (save id g s).2)
  | .load id => (.graph (load id s), s)
  | .delete id => (.done (delete id s).1, (delete id s).2)
  | .list => (.graphs (list s), s)
  | .function id f => (.function (function id f s), s)
  | .composition id c => (.composition (composition id c s), s)
  | .functions id => (.functions (functions id s), s)
  | .importGraph g => (.given (importGraph g s).1, (importGraph g s).2)
  | .find name => (.found (find name s), s)

/-- What a store answers to one request after the other, and the store afterwards. -/
def run : List Request → σ → List Answer × σ
  | [], s => ([], s)
  | r :: rest, s =>
      ((answer s r).1 :: (run rest (answer s r).2).1, (run rest (answer s r).2).2)

end

end GraphStore

/-! ## Volumes -/

/-- What is remembered of a graph: its name, and its definitions in order of the identities inside
them. -/
structure Volume where
  name : String
  functions : List Description := []
  compositions : List Composition := []

namespace Volume

/-- The volume of a graph. -/
def of (g : Graph) : Volume where
  name := g.name
  functions := (g.functions.map (·.2)).mergeSort fun d d' => decide (d.id.val ≤ d'.id.val)
  compositions := (g.compositions.map (·.2)).mergeSort fun c c' => decide (c.id.val ≤ c'.id.val)

/-- One past the greatest of the words that are used.  The one past the greatest word is zero. -/
def nextWord (used : List Nat) : Nat := ((used.map fun n => (n + 1) % UInt32.size).max?).getD 0

/-- The graph of a volume: its definitions, each under the identity inside it. -/
def graph (v : Volume) : Graph where
  name := v.name
  functions := v.functions.map fun d => (d.id, d)
  compositions := v.compositions.map fun c => (c.id, c)
  nextFunction := nextWord (v.functions.map (·.id.val))
  nextComposition := nextWord (v.compositions.map (·.id.val))
  nextCall := nextWord ((v.compositions.flatMap (·.calls)).map (·.id.val))

/-- Is the composition the body of the function that it represents, if it represents one? -/
def isBody (v : Volume) (c : Composition) : Bool :=
  c.represents.all fun f => v.functions.any fun d => d.id == f && d.body == some c.id

/-- The first composition that is not the body of the function that it represents, as a fault. -/
def misfit? (v : Volume) : Option AssemblyFault :=
  v.compositions.findSome? fun c =>
    if v.isBody c then none else c.represents.map (.notItsBody c.id)

/-- What is loaded of a volume: its graph, if all bodies fit and the graph passes its check. -/
def restore (v : Volume) : Except StoreFault Graph :=
  match v.misfit?, v.graph.check with
  | some fault, _ => .error (.notAssembled fault)
  | none, .error fault => .error (.notAssembled (.graph fault))
  | none, .ok () => .ok v.graph

/-- What a list of graphs says about the volume. -/
def summary (v : Volume) (id : GraphId) : GraphSummary :=
  ⟨id, v.name, v.functions.length, v.compositions.length⟩

theorem restore_eq_ok_iff {v : Volume} {g : Graph} : v.restore = .ok g ↔
    g = v.graph ∧ v.misfit? = none ∧ g.check = .ok () := by
  unfold restore
  split
  · rename_i hmisfit
    simp [hmisfit]
  · rename_i hmisfit hcheck
    constructor
    · exact fun h => absurd h (by simp)
    · rintro ⟨rfl, -, hok⟩
      exact absurd (hcheck.symm.trans hok) (by simp)
  · rename_i hmisfit hcheck
    constructor
    · intro h
      obtain rfl := Except.ok.inj h
      exact ⟨rfl, hmisfit, hcheck⟩
    · rintro ⟨rfl, -, -⟩
      rfl

theorem misfit?_eq_none_iff {v : Volume} :
    v.misfit? = none ↔ ∀ c ∈ v.compositions, v.isBody c = true := by
  rw [misfit?, List.findSome?_eq_none_iff]
  refine forall₂_congr fun c _ => ?_
  cases hbody : v.isBody c with
  | true => simp
  | false =>
      cases hrepresents : c.represents with
      | none => simp [isBody, hrepresents] at hbody
      | some f => simp

end Volume

/-! ## The shelf -/

/-- The simplest store: a volume under each identity that is in use. -/
structure Shelf where
  /-- How many identities were given out. -/
  last : Nat := 0
  volumes : GraphId → Option Volume := fun _ => none

namespace Shelf

/-- The first identities, beginning with one. -/
def ids (n : Nat) : List GraphId := (List.range n).map fun (i : Nat) => ⟨(i : Int) + 1⟩

/-- The identities in use, in order. -/
def live (s : Shelf) : List GraphId := (ids s.last).filter fun id => (s.volumes id).isSome

/-- The volume under an identity that is in use. -/
def found (s : Shelf) (id : GraphId) : Except StoreFault Volume :=
  match s.volumes id with
  | some v => .ok v
  | none => .error (.graphNotFound id)

/-- Puts a volume under an identity, or takes away the one that is there. -/
def put (s : Shelf) (id : GraphId) (v : Option Volume) : Shelf :=
  { s with volumes := fun id' => if id' = id then v else s.volumes id' }

/-- Puts a volume under an identity that was not given out. -/
def add (v : Volume) (s : Shelf) : GraphId × Shelf :=
  (⟨s.last + 1⟩, { s.put ⟨s.last + 1⟩ (some v) with last := s.last + 1 })

/-- Changes a volume that is there, or takes it away. -/
def change (id : GraphId) (v : Option Volume) (s : Shelf) : Except StoreFault Unit × Shelf :=
  match s.volumes id with
  | some _ => (.ok (), s.put id v)
  | none => (.error (.graphNotFound id), s)

/-- The last graph with the name. -/
def find (name : String) (s : Shelf) : Except StoreFault GraphId :=
  match (s.live.filter fun id => (s.volumes id).any (·.name == name)).getLast? with
  | some id => .ok id
  | none => .error (.nameNotFound name)

/-- All graphs, in order of their identities. -/
def list (s : Shelf) : List GraphSummary :=
  s.live.filterMap fun id => (s.volumes id).map (·.summary id)

/-- The function with the identity. -/
def function (id : GraphId) (f : FunctionId) (s : Shelf) : Except StoreFault Description := do
  match (← s.found id).functions.find? fun d => d.id == f with
  | some d => .ok d
  | none => .error (.functionNotFound id f)

/-- The composition with the identity. -/
def composition (id : GraphId) (c : CompositionId) (s : Shelf) : Except StoreFault Composition := do
  match (← s.found id).compositions.find? fun d => d.id == c with
  | some d => .ok d
  | none => .error (.compositionNotFound id c)

open GraphStore in
/-- What the shelf answers to a request, and the shelf afterwards. -/
def answer (s : Shelf) : Request → Answer × Shelf
  | .create name => (.given (.ok (s.add { name }).1), (s.add { name }).2)
  | .importGraph g => (.given (.ok (s.add (.of g)).1), (s.add (.of g)).2)
  | .save id g => (.done (s.change id (some (.of g))).1, (s.change id (some (.of g))).2)
  | .delete id => (.done (s.change id none).1, (s.change id none).2)
  | .load id => (.graph (s.found id >>= Volume.restore), s)
  | .list => (.graphs s.list, s)
  | .function id f => (.function (s.function id f), s)
  | .composition id c => (.composition (s.composition id c), s)
  | .functions id => (.functions ((s.found id).map (·.functions)), s)
  | .find name => (.found (s.find name), s)

open GraphStore in
/-- What the shelf answers to one request after the other, and the shelf afterwards. -/
def run : List Request → Shelf → List Answer × Shelf
  | [], s => ([], s)
  | r :: rest, s =>
      ((s.answer r).1 :: (run rest (s.answer r).2).1, (run rest (s.answer r).2).2)

variable {s a a' : Shelf} {id id' : GraphId} {v w : Volume} {v? : Option Volume}

theorem volumes_put : (s.put id v?).volumes id' = if id' = id then v? else s.volumes id' := rfl

theorem found_eq_ok : s.found id = .ok v ↔ s.volumes id = some v := by
  unfold found
  cases s.volumes id <;> simp

theorem change_of_found (h : a.volumes id = some v) (v? : Option Volume) :
    a.change id v? = (.ok (), a.put id v?) := by
  rw [change, h]

theorem change_of_not_found (h : a.volumes id = none) (v? : Option Volume) :
    a.change id v? = (.error (.graphNotFound id), a) := by
  rw [change, h]

/-- A volume that was just added can be changed at once. -/
theorem change_add (a : Shelf) (v w : Volume) :
    (a.add v).2.change (a.add v).1 (some w) = (.ok (), (a.add w).2) := by
  have hadded : (a.add v).2.volumes (a.add v).1 = some v := if_pos rfl
  rw [change_of_found hadded]
  refine Prod.ext rfl (congrArg (Shelf.mk (a.last + 1)) (funext fun id => ?_))
  show (if id = ⟨a.last + 1⟩ then some w else if id = ⟨a.last + 1⟩ then some v else a.volumes id) =
    if id = ⟨a.last + 1⟩ then some w else a.volumes id
  split <;> rfl

/-! ### Identities in use -/

theorem mem_ids {n : Nat} : id ∈ ids n ↔ 1 ≤ id.val ∧ id.val ≤ n := by
  rw [ids, List.mem_map]
  obtain ⟨val⟩ := id
  show _ ↔ 1 ≤ val ∧ val ≤ n
  constructor
  · rintro ⟨i, hi, heq⟩
    have hless : i < n := List.mem_range.1 hi
    have hval : (i : Int) + 1 = val := congrArg GraphId.val heq
    omega
  · rintro ⟨hpos, hle⟩
    refine ⟨(val - 1).toNat, List.mem_range.2 (by omega), ?_⟩
    show GraphId.mk _ = GraphId.mk val
    congr 1
    omega

/-- Identities are listed in increasing order. -/
theorem pairwise_ids (n : Nat) : (ids n).Pairwise fun id id' => id.val < id'.val := by
  rw [ids, List.pairwise_map]
  refine List.pairwise_lt_range.imp fun {i j} hij => ?_
  show (i : Int) + 1 < j + 1
  omega

theorem pairwise_live (s : Shelf) : s.live.Pairwise fun id id' => id.val < id'.val :=
  (pairwise_ids s.last).filter _

theorem nodup_live (s : Shelf) : s.live.Nodup := by
  refine s.pairwise_live.imp fun {id id'} hless heq => ?_
  subst heq
  exact absurd hless (Int.lt_irrefl _)

theorem live_add (s : Shelf) (v : Volume) : (s.add v).2.live = s.live ++ [⟨s.last + 1⟩] := by
  have hnew : ((s.put ⟨s.last + 1⟩ (some v)).volumes ⟨s.last + 1⟩).isSome = true := by simp [put]
  have hold : (ids s.last).filter (fun id => ((s.put ⟨s.last + 1⟩ (some v)).volumes id).isSome)
      = s.live := by
    refine List.filter_congr fun id hid => ?_
    have hne : id ≠ ⟨s.last + 1⟩ := by
      rintro rfl
      have hle : ((s.last : Int) + 1) ≤ s.last := (mem_ids.1 hid).2
      omega
    simp [put, hne]
  show (ids (s.last + 1)).filter _ = _
  rw [ids, List.range_succ, List.map_append, List.filter_append]
  exact congrArg₂ (· ++ ·) hold (List.filter_cons_of_pos hnew)

theorem live_put (h : s.volumes id = some v) (w : Volume) : (s.put id (some w)).live = s.live := by
  refine List.filter_congr fun id' _ => ?_
  by_cases hid : id' = id <;> simp [put, hid, h]

theorem live_erase (s : Shelf) (id : GraphId) :
    (s.put id none).live = s.live.filter fun id' => id' != id := by
  rw [live, live, List.filter_filter]
  refine List.filter_congr fun id' _ => ?_
  by_cases hid : id' = id <;> simp [put, hid]

end Shelf

/-! ## Graphs that can be stored -/

/-- The graph can be stored as text: no two functions and no two compositions have one identity
inside of them, and the texts of all definitions read back to them. -/
structure Graph.Storable (g : Graph) : Prop where
  functionIds : ((Assoc.values g.functions).map (·.id)).Nodup
  compositionIds : ((Assoc.values g.compositions).map (·.id)).Nodup
  functionTexts : ∀ d ∈ Assoc.values g.functions,
    (Json.Piece.parse? d.toJson.compact).bind Description.ofPiece? = some d
  compositionTexts : ∀ c ∈ Assoc.values g.compositions,
    (Json.Piece.parse? c.toJson.compact).bind Composition.ofPiece? = some c

/-- The graphs that the request saves can be stored as text. -/
def GraphStore.Request.Storable : Request → Prop
  | .save _ g | .importGraph g => g.Storable
  | _ => True

/-- Definitions that are sorted by identities, of which none is there twice, have increasing
ones. -/
theorem pairwise_mergeSort_of_nodup {α : Type} (rank : α → Nat) {definitions : List α}
    (h : (definitions.map rank).Nodup) :
    (definitions.mergeSort fun d d' => decide (rank d ≤ rank d')).Pairwise
      fun d d' => rank d < rank d' := by
  have hsorted := Assoc.pairwise_mergeSort_rank rank definitions
  have hdistinct : ((definitions.mergeSort fun d d' => decide (rank d ≤ rank d')).map rank).Nodup :=
    ((List.mergeSort_perm ..).map rank).nodup_iff.2 h
  refine (hsorted.and (List.pairwise_map.1 hdistinct)).imp fun ⟨hle, hne⟩ => ?_
  exact Nat.lt_of_le_of_ne hle hne

/-- The definition with an identity is found if no two have it. -/
theorem find?_eq_some_iff_of_distinct {α κ : Type} [DecidableEq κ] (key : α → κ)
    {definitions : List α}
    (h : definitions.Pairwise fun d d' => key d ≠ key d') {k : κ} {d : α} :
    definitions.find? (fun d => key d == k) = some d ↔ d ∈ definitions ∧ key d = k := by
  induction definitions with
  | nil => simp
  | cons first rest ih =>
      obtain ⟨hfirst, hrest⟩ := List.pairwise_cons.1 h
      by_cases hk : key first = k
      · rw [List.find?_cons_of_pos (by simpa using hk), Option.some.injEq]
        constructor
        · rintro rfl
          exact ⟨List.mem_cons_self .., hk⟩
        · rintro ⟨hd, hkey⟩
          refine (List.mem_cons.1 hd).elim Eq.symm fun hd => ?_
          exact absurd (hk.trans hkey.symm) (hfirst d hd)
      · rw [List.find?_cons_of_neg (by simpa using hk), ih hrest, List.mem_cons]
        refine and_congr_left fun hkey => (or_iff_right fun heq => hk ?_).symm
        rw [← heq, hkey]

namespace Volume

/-- The definitions are in order of the identities inside of them, and no two have one identity. -/
structure Increasing (v : Volume) : Prop where
  functions : v.functions.Pairwise fun d d' => d.id.val < d'.id.val
  compositions : v.compositions.Pairwise fun c c' => c.id.val < c'.id.val

theorem increasing_nil (name : String) : ({ name } : Volume).Increasing := ⟨.nil, .nil⟩

theorem increasing_of {g : Graph} (hg : g.Storable) : (Volume.of g).Increasing where
  functions := by
    refine pairwise_mergeSort_of_nodup (fun d : Description => d.id.val) ?_
    have hnodup := hg.functionIds.map (f := FunctionId.val) fun ⟨_⟩ ⟨_⟩ h => congrArg _ h
    rwa [List.map_map] at hnodup
  compositions := by
    refine pairwise_mergeSort_of_nodup (fun c : Composition => c.id.val) ?_
    have hnodup := hg.compositionIds.map (f := CompositionId.val) fun ⟨_⟩ ⟨_⟩ h => congrArg _ h
    rwa [List.map_map] at hnodup

theorem Increasing.distinctFunctions {v : Volume} (h : v.Increasing) :
    v.functions.Pairwise fun d d' => d.id ≠ d'.id := by
  refine h.functions.imp fun {d d'} hless heq => ?_
  rw [heq] at hless
  exact Nat.lt_irrefl _ hless

theorem Increasing.distinctCompositions {v : Volume} (h : v.Increasing) :
    v.compositions.Pairwise fun c c' => c.id ≠ c'.id := by
  refine h.compositions.imp fun {c c'} hless heq => ?_
  rw [heq] at hless
  exact Nat.lt_irrefl _ hless

theorem perm_functions_of (g : Graph) : (Volume.of g).functions.Perm (Assoc.values g.functions) :=
  List.mergeSort_perm ..

theorem perm_compositions_of (g : Graph) :
    (Volume.of g).compositions.Perm (Assoc.values g.compositions) :=
  List.mergeSort_perm ..

/-- The body of a function that a composition represents names the composition. -/
theorem isBody_iff {v : Volume} {c : Composition} : v.isBody c = true ↔
    ∀ f, c.represents = some f → ∃ d ∈ v.functions, d.id = f ∧ d.body = some c.id := by
  unfold isBody
  cases c.represents <;> simp

/-- What is loaded of the volume of a graph, in terms of the graph. -/
theorem restore_of_eq_ok_iff {g g' : Graph} : (Volume.of g).restore = .ok g' ↔
    g' = (Volume.of g).graph ∧
    (∀ c ∈ Assoc.values g.compositions, ∀ f, c.represents = some f →
      ∃ d ∈ Assoc.values g.functions, d.id = f ∧ d.body = some c.id) ∧
    g'.check = .ok () := by
  simp only [restore_eq_ok_iff, misfit?_eq_none_iff, isBody_iff, (perm_functions_of g).mem_iff,
    (perm_compositions_of g).mem_iff]

end Volume

/-! ## What is true of the shelf -/

namespace Shelf

open GraphStore

variable {s a a' : Shelf} {id id' : GraphId} {v w : Volume} {r q : Request}

/-- Only identities that were given out are in use, and all volumes are in order. -/
structure Fits (s : Shelf) : Prop where
  given : ∀ id v, s.volumes id = some v → id ∈ s.live
  increasing : ∀ id v, s.volumes id = some v → v.Increasing

theorem fits_empty : ({} : Shelf).Fits :=
  ⟨fun _ _ hv => absurd hv (by simp), fun _ _ hv => absurd hv (by simp)⟩

theorem Fits.ne_new (h : s.Fits) (hid : s.volumes id = some v) : id ≠ ⟨s.last + 1⟩ := by
  rintro rfl
  have hle : (s.last : Int) + 1 ≤ s.last := (mem_ids.1 (List.mem_filter.1 (h.given _ v hid)).1).2
  omega

theorem Fits.add (h : s.Fits) (hv : v.Increasing) : (s.add v).2.Fits := by
  have hcases : ∀ id' w, (s.add v).2.volumes id' = some w →
      id' = ⟨s.last + 1⟩ ∧ v = w ∨ s.volumes id' = some w := by
    intro id' w hw
    have hput : (s.put ⟨s.last + 1⟩ (some v)).volumes id' = some w := hw
    rw [volumes_put] at hput
    split at hput
    · exact .inl ⟨‹_›, Option.some.inj hput⟩
    · exact .inr hput
  constructor
  · intro id' w hw
    rw [live_add]
    rcases hcases id' w hw with ⟨rfl, -⟩ | hold
    · exact List.mem_append_right _ (List.mem_singleton_self _)
    · exact List.mem_append_left _ (h.given id' w hold)
  · intro id' w hw
    rcases hcases id' w hw with ⟨-, rfl⟩ | hold
    · exact hv
    · exact h.increasing id' w hold

theorem Fits.put (h : s.Fits) (hid : s.volumes id = some v) (hw : w.Increasing) :
    (s.put id (some w)).Fits := by
  constructor
  · intro id' u hu
    rw [live_put hid]
    rw [volumes_put] at hu
    split at hu
    · rename_i heq
      rw [heq]
      exact h.given id v hid
    · exact h.given id' u hu
  · intro id' u hu
    rw [volumes_put] at hu
    split at hu
    · exact Option.some.inj hu ▸ hw
    · exact h.increasing id' u hu

theorem Fits.erase (h : s.Fits) (id : GraphId) : (s.put id none).Fits := by
  constructor
  · intro id' u hu
    rw [live_erase]
    rw [volumes_put] at hu
    split at hu
    · exact absurd hu (by simp)
    · rename_i hne
      exact List.mem_filter.2 ⟨h.given id' u hu, by simpa using hne⟩
  · intro id' u hu
    rw [volumes_put] at hu
    split at hu
    · exact absurd hu (by simp)
    · exact h.increasing id' u hu

/-- A change leaves all other graphs as they are. -/
theorem volumes_change (v? : Option Volume) (hne : id' ≠ id) :
    (a.change id' v?).2.volumes id = a.volumes id := by
  cases hid : a.volumes id' with
  | none => rw [change_of_not_found hid]
  | some v => rw [change_of_found hid, volumes_put, if_neg (Ne.symm hne)]

/-- A request leaves all graphs as they are but the one that it changes. -/
theorem volumes_answer (h : r.changed? (a.answer r).1 ≠ some id) :
    (a.answer r).2.volumes id = a.volumes id := by
  have hadd : ∀ v : Volume, some (a.add v).1 ≠ some id → (a.add v).2.volumes id = a.volumes id :=
    fun v hne => if_neg fun heq => hne (congrArg some heq.symm)
  cases r with
  | create name => exact hadd _ h
  | importGraph g => exact hadd _ h
  | save id' g => exact volumes_change _ fun heq => h (congrArg some heq)
  | delete id' => exact volumes_change _ fun heq => h (congrArg some heq)
  | load _ | list | function _ _ | composition _ _ | functions _ | find _ => rfl

/-- The answer to a request about a graph depends on that graph. -/
theorem answer_congr (hid : q.about? = some id) (h : a.volumes id = a'.volumes id) :
    (a.answer q).1 = (a'.answer q).1 := by
  have hfound : a.found id = a'.found id := by rw [found, found, h]
  have hchange : ∀ v?, (a.change id v?).1 = (a'.change id v?).1 := by
    intro v?
    cases hv : a.volumes id with
    | none => rw [change_of_not_found hv, change_of_not_found (h.symm.trans hv)]
    | some v => rw [change_of_found hv, change_of_found (h.symm.trans hv)]
  cases q with
  | save id' g | delete id' =>
      obtain rfl : id' = id := Option.some.inj hid
      exact congrArg Answer.done (hchange _)
  | load id' | functions id' =>
      obtain rfl : id' = id := Option.some.inj hid
      simp only [answer, hfound]
  | function id' f =>
      obtain rfl : id' = id := Option.some.inj hid
      simp only [answer, function, hfound]
  | composition id' c =>
      obtain rfl : id' = id := Option.some.inj hid
      simp only [answer, composition, hfound]
  | create _ | list | importGraph _ | find _ => exact absurd hid (by simp [Request.about?])

/-! ### Lists of graphs -/

theorem mem_list {g : GraphSummary} (h : a.Fits) :
    g ∈ a.list ↔ ∃ v, a.volumes g.id = some v ∧ g = v.summary g.id := by
  rw [list, List.mem_filterMap]
  constructor
  · rintro ⟨id, -, hg⟩
    obtain ⟨v, hv, rfl⟩ := Option.map_eq_some_iff.1 hg
    exact ⟨v, hv, rfl⟩
  · rintro ⟨v, hv, hg⟩
    exact ⟨g.id, h.given g.id v hv, by rw [hv, Option.map_some, ← hg]⟩

/-- The identities of graphs with a name are those of the list. -/
theorem map_id_list (a : Shelf) (name : String) : (a.list.filter (·.name == name)).map (·.id) =
    a.live.filter fun id => (a.volumes id).any (·.name == name) := by
  rw [list]
  induction a.live with
  | nil => rfl
  | cons id rest ih =>
      cases hv : a.volumes id with
      | none => simpa [hv] using ih
      | some v => by_cases hname : v.name = name <;> simpa [hv, hname, Volume.summary] using ih

/-- The last graph with a name is the last one in the list that has it. -/
theorem getLast?_live (a : Shelf) (name : String) :
    (a.live.filter fun id => (a.volumes id).any (·.name == name)).getLast? =
      (a.list.reverse.find? fun g => g.name == name).map (·.id) := by
  rw [← map_id_list, List.getLast?_map, ← List.head?_filter, List.filter_reverse,
    List.head?_reverse]

/-- **The graph that is found by its name** is the one of greatest identity that has it now. -/
theorem find_cases (a : Shelf) (name : String) :
    (∃ g ∈ a.list, a.find name = .ok g.id ∧ g.name = name ∧
      ∀ g' ∈ a.list, g'.name = name → g'.id.val ≤ g.id.val) ∨
    (a.find name = .error (.nameNotFound name) ∧ ∀ g ∈ a.list, g.name ≠ name) := by
  have hsorted : (a.list.filter (·.name == name)).Pairwise fun g g' => g.id.val < g'.id.val := by
    rw [← List.pairwise_map (f := GraphSummary.id) (R := fun id id' : GraphId => id.val < id'.val),
      map_id_list]
    exact a.pairwise_live.filter _
  rw [find, ← map_id_list, List.getLast?_map]
  cases hlast : (a.list.filter (·.name == name)).getLast? with
  | none =>
      refine .inr ⟨rfl, fun g hg hname => ?_⟩
      rw [List.getLast?_eq_none_iff, List.filter_eq_nil_iff] at hlast
      exact hlast g hg (by simpa using hname)
  | some g =>
      obtain ⟨before, hsplit⟩ := List.getLast?_eq_some_iff.1 hlast
      have hg : g ∈ a.list.filter (·.name == name) := by simp [hsplit]
      obtain ⟨hmem, hname⟩ := List.mem_filter.1 hg
      refine .inl ⟨g, hmem, rfl, by simpa using hname, fun g' hg' hname' => ?_⟩
      have hg'' : g' ∈ before ++ [g] :=
        hsplit ▸ List.mem_filter.2 ⟨hg', by simpa using hname'⟩
      rw [hsplit] at hsorted
      rcases List.mem_append.1 hg'' with hg' | hg'
      · exact Int.le_of_lt ((List.pairwise_append.1 hsorted).2.2 g' hg' g (by simp))
      · exact Int.le_of_eq (by rw [List.mem_singleton.1 hg'])

/-! ### Identities that are given out -/

theorem last_change (a : Shelf) (id : GraphId) (v? : Option Volume) :
    (a.change id v?).2.last = a.last := by
  cases hid : a.volumes id with
  | none => rw [change_of_not_found hid]
  | some v => rw [change_of_found hid]; rfl

theorem last_answer (a : Shelf) (r : Request) :
    ((a.answer r).1.given? = some ⟨a.last + 1⟩ ∧ (a.answer r).2.last = a.last + 1) ∨
    ((a.answer r).1.given? = none ∧ (a.answer r).2.last = a.last) := by
  cases r with
  | create name => exact .inl ⟨rfl, rfl⟩
  | importGraph g => exact .inl ⟨rfl, rfl⟩
  | save id g => exact .inr ⟨rfl, a.last_change id _⟩
  | delete id => exact .inr ⟨rfl, a.last_change id _⟩
  | load _ | list | function _ _ | composition _ _ | functions _ | find _ => exact .inr ⟨rfl, rfl⟩

/-- Identities that are given out are greater than all before. -/
theorem pairwise_given (requests : List Request) (a : Shelf) :
    ((run requests a).1.filterMap Answer.given?).Pairwise (fun id id' => id.val < id'.val) ∧
    ∀ id ∈ (run requests a).1.filterMap Answer.given?, (a.last : Int) < id.val := by
  induction requests generalizing a with
  | nil => exact ⟨.nil, fun id hid => absurd hid (by simp [run])⟩
  | cons r rest ih =>
      obtain ⟨hpairwise, hgreater⟩ := ih (a.answer r).2
      rw [run, List.filterMap_cons]
      rcases last_answer a r with ⟨hgiven, hlast⟩ | ⟨hgiven, hlast⟩
      · rw [hlast] at hgreater
        rw [hgiven]
        refine ⟨List.pairwise_cons.2 ⟨fun id hid => ?_, hpairwise⟩, fun id hid => ?_⟩
        · have hless := hgreater id hid
          show (a.last : Int) + 1 < id.val
          omega
        · rcases List.mem_cons.1 hid with rfl | hid
          · show (a.last : Int) < a.last + 1
            omega
          · have hless := hgreater id hid
            omega
      · rw [hlast] at hgreater
        rw [hgiven]
        exact ⟨hpairwise, hgreater⟩

theorem volumes_erase (a : Shelf) (id : GraphId) : (a.change id none).2.volumes id = none := by
  cases hid : a.volumes id with
  | none => rw [change_of_not_found hid, hid]
  | some v => rw [change_of_found hid, volumes_put, if_pos rfl]

/-- After a change that succeeds the new volume is there. -/
theorem volumes_of_change (h : (a.change id (some w)).1 = .ok ()) :
    (a.change id (some w)).2.volumes id = some w := by
  cases hid : a.volumes id with
  | none => rw [change_of_not_found hid] at h; cases h
  | some v => rw [change_of_found hid, volumes_put, if_pos rfl]

end Shelf

/-! ## Simulation -/

namespace GraphStore

/-- A relation between stores and shelves which every operation keeps and under which it has the
result that it has on the shelf. -/
structure Simulates (σ : Type) [GraphStore σ] (Shows : σ → Shelf → Prop) : Prop where
  empty : Shows empty {}
  fits : ∀ {s a}, Shows s a → a.Fits
  create : ∀ {s a}, Shows s a → ∀ name,
    (create name s).1 = (a.add { name }).1 ∧ Shows (create name s).2 (a.add { name }).2
  save : ∀ {s a}, Shows s a → ∀ id {g : Graph}, g.Storable →
    (save id g s).1 = (a.change id (some (.of g))).1 ∧
      Shows (save id g s).2 (a.change id (some (.of g))).2
  load : ∀ {s a}, Shows s a → ∀ id, load id s = a.found id >>= Volume.restore
  delete : ∀ {s a}, Shows s a → ∀ id,
    (delete id s).1 = (a.change id none).1 ∧ Shows (delete id s).2 (a.change id none).2
  list : ∀ {s a}, Shows s a → list s = a.list
  function : ∀ {s a}, Shows s a → ∀ id f, function id f s = a.function id f
  composition : ∀ {s a}, Shows s a → ∀ id c, composition id c s = a.composition id c
  functions : ∀ {s a}, Shows s a → ∀ id, functions id s = (a.found id).map (·.functions)

section

variable {σ : Type} [GraphStore σ] {Shows : σ → Shelf → Prop} {s : σ} {a : Shelf}

theorem Simulates.find (h : Simulates σ Shows) (hs : Shows s a) (name : String) :
    find name s = a.find name := by
  rw [GraphStore.find, h.list hs, Shelf.find, a.getLast?_live]
  cases a.list.reverse.find? fun g => g.name == name <;> rfl

/-- An import is a creation and a save, and on the shelf one step. -/
theorem Simulates.importGraph (h : Simulates σ Shows) (hs : Shows s a) {g : Graph}
    (hg : g.Storable) :
    (importGraph g s).1 = .ok (a.add (.of g)).1 ∧ Shows (importGraph g s).2 (a.add (.of g)).2 := by
  obtain ⟨hid, hcreated⟩ := h.create hs g.name
  obtain ⟨hresult, hsaved⟩ := h.save hcreated (GraphStore.create g.name s).1 hg
  have hchange : (a.add { name := g.name }).2.change (GraphStore.create g.name s).1 (some (.of g))
      = (.ok (), (a.add (.of g)).2) := by
    rw [hid]
    exact a.change_add _ _
  rw [hchange] at hresult hsaved
  refine ⟨?_, hsaved⟩
  exact (congrArg (Except.map fun _ => (GraphStore.create g.name s).1) hresult).trans
    (congrArg Except.ok hid)

/-- **A store answers a request as the shelf does.** -/
theorem Simulates.answer (h : Simulates σ Shows) (hs : Shows s a) {r : Request} (hr : r.Storable) :
    (answer s r).1 = (a.answer r).1 ∧ Shows (answer s r).2 (a.answer r).2 := by
  cases r with
  | create name =>
      exact ⟨congrArg (fun id => Answer.given (.ok id)) (h.create hs name).1, (h.create hs name).2⟩
  | save id g => exact ⟨congrArg Answer.done (h.save hs id hr).1, (h.save hs id hr).2⟩
  | load id => exact ⟨congrArg Answer.graph (h.load hs id), hs⟩
  | delete id => exact ⟨congrArg Answer.done (h.delete hs id).1, (h.delete hs id).2⟩
  | list => exact ⟨congrArg Answer.graphs (h.list hs), hs⟩
  | function id f => exact ⟨congrArg Answer.function (h.function hs id f), hs⟩
  | composition id c => exact ⟨congrArg Answer.composition (h.composition hs id c), hs⟩
  | functions id => exact ⟨congrArg Answer.functions (h.functions hs id), hs⟩
  | importGraph g => exact ⟨congrArg Answer.given (h.importGraph hs hr).1, (h.importGraph hs hr).2⟩
  | find name => exact ⟨congrArg Answer.found (h.find hs name), hs⟩

theorem Simulates.run (h : Simulates σ Shows) {requests : List Request}
    (hrequests : ∀ r ∈ requests, r.Storable) (hs : Shows s a) :
    (run requests s).1 = (a.run requests).1 ∧ Shows (run requests s).2 (a.run requests).2 := by
  induction requests generalizing s a with
  | nil => exact ⟨rfl, hs⟩
  | cons r rest ih =>
      obtain ⟨hanswer, hnext⟩ := h.answer hs (hrequests r (by simp))
      obtain ⟨hanswers, hlast⟩ := ih (fun r' hr' => hrequests r' (List.mem_cons_of_mem _ hr')) hnext
      exact ⟨congrArg₂ List.cons hanswer hanswers, hlast⟩

end

/-! ## Stores that conform -/

/-- Whatever a store is asked of an identity, it answers from the name and the definitions of the
graph. -/
structure Holds {σ : Type} [GraphStore σ] (s : σ) (id : GraphId) (g : Graph) : Prop where
  listed : ⟨id, g.name, g.functions.length, g.compositions.length⟩ ∈ GraphStore.list s
  /-- All functions are listed, in order of their identities. -/
  functions : ∃ ds, GraphStore.functions id s = .ok ds ∧ ds.Perm (Assoc.values g.functions) ∧
    ds.Pairwise fun d d' => d.id.val < d'.id.val
  function : ∀ f d, GraphStore.function id f s = .ok d ↔ d ∈ Assoc.values g.functions ∧ d.id = f
  noFunction : ∀ f, (∀ d ∈ Assoc.values g.functions, d.id ≠ f) →
    GraphStore.function id f s = .error (.functionNotFound id f)
  composition :
      ∀ i c, GraphStore.composition id i s = .ok c ↔ c ∈ Assoc.values g.compositions ∧ c.id = i
  noComposition : ∀ i, (∀ c ∈ Assoc.values g.compositions, c.id ≠ i) →
    GraphStore.composition id i s = .error (.compositionNotFound id i)
  /-- What is loaded is the graph of the definitions, if bodies fit and it passes its check. -/
  load : ∀ g', GraphStore.load id s = .ok g' ↔ g' = (Volume.of g).graph ∧
    (∀ c ∈ Assoc.values g.compositions, ∀ f, c.represents = some f →
      ∃ d ∈ Assoc.values g.functions, d.id = f ∧ d.body = some c.id) ∧
    g'.check = .ok ()

/-- A store that shows the volume of a graph holds the graph. -/
theorem Simulates.holds {σ : Type} [GraphStore σ] {Shows : σ → Shelf → Prop} {s : σ} {a : Shelf}
    (h : Simulates σ Shows) (hs : Shows s a) {id : GraphId} {g : Graph} (hg : g.Storable)
    (hid : a.volumes id = some (.of g)) : Holds s id g := by
  have hincreasing := Volume.increasing_of hg
  have hfound : a.found id = .ok (.of g) := Shelf.found_eq_ok.2 hid
  constructor
  case listed =>
    rw [h.list hs, Shelf.mem_list (h.fits hs)]
    exact ⟨_, hid, by simp [Volume.summary, Volume.of]⟩
  case functions =>
    rw [h.functions hs, hfound]
    exact ⟨_, rfl, Volume.perm_functions_of g, hincreasing.functions⟩
  case function =>
    intro f d
    rw [h.function hs, Shelf.function, hfound, ← (Volume.perm_functions_of g).mem_iff,
      ← find?_eq_some_iff_of_distinct Description.id hincreasing.distinctFunctions]
    simp only [bind, Except.bind]
    cases (Volume.of g).functions.find? fun d => d.id == f <;> simp
  case noFunction =>
    intro f hnone
    have hfind : ((Volume.of g).functions.find? fun d => d.id == f) = none :=
      List.find?_eq_none.2 fun d hd => by
        simpa using hnone d ((Volume.perm_functions_of g).mem_iff.1 hd)
    simp only [h.function hs, Shelf.function, hfound, bind, Except.bind, hfind]
  case composition =>
    intro i c
    rw [h.composition hs, Shelf.composition, hfound, ← (Volume.perm_compositions_of g).mem_iff,
      ← find?_eq_some_iff_of_distinct Composition.id hincreasing.distinctCompositions]
    simp only [bind, Except.bind]
    cases (Volume.of g).compositions.find? fun c => c.id == i <;> simp
  case noComposition =>
    intro i hnone
    have hfind : ((Volume.of g).compositions.find? fun c => c.id == i) = none :=
      List.find?_eq_none.2 fun c hc => by
        simpa using hnone c ((Volume.perm_compositions_of g).mem_iff.1 hc)
    simp only [h.composition hs, Shelf.composition, hfound, bind, Except.bind, hfind]
  case load =>
    intro g'
    rw [h.load hs, hfound]
    exact Volume.restore_of_eq_ok_iff

/-- What can be said of a store that was empty before the requests. -/
structure Conforms (σ : Type) [GraphStore σ] (requests : List Request) : Prop where
  /-- Every answer is that of the shelf. -/
  answers : (run requests (empty : σ)).1 = (Shelf.run requests {}).1
  /-- Identities that are given out increase, whatever was deleted in between. -/
  increasing : ((run requests (empty : σ)).1.filterMap Answer.given?).Pairwise
    fun id id' => id.val < id'.val
  /-- A graph that is saved is held from then on, and so is one that is imported. -/
  saved : ∀ id (g : Graph), g.Storable → (save id g (run requests (empty : σ)).2).1 = .ok () →
    Holds (save id g (run requests (empty : σ)).2).2 id g
  imported : ∀ g : Graph, g.Storable →
    ∃ id, (importGraph g (run requests (empty : σ)).2).1 = .ok id ∧
      Holds (importGraph g (run requests (empty : σ)).2).2 id g
  /-- A further request changes no answer about another graph. -/
  frame : ∀ r q : Request, r.Storable → q.Storable → ∀ id, q.about? = some id →
    r.changed? (answer (run requests (empty : σ)).2 r).1 ≠ some id →
    (answer (answer (run requests (empty : σ)).2 r).2 q).1 =
      (answer (run requests (empty : σ)).2 q).1
  /-- Nor does it change what is listed of another graph. -/
  listed : ∀ r : Request, r.Storable → ∀ g : GraphSummary,
    r.changed? (answer (run requests (empty : σ)).2 r).1 ≠ some g.id →
    (g ∈ list (answer (run requests (empty : σ)).2 r).2 ↔ g ∈ list (run requests (empty : σ)).2)
  /-- A graph that is deleted is not found and not listed. -/
  deleted : ∀ id, load id (delete id (run requests (empty : σ)).2).2 = .error (.graphNotFound id) ∧
    ∀ g ∈ list (delete id (run requests (empty : σ)).2).2, g.id ≠ id
  /-- The graph that is found by its name is the one of greatest identity that has it now. -/
  find : ∀ name,
    (∃ g ∈ list (run requests (empty : σ)).2, find name (run requests (empty : σ)).2 = .ok g.id ∧
      g.name = name ∧
      ∀ g' ∈ list (run requests (empty : σ)).2, g'.name = name → g'.id.val ≤ g.id.val) ∨
    (find name (run requests (empty : σ)).2 = .error (.nameNotFound name) ∧
      ∀ g ∈ list (run requests (empty : σ)).2, g.name ≠ name)

/-- **A store that simulates the shelf conforms.** -/
theorem Simulates.conforms {σ : Type} [GraphStore σ] {Shows : σ → Shelf → Prop}
    (h : Simulates σ Shows) {requests : List Request} (hrequests : ∀ r ∈ requests, r.Storable) :
    Conforms σ requests := by
  obtain ⟨hanswers, hshows⟩ := h.run hrequests h.empty
  have hfits := h.fits hshows
  constructor
  case answers => exact hanswers
  case increasing =>
    rw [hanswers]
    exact (Shelf.pairwise_given requests _).1
  case saved =>
    intro id g hg hok
    obtain ⟨hresult, hnext⟩ := h.save hshows id hg
    exact h.holds hnext hg (Shelf.volumes_of_change (hresult ▸ hok))
  case imported =>
    intro g hg
    obtain ⟨hresult, hnext⟩ := h.importGraph hshows hg
    exact ⟨_, hresult, h.holds hnext hg (if_pos rfl)⟩
  case frame =>
    intro r q hr hq id hid hne
    obtain ⟨hanswer, hnext⟩ := h.answer hshows hr
    rw [(h.answer hnext hq).1, (h.answer hshows hq).1]
    rw [hanswer] at hne
    exact Shelf.answer_congr hid (Shelf.volumes_answer hne)
  case listed =>
    intro r hr g hne
    obtain ⟨hanswer, hnext⟩ := h.answer hshows hr
    rw [hanswer] at hne
    rw [h.list hnext, h.list hshows, Shelf.mem_list (h.fits hnext), Shelf.mem_list hfits,
      Shelf.volumes_answer hne]
  case deleted =>
    intro id
    obtain ⟨-, hnext⟩ := h.delete hshows id
    have hnone := Shelf.volumes_erase (Shelf.run requests {}).2 id
    constructor
    · rw [h.load hnext, Shelf.found, hnone]
      rfl
    · intro g hg heq
      rw [h.list hnext, Shelf.mem_list (h.fits hnext)] at hg
      obtain ⟨v, hv, -⟩ := hg
      rw [heq] at hv
      exact absurd (hnone.symm.trans hv) (by simp)
  case find =>
    intro name
    rw [h.find hshows, h.list hshows]
    exact Shelf.find_cases _ name

end GraphStore

end CallFlow
