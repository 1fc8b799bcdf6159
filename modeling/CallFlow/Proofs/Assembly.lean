import CallFlow.Proofs.Relocation
import Mathlib.Data.List.Perm.Basic

/-!
# The assembly of arguments

What a call is given, by the kinds of its parameters.  In a description without faults no two
parameters are of one kind (`Description.nodup_kinds`), so the kinds name what the inputs pass,
and neither the place of a parameter among the others nor that of its terminal matters
(`Terminals.assemble_by_kinds`).
-/

namespace CallFlow

/-! ## Kinds of parameters -/

namespace Description

theorem of_repeated?_cons {before rest : List Param} {p : Param}
    (h : repeated? before (p :: rest) = none) :
    (p.isVariadic = false → ∀ q ∈ before, q.kind ≠ p.kind) ∧
    repeated? (p :: before) rest = none := by
  rw [repeated?] at h
  split at h
  · exact absurd h (by simp)
  · cases hagain : before.any fun q => q.kind == p.kind with
    | false =>
        have hnew : ∀ q ∈ before, q.kind ≠ p.kind := by simpa using hagain
        refine ⟨fun _ => hnew, ?_⟩
        rw [hagain] at h
        cases hkind : p.kind <;> simpa [hkind] using h
    | true =>
        rw [hagain] at h
        cases hkind : p.kind with
        | positional _ | keyword _ => simp [hkind] at h
        | varPositional | varKeyword => simpa [hkind, Param.isVariadic] using h

theorem pairwise_of_repeated? {before ps : List Param} (h : repeated? before ps = none) :
    (∀ p ∈ ps, p.isVariadic = false → ∀ q ∈ before, q.kind ≠ p.kind) ∧
      ps.Pairwise fun q p => p.isVariadic = false → q.kind ≠ p.kind := by
  induction ps generalizing before with
  | nil => simp
  | cons p rest ih =>
      obtain ⟨hnew, hrest⟩ := of_repeated?_cons h
      obtain ⟨hlater, hpairwise⟩ := ih hrest
      refine ⟨List.forall_mem_cons.2 ⟨hnew, fun p' hp' hfixed q hq => ?_⟩,
        List.pairwise_cons.2 ⟨?_, hpairwise⟩⟩
      · exact hlater p' hp' hfixed q (List.mem_cons_of_mem _ hq)
      · exact fun p' hp' hfixed => hlater p' hp' hfixed p (List.mem_cons_self ..)

theorem pairwise_of_single {ps : List Param} {kind : ParamKind}
    (h : ¬ 1 < (ps.filter fun p => p.kind == kind).length) :
    ps.Pairwise fun q p => q.kind = kind → p.kind ≠ kind := by
  have hsingle : ∀ l : List Param, ¬ 1 < l.length → l.Pairwise fun _ _ => False
    | [], _ => .nil
    | [_], _ => List.pairwise_singleton ..
    | _ :: _ :: _, hlong => absurd (by simp) hlong
  exact (List.pairwise_filter.1 (hsingle _ h)).imp
    fun hnot hq hp => hnot (by simpa using hq) (by simpa using hp)

/-- No two parameters are of one kind: indices and keywords are unique, and so are the parameters
that collect. -/
theorem nodup_kinds {d : Description} (h : d.fault? = none) : (d.params.map Param.kind).Nodup := by
  unfold fault? at h
  split at h
  · exact absurd h (by simp)
  · rename_i hrepeated
    split at h
    · exact absurd h (by simp)
    · rename_i hpositional
      split at h
      · exact absurd h (by simp)
      · rename_i hkeyword
        have hfixed := (pairwise_of_repeated? hrepeated).2
        have hcollect := (pairwise_of_single hpositional).and (pairwise_of_single hkeyword)
        refine List.pairwise_map.2 ((hfixed.and hcollect).imp ?_)
        rintro q p ⟨hfixed, hpositional, hkeyword⟩ hsame
        cases hkind : p.kind with
        | positional _ | keyword _ => exact hfixed (by simp [Param.isVariadic, hkind]) hsame
        | varPositional => exact hpositional (hsame.trans hkind) hkind
        | varKeyword => exact hkeyword (hsame.trans hkind) hkind

end Description

/-! ## What inputs pass -/

/-- What an input passes on: what was written since the call last read it, else the default, else an
empty aggregate. -/
inductive Terminal.Passes (t : Terminal) (p : Param) : Value → Prop where
  | ingested {v : Value} (fresh : t.isFresh = true) (shown : t.peek = some v) : Passes t p v
  | default {c : Constant} (stale : t.isFresh = false) (declared : p.default = some c) :
      Passes t p (.ofConstant c)
  | noItems (stale : t.isFresh = false) (undeclared : p.default = none)
      (kind : p.kind = .varPositional) :
      Passes t p (.list [])
  | noEntries (stale : t.isFresh = false) (undeclared : p.default = none)
      (kind : p.kind = .varKeyword) :
      Passes t p (.map [])

theorem Terminal.value?_eq_some_iff {t : Terminal} {p : Param} {v : Value} :
    t.value? p = some v ↔ t.Passes p v := by
  constructor
  · intro h
    cases hfresh : t.isFresh with
    | true =>
        obtain ⟨u, hu⟩ := Cell.exists_peek_of_isFresh hfresh
        rw [value?, hfresh, if_pos rfl, show t.peek = some u from hu] at h
        obtain rfl := Option.some.inj h
        exact .ingested hfresh hu
    | false =>
        rw [value?, hfresh, if_neg (by simp), Option.none_or, Param.fallback?] at h
        split at h
        · rename_i c hdefault
          obtain rfl := Option.some.inj h
          exact .default hfresh hdefault
        · rename_i hdefault
          cases hkind : p.kind with
          | positional _ | keyword _ => simp [hkind] at h
          | varPositional =>
              obtain rfl : .list [] = v := by simpa [hkind] using h
              exact .noItems hfresh hdefault hkind
          | varKeyword =>
              obtain rfl : .map [] = v := by simpa [hkind] using h
              exact .noEntries hfresh hdefault hkind
  · rintro (⟨hfresh, hshown⟩ | ⟨hstale, hdeclared⟩ | ⟨hstale, hundeclared, hkind⟩ |
      ⟨hstale, hundeclared, hkind⟩)
    · simp [value?, hfresh, hshown]
    all_goals simp_all [value?, Param.fallback?]

theorem Terminal.Passes.unique {t : Terminal} {p : Param} {v v' : Value} (h : t.Passes p v)
    (h' : t.Passes p v') :
    v = v' :=
  Option.some.inj ((value?_eq_some_iff.2 h).symm.trans (value?_eq_some_iff.2 h'))

/-- Parameters with their terminals. -/
abbrev Inputs := List (Param × Terminal)

namespace Inputs

/-- A parameter of the kind is passed the value. -/
def Pass (inputs : Inputs) (kind : ParamKind) (v : Value) : Prop :=
  ∃ p t, (p, t) ∈ inputs ∧ p.kind = kind ∧ t.Passes p v

/-- The parameter of the kind collects these, or none is of the kind. -/
def Collect {α : Type} (inputs : Inputs) (kind : ParamKind) (make : List α → Value)
    (as : List α) : Prop :=
  inputs.Pass kind (make as) ∨ as = [] ∧ ∀ p t, (p, t) ∈ inputs → p.kind ≠ kind

/-- The kinds of the parameters. -/
def kinds (inputs : Inputs) : List ParamKind := inputs.map (·.1.kind)

variable {inputs inputs' : Inputs}

theorem Pass.perm (h : inputs.Perm inputs') {kind : ParamKind} {v : Value} :
    inputs.Pass kind v ↔ inputs'.Pass kind v := by
  simp only [Pass, h.mem_iff]

/-- What is passed to a kind is unique if the kind is. -/
theorem Pass.unique (hkinds : inputs.kinds.Nodup) {kind : ParamKind} {v v' : Value}
    (h : inputs.Pass kind v)
    (h' : inputs.Pass kind v') : v = v' := by
  obtain ⟨p, t, hinput, hkind, hv⟩ := h
  obtain ⟨p', t', hinput', hkind', hv'⟩ := h'
  obtain ⟨rfl, rfl⟩ :=
    Prod.mk.inj (List.inj_on_of_nodup_map hkinds hinput hinput' (hkind.trans hkind'.symm))
  exact hv.unique hv'

theorem Collect.unique {α : Type} {kind : ParamKind} {make : List α → Value}
    (hmake : Function.Injective make)
    (hkinds : inputs.kinds.Nodup) {as as' : List α} (h : inputs.Collect kind make as)
    (h' : inputs.Collect kind make as') : as = as' := by
  have hclash :
      ∀ {as : List α}, inputs.Pass kind (make as) → ¬ ∀ p t, (p, t) ∈ inputs → p.kind ≠ kind :=
    fun ⟨p, t, hinput, hkind, _⟩ hnone => hnone p t hinput hkind
  rcases h with h | ⟨rfl, hnone⟩ <;> rcases h' with h' | ⟨rfl, hnone'⟩
  · exact hmake (h.unique hkinds h')
  · exact absurd hnone' (hclash h)
  · exact absurd hnone (hclash h')
  · rfl

theorem Collect.perm {α : Type} (h : inputs.Perm inputs') {kind : ParamKind} {make : List α → Value}
    {as : List α} :
    inputs.Collect kind make as ↔ inputs'.Collect kind make as := by
  simp only [Collect, Pass.perm h, h.mem_iff]

end Inputs

/-! ## What is sorted -/

namespace Sorted

/-- What the parameter of a kind collects of what is given. -/
def Collected {α : Type} (given : Assoc ParamKind Value) (kind : ParamKind) (make : List α → Value)
    (as : List α) :
    Prop :=
  (kind, make as) ∈ given ∨ as = [] ∧ kind ∉ Assoc.keys given

/-- What was sorted is what is given to the kinds. -/
structure Holds (given : Assoc ParamKind Value) (s : Sorted) : Prop where
  positional : ∀ i v, (i, v) ∈ s.positional ↔ (.positional i, v) ∈ given
  indices : (s.positional.map (·.1)).Nodup
  keyword : ∀ name v, Assoc.find? s.keyword name = some v ↔ (.keyword name, v) ∈ given
  names : (Assoc.keys s.keyword).Nodup
  items : Collected given .varPositional .list s.items
  entries : Collected given .varKeyword .map s.entries

variable {given : Assoc ParamKind Value} {s s' : Sorted}

theorem holds_empty : Holds [] {} where
  positional := by simp
  indices := .nil
  keyword := by simp
  names := .nil
  items := .inr ⟨rfl, by simp [Assoc.keys]⟩
  entries := .inr ⟨rfl, by simp [Assoc.keys]⟩

theorem mem_snoc_of_ne {kind kind' : ParamKind} (hne : kind ≠ kind') {v v' : Value} :
    (kind, v) ∈ given ++ [(kind', v')] ↔ (kind, v) ∈ given := by
  simp [hne]

theorem Collected.snoc {α : Type} {kind kind' : ParamKind} {make : List α → Value} {as : List α}
    (h : Collected given kind make as) (hne : kind ≠ kind') (v : Value) :
    Collected (given ++ [(kind', v)]) kind make as := by
  refine h.imp (mem_snoc_of_ne hne).2 (And.imp_right fun hnone => ?_)
  rw [Assoc.keys, List.map_append, List.mem_append]
  exact not_or_intro hnone (by simpa using hne)

/-- The next parameter, of another kind than those before. -/
theorem Holds.add {p : Param} {t : Terminal} {v : Value} (h : s.Holds given)
    (hnew : p.kind ∉ Assoc.keys given)
    (hadd : s.add p t v = .ok s') : s'.Holds (given ++ [(p.kind, v)]) := by
  have hfresh : ∀ {v'}, (p.kind, v') ∉ given :=
    fun hmem => hnew (List.mem_map_of_mem (f := Prod.fst) hmem)
  unfold Sorted.add at hadd
  split at hadd
  · rename_i i hkind
    obtain rfl := Except.ok.inj hadd
    rw [hkind] at hfresh ⊢
    refine ⟨fun i' v' => ?_, ?_, fun name v' => ?_, h.names, h.items.snoc (by simp) v,
      h.entries.snoc (by simp) v⟩
    · simp [h.positional]
    · rw [List.map_append, List.map_singleton]
      refine List.nodup_append.2 ⟨h.indices, List.nodup_singleton _, fun i' hi' j hj => ?_⟩
      obtain ⟨⟨i', v'⟩, hmem, rfl⟩ := List.mem_map.1 hi'
      obtain rfl : j = i := List.mem_singleton.1 hj
      rintro rfl
      exact hfresh ((h.positional _ v').1 hmem)
    · rw [h.keyword, mem_snoc_of_ne (by simp)]
  · rename_i name hkind
    obtain rfl := Except.ok.inj hadd
    rw [hkind] at hfresh ⊢
    refine ⟨fun i v' => ?_, h.indices, fun name' v' => ?_, Assoc.nodup_keys_insert h.names ..,
      h.items.snoc (by simp) v,
      h.entries.snoc (by simp) v⟩
    · rw [h.positional, mem_snoc_of_ne (by simp)]
    · rw [Assoc.find?_insert]
      split
      · rename_i heq
        subst heq
        simpa [hfresh] using eq_comm
      · rename_i hne
        rw [h.keyword, mem_snoc_of_ne (by simpa using Ne.symm hne)]
  · rename_i hkind
    split at hadd
    · rename_i items
      obtain rfl := Except.ok.inj hadd
      rw [hkind]
      refine ⟨fun i v' => ?_, h.indices, fun name v' => ?_, h.names, .inl (by simp),
        h.entries.snoc (by simp) _⟩
      · rw [h.positional, mem_snoc_of_ne (by simp)]
      · rw [h.keyword, mem_snoc_of_ne (by simp)]
    · exact absurd hadd (by simp)
  · rename_i hkind
    split at hadd
    · rename_i entries
      obtain rfl := Except.ok.inj hadd
      rw [hkind]
      refine ⟨fun i v' => ?_, h.indices, fun name v' => ?_, h.names, h.items.snoc (by simp) _,
        .inl (by simp)⟩
      · rw [h.positional, mem_snoc_of_ne (by simp)]
      · rw [h.keyword, mem_snoc_of_ne (by simp)]
    · exact absurd hadd (by simp)

/-- The values of a list by the kinds of their parameters. -/
def givenBy (values : List ((Param × Terminal) × Value)) : Assoc ParamKind Value :=
  values.map fun entry => (entry.1.1.kind, entry.2)

/-- All parameters, of different kinds. -/
theorem Holds.addAll {values : List ((Param × Terminal) × Value)} (h : s.Holds given)
    (hkinds : (Assoc.keys (given ++ givenBy values)).Nodup) (hadd : s.addAll values = .ok s') :
    s'.Holds (given ++ givenBy values) := by
  induction values generalizing s given with
  | nil =>
      obtain rfl := Except.ok.inj hadd
      rwa [givenBy, List.map_nil, List.append_nil]
  | cons entry rest ih =>
      obtain ⟨⟨p, t⟩, v⟩ := entry
      have hsplit :
          given ++ givenBy (((p, t), v) :: rest) = given ++ [(p.kind, v)] ++ givenBy rest := by
        rw [List.append_assoc]
        rfl
      rw [hsplit] at hkinds ⊢
      rw [Sorted.addAll] at hadd
      split at hadd
      · rename_i s₁ hs₁
        have hnew : p.kind ∉ Assoc.keys given := by
          intro hmem
          rw [List.append_assoc, Assoc.keys, List.map_append, List.nodup_append] at hkinds
          exact hkinds.2.2 p.kind hmem p.kind (by simp) rfl
        exact ih (h.add hnew hs₁) hkinds hadd
      · exact absurd hadd (by simp)

end Sorted

/-! ## Arguments -/

/-- The arguments are what the inputs pass: positional ones in order of their indices and then what
is collected, and keyword ones unless an entry that is collected has their name.  Of collected
entries with one name the last counts. -/
structure Arguments.Of (inputs : Inputs) (args : Arguments) : Prop where
  passed : ∀ p t, (p, t) ∈ inputs → ∃ v, t.Passes p v
  positional : ∃ (fixed : List (UInt16 × Value)) (items : List Value),
    args.positional = fixed.map (·.2) ++ items ∧
    (fixed.Pairwise fun a b => a.1 < b.1) ∧
    (∀ i v, (i, v) ∈ fixed ↔ inputs.Pass (.positional i) v) ∧
    inputs.Collect .varPositional .list items
  keyword : ∃ entries, inputs.Collect .varKeyword .map entries ∧ (Assoc.keys args.keyword).Nodup ∧
    ∀ name v, Assoc.find? args.keyword name = some v ↔
      Assoc.find? (Assoc.ofList entries) name = some v ∨
      Assoc.find? (Assoc.ofList entries) name = none ∧ inputs.Pass (.keyword name) v

namespace Arguments

variable {inputs inputs' : Inputs} {args args' : Arguments}

/-- What was sorted makes the arguments. -/
theorem of_holds {given : Assoc ParamKind Value} {s : Sorted} (h : s.Holds given)
    (hpassed : ∀ p t, (p, t) ∈ inputs → ∃ v, t.Passes p v)
    (hgiven : ∀ kind v, (kind, v) ∈ given ↔ inputs.Pass kind v) (receiver : Option Value) :
    (s.arguments receiver).Of inputs := by
  have hnone :
      ∀ {kind : ParamKind}, kind ∉ Assoc.keys given → ∀ p t, (p, t) ∈ inputs → p.kind ≠ kind := by
    rintro _ hnew p t hinput rfl
    obtain ⟨v, hv⟩ := hpassed p t hinput
    exact hnew (List.mem_map_of_mem (f := Prod.fst) ((hgiven _ v).2 ⟨p, t, hinput, rfl, hv⟩))
  have hcollect : ∀ {α : Type} {kind : ParamKind} {make : List α → Value} {as : List α},
      Sorted.Collected given kind make as → inputs.Collect kind make as :=
    fun hc => hc.imp (hgiven _ _).1 (And.imp_right hnone)
  refine ⟨hpassed, ⟨s.positional.mergeSort indexLe, s.items, rfl, ?_, fun i v => ?_,
    hcollect h.items⟩,
    s.entries, hcollect h.entries, Assoc.nodup_keys_insertAll h.names _, fun name v => ?_⟩
  · have hsorted : (s.positional.mergeSort indexLe).Pairwise fun a b => a.1.toNat ≤ b.1.toNat :=
      Assoc.pairwise_mergeSort_rank (fun entry : UInt16 × Value => entry.1.toNat) s.positional
    have hnodup : (s.positional.mergeSort indexLe).Pairwise fun a b => a.1 ≠ b.1 :=
      List.pairwise_map.1 (((List.mergeSort_perm s.positional indexLe).map _).nodup_iff.2 h.indices)
    exact (hsorted.and hnodup).imp fun ⟨hle, hne⟩ =>
      UInt16.lt_iff_toNat_lt.2 (Nat.lt_of_le_of_ne hle fun heq => hne (UInt16.toNat_inj.1 heq))
  · rw [List.mem_mergeSort, h.positional, hgiven]
  · rw [Sorted.arguments, Assoc.find?_insertAll, Option.or_eq_some_iff, h.keyword, hgiven]

theorem eq_of_pairwise_fst_lt {α : Type} {as as' : List (UInt16 × α)}
    (h : as.Pairwise fun a b => a.1 < b.1)
    (h' : as'.Pairwise fun a b => a.1 < b.1) (hmem : ∀ a, a ∈ as ↔ a ∈ as') : as = as' := by
  have : Std.Irrefl fun a b : UInt16 × α => a.1 < b.1 := ⟨fun a => UInt16.lt_irrefl a.1⟩
  have : Std.Antisymm fun a b : UInt16 × α => a.1 < b.1 :=
    ⟨fun a b hlt hgt => absurd (UInt16.lt_trans hlt hgt) (UInt16.lt_irrefl a.1)⟩
  exact h.eq_of_mem_iff h' hmem

/-- Positional arguments, and what is there for every keyword, do not depend on the order of the
inputs. -/
theorem Of.congr (h : args.Of inputs) (h' : args'.Of inputs') (hperm : inputs'.Perm inputs)
    (hkinds : inputs.kinds.Nodup) : args'.positional = args.positional ∧
      ∀ name, Assoc.find? args'.keyword name = Assoc.find? args.keyword name := by
  constructor
  · obtain ⟨fixed, items, heq, hsorted, hmem, hitems⟩ := h.positional
    obtain ⟨fixed', items', heq', hsorted', hmem', hitems'⟩ := h'.positional
    have hfixed : fixed' = fixed := by
      refine eq_of_pairwise_fst_lt hsorted' hsorted fun entry => ?_
      rw [hmem', hmem, Inputs.Pass.perm hperm]
    have hsame : items' = items :=
      ((Inputs.Collect.perm hperm).1 hitems').unique (fun _ _ => Value.list.inj) hkinds hitems
    rw [heq, heq', hfixed, hsame]
  · obtain ⟨entries, hentries, -, hfind⟩ := h.keyword
    obtain ⟨entries', hentries', -, hfind'⟩ := h'.keyword
    obtain rfl : entries' = entries :=
      ((Inputs.Collect.perm hperm).1 hentries').unique (fun _ _ => Value.map.inj) hkinds hentries
    refine fun name => Option.ext fun v => ?_
    rw [hfind, hfind', Inputs.Pass.perm hperm]

end Arguments

/-! ## Assembling -/

/-- A parameter that collects needs a value of its shape. -/
def ParamKind.Admits : ParamKind → Value → Prop
  | .positional _, _ | .keyword _, _ => True
  | .varPositional, v => ∃ items, v = .list items
  | .varKeyword, v => ∃ entries, v = .map entries

theorem Sorted.exists_add_iff {s : Sorted} {p : Param} {t : Terminal} {v : Value} :
    (∃ s', s.add p t v = .ok s') ↔ p.kind.Admits v := by
  unfold Sorted.add
  cases p.kind with
  | positional _ | keyword _ => simp [ParamKind.Admits]
  | varPositional | varKeyword => cases v <;> simp [ParamKind.Admits]

theorem Sorted.exists_addAll_iff {s : Sorted} {values : List ((Param × Terminal) × Value)} :
    (∃ s', s.addAll values = .ok s') ↔ ∀ entry ∈ values, entry.1.1.kind.Admits entry.2 := by
  induction values generalizing s with
  | nil => simp [addAll]
  | cons entry rest ih =>
      obtain ⟨⟨p, t⟩, v⟩ := entry
      rw [List.forall_mem_cons, ← exists_add_iff (s := s) (t := t), addAll]
      cases s.add p t v with
      | error fault => simp
      | ok s₁ => simp [ih]

namespace Inputs

variable {inputs inputs' : Inputs} {values : List Value}

/-- The inputs pass the values, each of a shape that its parameter admits. -/
def Give (inputs : Inputs) (values : List Value) : Prop :=
  List.Forall₂ (fun input v => input.2.Passes input.1 v ∧ input.1.kind.Admits v) inputs values

theorem Give.admits (h : inputs.Give values) :
    ∀ entry ∈ inputs.zip values, entry.1.1.kind.Admits entry.2 := by
  intro entry hentry
  exact (List.forall₂_iff_zip.1 h).2 hentry |>.2

theorem Give.exists_pass (h : inputs.Give values) {p : Param} {t : Terminal}
    (hinput : (p, t) ∈ inputs) :
    ∃ v, t.Passes p v := by
  induction h with
  | nil => exact absurd hinput (by simp)
  | cons hv _ ih =>
      rcases List.mem_cons.1 hinput with rfl | hinput
      · exact ⟨_, hv.1⟩
      · exact ih hinput

theorem pass_cons {p : Param} {t : Terminal} {kind : ParamKind} {v : Value} :
    Pass ((p, t) :: inputs) kind v ↔ p.kind = kind ∧ t.Passes p v ∨ inputs.Pass kind v := by
  constructor
  · rintro ⟨p', t', hinput, hkind, hv⟩
    rcases List.mem_cons.1 hinput with heq | hinput
    · obtain ⟨rfl, rfl⟩ := Prod.mk.inj heq
      exact .inl ⟨hkind, hv⟩
    · exact .inr ⟨p', t', hinput, hkind, hv⟩
  · rintro (⟨hkind, hv⟩ | ⟨p', t', hinput, hkind, hv⟩)
    · exact ⟨p, t, List.mem_cons_self .., hkind, hv⟩
    · exact ⟨p', t', List.mem_cons_of_mem _ hinput, hkind, hv⟩

/-- The values by kind are what the inputs pass. -/
theorem Give.mem_iff (h : inputs.Give values) {kind : ParamKind} {v : Value} :
    (kind, v) ∈ Sorted.givenBy (inputs.zip values) ↔ inputs.Pass kind v := by
  induction h with
  | nil => exact iff_of_false (by simp [Sorted.givenBy])
             fun ⟨_, _, hinput, _⟩ => absurd hinput (by simp)
  | @cons input w inputs values hw _ ih =>
      obtain ⟨p, t⟩ := input
      rw [pass_cons, ← ih]
      have hhead : (kind, v) = (p.kind, w) ↔ p.kind = kind ∧ t.Passes p v := by
        rw [Prod.mk.injEq, eq_comm]
        exact and_congr_right fun _ => ⟨fun heq => heq ▸ hw.1, fun hv => hv.unique hw.1⟩
      rw [← hhead]
      exact List.mem_cons

theorem Give.keys (h : inputs.Give values) :
    Assoc.keys (Sorted.givenBy (inputs.zip values)) = inputs.kinds := by
  have hfst : (inputs.zip values).map Prod.fst = inputs := List.map_fst_zip h.length_eq.le
  rw [Assoc.keys, Sorted.givenBy, List.map_map, kinds]
  conv_rhs => rw [← hfst, List.map_map]
  rfl

theorem Give.perm (h : inputs.Give values) (hperm : inputs'.Perm inputs) :
    ∃ values', inputs'.Give values' := by
  obtain ⟨values', hvalues', -⟩ := List.perm_comp_forall₂ hperm h
  exact ⟨values', hvalues'⟩

/-- What is sorted of the inputs makes arguments of them. -/
theorem Give.arguments (h : inputs.Give values) (hkinds : inputs.kinds.Nodup) {s : Sorted}
    (hs : Sorted.addAll {} (inputs.zip values) = .ok s) (receiver : Option Value) :
    (s.arguments receiver).Of inputs := by
  have hholds : s.Holds (Sorted.givenBy (inputs.zip values)) := by
    refine Sorted.holds_empty.addAll ?_ hs
    rw [List.nil_append, h.keys]
    exact hkinds
  exact Arguments.of_holds hholds (fun _ _ => h.exists_pass) (fun _ _ => h.mem_iff) receiver

end Inputs

namespace Terminals

variable {ts ts' : Terminals} {d : Description} {site : Site} {args : Arguments}

/-- What arguments are assembled from. -/
theorem exists_give_of_assemble (h : ts.assemble d site = (.ok args, ts')) :
    ts' = ts.consumeInputs ∧ ∃ values receiver s, Inputs.Give (d.params.zip ts.params) values ∧
      ts.receiverValue? d = some receiver ∧
      Sorted.addAll {} ((d.params.zip ts.params).zip values) = .ok s ∧
      args = s.arguments receiver := by
  obtain ⟨hts', ⟨values, receiver⟩, s, hresolved, hs, rfl⟩ := assemble_eq_ok h
  obtain ⟨hvalues, hreceiver⟩ := resolveAll_eq_ok_iff.1 hresolved
  refine ⟨hts', values, receiver, s, ?_, hreceiver, hs, rfl⟩
  have hadmits := Sorted.exists_addAll_iff.1 ⟨s, hs⟩
  obtain ⟨hlength, hpasses⟩ := List.forall₂_iff_zip.1 hvalues
  exact List.forall₂_iff_zip.2 ⟨hlength,
    fun hmem => ⟨Terminal.value?_eq_some_iff.1 (hpasses hmem), hadmits _ hmem⟩⟩

/-- Inputs that give what is admitted are assembled. -/
theorem exists_assemble_of_give (ts : Terminals) (d : Description) (site : Site)
    {values : List Value}
    {receiver : Option Value}
    (hvalues : Inputs.Give (d.params.zip ts.params) values)
    (hreceiver : ts.receiverValue? d = some receiver) :
    ∃ s, Sorted.addAll {} ((d.params.zip ts.params).zip values) = .ok s ∧
      ts.assemble d site = (.ok (s.arguments receiver), ts.consumeInputs) := by
  obtain ⟨s, hs⟩ := (Sorted.exists_addAll_iff (s := {})).2 hvalues.admits
  have hresolved : ts.resolveAll d site = .ok (values, receiver) :=
    resolveAll_eq_ok_iff.2 ⟨hvalues.imp fun _ _ hv => Terminal.value?_eq_some_iff.2 hv.1, hreceiver⟩
  refine ⟨s, hs, ?_⟩
  rw [assemble, hresolved]
  simp only [hs]
  rfl

/-- What the receiver passes, where one is declared. -/
theorem receiverValue?_eq_some_iff (hreceiver : ts.receiver.isSome = d.receiver.isSome)
    {receiver : Option Value} :
    ts.receiverValue? d = some receiver ↔ receiver.isSome = d.receiver.isSome ∧
      ∀ v ∈ receiver, ∃ p t, d.receiver = some p ∧ ts.receiver = some t ∧ t.Passes p v := by
  unfold receiverValue?
  cases hp : d.receiver with
  | none => cases receiver <;> simp
  | some p =>
      rw [hp] at hreceiver
      obtain ⟨t, ht⟩ := Option.isSome_iff_exists.1 hreceiver
      rw [ht]
      cases receiver <;> simp [Terminal.value?_eq_some_iff]

/-- **The assembly of arguments**, for a description without faults and any state of its terminals.
Arguments that are assembled are what the inputs pass, the receiver apart, and all inputs are
consumed.  They are assembled in whatever order the parameters and their terminals stand, and are
the same then. -/
theorem assemble_by_kinds (hvalid : d.fault? = none) (hparams : ts.params.length = d.params.length)
    (hreceiver : ts.receiver.isSome = d.receiver.isSome)
    (h : ts.assemble d site = (.ok args, ts')) :
    args.Of (d.params.zip ts.params) ∧
    (args.receiver.isSome = d.receiver.isSome ∧
      ∀ v ∈ args.receiver, ∃ p t, d.receiver = some p ∧ ts.receiver = some t ∧ t.Passes p v) ∧
    (ts' = ts.consumeInputs ∧ ts'.EachInput fun t => t.cell.consumed = true) ∧
    ∀ inputs : Inputs, inputs.Perm (d.params.zip ts.params) → ∃ args',
      assemble { ts with params := inputs.map (·.2) } { d with params := inputs.map (·.1) } site =
        (.ok args', consumeInputs { ts with params := inputs.map (·.2) }) ∧
      args'.positional = args.positional ∧
      (∀ name, Assoc.find? args'.keyword name = Assoc.find? args.keyword name) ∧
      args'.receiver = args.receiver := by
  obtain ⟨rfl, values, receiver, s, hvalues, hresolved, hs, rfl⟩ := exists_give_of_assemble h
  have hkinds : Inputs.kinds (d.params.zip ts.params) |>.Nodup := by
    have hfst : (d.params.zip ts.params).map Prod.fst = d.params := List.map_fst_zip hparams.ge
    have hmap : Inputs.kinds (d.params.zip ts.params) = d.params.map Param.kind := by
      conv_rhs => rw [← hfst, List.map_map]
      rfl
    exact hmap ▸ Description.nodup_kinds hvalid
  have hof := hvalues.arguments hkinds hs receiver
  refine ⟨hof, (receiverValue?_eq_some_iff hreceiver).1 hresolved, ⟨rfl, ?_⟩,
    fun inputs hperm => ?_⟩
  · refine ⟨fun t ht => ?_, fun t ht => ?_⟩
    · obtain ⟨u, -, rfl⟩ := List.mem_map.1 ht
      rfl
    · obtain ⟨u, -, rfl⟩ := Option.map_eq_some_iff.1 ht
      rfl
  · obtain ⟨values', hvalues'⟩ := hvalues.perm hperm
    have hzip : (inputs.map (·.1)).zip (inputs.map (·.2)) = inputs :=
      (List.zip_of_prod rfl rfl).symm
    have hkinds' : inputs.kinds.Nodup := (hperm.map _).nodup_iff.2 hkinds
    obtain ⟨s', hs', hassemble⟩ := exists_assemble_of_give { ts with params := inputs.map (·.2) }
      { d with params := inputs.map (·.1) } site (hzip.symm ▸ hvalues') hresolved
    rw [hzip] at hs'
    obtain ⟨hpositional, hkeyword⟩ :=
      hof.congr (hvalues'.arguments hkinds' hs' receiver) hperm hkinds
    exact ⟨_, hassemble, hpositional, hkeyword, rfl⟩

end Terminals

namespace Sample

/-- A function with parameters of every kind, which are not in the order of their indices. -/
def join : Description := .plain ⟨0⟩ "join"
  [⟨"b", .any, .positional 9, none⟩, ⟨"sep", .str, .keyword "sep", some (.str ",")⟩,
    ⟨"end", .str, .keyword "end", some (.str ".")⟩, ⟨"a", .any, .positional 4, none⟩,
    ⟨"rest", .any, .varPositional, none⟩, ⟨"extra", .any, .varKeyword, none⟩]

/-- Terminals of the function.  No keyword is given, but there is an entry in the place of one. -/
def joined : Terminals where
  params := [(Terminal.ofVariable "b").holding (.int 2), .ofVariable "sep", .ofVariable "end",
    (Terminal.ofVariable "a").holding (.int 1),
    (Terminal.ofVariable "rest").holding (.list [.int 3]),
    (Terminal.ofVariable "extra").holding (.map [("sep", .str ";")])]
  receiver := none
  output := .ofVariable "result"
  selfOutput := none

end Sample

/-- With parameters and terminals in the reverse order the arguments are the same. -/
theorem Terminals.assemble_by_kinds_sample :
    ∃ args args',
      Sample.joined.assemble Sample.join (.entry ⟨0⟩) = (.ok args, Sample.joined.consumeInputs) ∧
      args.Of (Sample.join.params.zip Sample.joined.params) ∧
      args.positional = [.int 1, .int 2, .int 3] ∧
      args.keyword = [("sep", .str ";"), ("end", .str ".")] ∧
      (assemble { Sample.joined with params := Sample.joined.params.reverse }
        { Sample.join with params := Sample.join.params.reverse } (.entry ⟨0⟩)).1 = .ok args' ∧
      args'.positional = args.positional ∧
      ∀ name, Assoc.find? args'.keyword name = Assoc.find? args.keyword name := by
  have hassemble :
      Sample.joined.assemble Sample.join (.entry ⟨0⟩) = (.ok _, Sample.joined.consumeInputs) := rfl
  obtain ⟨hof, -, -, hany⟩ := assemble_by_kinds (by decide) rfl rfl hassemble
  obtain ⟨args', hreverse, hpositional, hkeyword, -⟩ := hany _ (List.reverse_perm _)
  refine ⟨_, args', hassemble, hof, ?_, rfl, congrArg Prod.fst hreverse, hpositional, hkeyword⟩
  show (List.mergeSort [(9, .int 2), (4, .int 1)] indexLe).map Prod.snd ++ [.int 3] = _
  simp [List.mergeSort, indexLe]

end CallFlow
