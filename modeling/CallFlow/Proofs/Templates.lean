import CallFlow.Proofs.Arithmetic
import CallFlow.Proofs.Assoc
import CallFlow.Proofs.Except

/-!
# Templates

A template whose braces match is text with holes (`Template`), and what `format` makes of it is
the text with the values in the holes (`Template.Renders`).  It fails if a hole has no value, and
for every other template (`Registry.formats_standard`).

A text has no hole, a hole that is not closed, or a first hole with text behind it.  So a round of
filling ends the text, fails, or leaves the text behind the hole (`Host.fill_of_not_mem`,
`Host.fill_of_unclosed`, `Host.fill_hole`), and what holds of a course of rounds follows by
induction on holes (`Text.induction_on_holes`).
-/

namespace CallFlow

/-! ## Texts with holes -/

namespace Text

/-- Every text is made of text without holes, or of an open hole behind it, by putting holes in
front. -/
theorem induction_on_holes {motive : List Char → Prop} (text : List Char)
    (plain : ∀ text, '\x7b' ∉ text → motive text)
    (unclosed : ∀ before behind, '\x7b' ∉ before → '\x7d' ∉ behind →
      motive (before ++ '\x7b' :: behind))
    (hole : ∀ before name rest, '\x7b' ∉ before → '\x7d' ∉ name → motive rest →
      motive (before ++ '\x7b' :: (name ++ '\x7d' :: rest))) : motive text := by
  match hopen : cutAt '\x7b' text with
  | none => exact plain text (cutAt_eq_none_iff.1 hopen)
  | some (before, opened) =>
      obtain ⟨hbefore, htext⟩ := cutAt_eq_some_iff.1 hopen
      match hclose : cutAt '\x7d' opened with
      | none => exact htext ▸ unclosed before opened hbefore (cutAt_eq_none_iff.1 hclose)
      | some (name, rest) =>
          obtain ⟨hname, hopened⟩ := cutAt_eq_some_iff.1 hclose
          have hrest := induction_on_holes rest plain unclosed hole
          exact htext ▸ hopened ▸ hole before name rest hbefore hname hrest
termination_by text.length
decreasing_by exact Host.length_behind_lt hopen hclose

/-- Behind every opening brace there is a closing one. -/
def Closes (text : List Char) : Prop := ∀ behind, '\x7b' :: behind <:+ text → '\x7d' ∈ behind

theorem closes_of_not_mem {text : List Char} (h : '\x7b' ∉ text) : Closes text :=
  fun _ hbehind => absurd (hbehind.subset (.head _)) h

/-- A closing brace closes whatever is open before it. -/
theorem Closes.append {rest : List Char} (h : Closes rest) (hclose : '\x7d' ∈ rest)
    (before : List Char) :
    Closes (before ++ rest) := by
  induction before with
  | nil => exact h
  | cons c before ih =>
      intro behind hbehind
      obtain heq | hbehind := List.suffix_cons_iff.1 hbehind
      · obtain ⟨-, rfl⟩ := List.cons.inj heq
        exact List.mem_append_right _ hclose
      · exact ih behind hbehind

end Text

/-! ## Templates -/

/-- Text with holes. -/
inductive Template where
  | plain (text : String)
  /-- A hole of some name, between the text before it and the rest. -/
  | hole (before name : String) (rest : Template)

namespace Template

/-- The template as it is written. -/
def text : Template → String
  | plain text => text
  | hole before name rest => before ++ "\x7b" ++ name ++ "\x7d" ++ rest.text

theorem toList_text_hole (before name : String) (rest : Template) :
    (hole before name rest).text.toList =
      before.toList ++ '\x7b' :: (name.toList ++ '\x7d' :: rest.text.toList) := by
  simp [text]

/-- The names of the holes. -/
def names : Template → List String
  | plain _ => []
  | hole _ name rest => name :: rest.names

/-- No hole opens in the text between holes, and none closes in a name. -/
def IsProper : Template → Prop
  | plain text => '\x7b' ∉ text.toList
  | hole before name rest => '\x7b' ∉ before.toList ∧ '\x7d' ∉ name.toList ∧ rest.IsProper

/-- A proper template closes its holes. -/
theorem IsProper.closes {template : Template} (h : template.IsProper) :
    Text.Closes template.text.toList := by
  induction template with
  | plain text => exact Text.closes_of_not_mem h
  | hole before name rest ih =>
      obtain ⟨-, -, hrest⟩ := h
      rw [toList_text_hole, ← List.cons_append, ← List.append_assoc]
      have hclosed : Text.Closes ('\x7d' :: rest.text.toList) := fun behind hbehind => by
        obtain heq | hbehind := List.suffix_cons_iff.1 hbehind
        · exact nomatch (List.cons.inj heq).1
        · exact ih hrest behind hbehind
      exact hclosed.append (.head _) _

/-- Every text is that of a proper template, possibly with an open hole behind it. -/
theorem exists_proper_or_open (text : List Char) :
    (∃ template : Template, template.IsProper ∧ template.text.toList = text) ∨
      ∃ (template : Template) (behind : List Char), template.IsProper ∧ '\x7d' ∉ behind ∧
        template.text.toList ++ '\x7b' :: behind = text := by
  induction text using Text.induction_on_holes with
  | plain text htext =>
      exact .inl ⟨.plain (String.ofList text), by simpa [IsProper] using htext, by
        simp [Template.text]⟩
  | unclosed before behind hbefore hbehind =>
      exact .inr ⟨.plain (String.ofList before), behind, by simpa [IsProper] using hbefore, hbehind,
        by simp [Template.text]⟩
  | hole before name rest hbefore hname ih =>
      have hproper {template : Template} (h : template.IsProper) :
          (hole (String.ofList before) (String.ofList name) template).IsProper := by
        simpa [IsProper] using ⟨hbefore, hname, h⟩
      obtain ⟨template, htemplate, rfl⟩ | ⟨template, behind, htemplate, hbehind, rfl⟩ := ih
      · exact .inl ⟨_, hproper htemplate, by simp [toList_text_hole]⟩
      · exact .inr ⟨_, behind, hproper htemplate, hbehind, by simp [toList_text_hole]⟩

/-- The texts of proper templates are those that close their holes. -/
theorem exists_proper_iff {text : List Char} :
    (∃ template : Template, template.IsProper ∧ template.text.toList = text) ↔
      Text.Closes text := by
  constructor
  case mp =>
    rintro ⟨template, hproper, rfl⟩
    exact hproper.closes
  case mpr =>
    intro hcloses
    obtain hproper | ⟨template, behind, -, hbehind, rfl⟩ := exists_proper_or_open text
    · exact hproper
    · exact absurd (hcloses behind (List.suffix_append _ _)) hbehind

/-- With values in its holes the template is the text.  A hole without a name takes the next
positional argument, and one with a name the keyword argument of the name. -/
inductive Renders (kwargs : List (String × Value)) : List Value → Template → String → Prop
  | plain (args : List Value) (text : String) : Renders kwargs args (.plain text) text
  | positional {args : List Value} {rest : Template} {out : String} (before : String) (v : Value) :
      Renders kwargs args rest out →
      Renders kwargs (v :: args) (.hole before "" rest) (before ++ v.text ++ out)
  | keyword {args : List Value} {rest : Template} {out name : String} {v : Value}
      (before : String) :
      name ≠ "" → Assoc.find? kwargs name = some v → Renders kwargs args rest out →
      Renders kwargs args (.hole before name rest) (before ++ v.text ++ out)

variable {kwargs kwargs' : List (String × Value)} {args more : List Value} {template : Template}
  {out : String}

/-- A template has values for its holes if there are as many positional arguments as holes without a
name, and a keyword argument for every hole with one. -/
theorem exists_renders_iff :
    (∃ out, Renders kwargs args template out) ↔
      template.names.count "" ≤ args.length ∧
      ∀ name ∈ template.names, name ≠ "" → name ∈ Assoc.keys kwargs := by
  induction template generalizing args with
  | plain text => exact iff_of_true ⟨text, .plain args text⟩ (by simp [names])
  | hole before name rest ih =>
      constructor
      case mp =>
        rintro ⟨_, hrenders⟩
        cases hrenders with
        | positional _ v hrest =>
            obtain ⟨hcount, hkeys⟩ := ih.1 ⟨_, hrest⟩
            refine ⟨?_, List.forall_mem_cons.2 ⟨fun hne => absurd rfl hne, hkeys⟩⟩
            rw [names, List.count_cons_self, List.length_cons]
            omega
        | keyword _ hname hfind hrest =>
            obtain ⟨hcount, hkeys⟩ := ih.1 ⟨_, hrest⟩
            refine ⟨?_, List.forall_mem_cons.2 ⟨fun _ => ?_, hkeys⟩⟩
            · rwa [names, List.count_cons_of_ne hname]
            · exact Assoc.isSome_find?_iff.1 (Option.isSome_of_eq_some hfind)
      case mpr =>
        rintro ⟨hcount, hkeys⟩
        obtain ⟨hkey, hrestKeys⟩ := List.forall_mem_cons.1 hkeys
        by_cases hname : name = ""
        · subst hname
          rw [names, List.count_cons_self] at hcount
          cases args with
          | nil => exact absurd hcount (by simp)
          | cons v args =>
              obtain ⟨out, hrest⟩ := ih.2 ⟨Nat.le_of_succ_le_succ hcount, hrestKeys⟩
              exact ⟨_, .positional before v hrest⟩
        · rw [names, List.count_cons_of_ne hname] at hcount
          obtain ⟨v, hfind⟩ := Option.isSome_iff_exists.1 (Assoc.isSome_find?_iff.2 (hkey hname))
          obtain ⟨out, hrest⟩ := ih.2 ⟨hcount, hrestKeys⟩
          exact ⟨_, .keyword before hname hfind hrest⟩

/-- Arguments that no hole takes are ignored. -/
theorem Renders.extend (h : Renders kwargs args template out)
    (hsame : ∀ name ∈ template.names, Assoc.find? kwargs' name = Assoc.find? kwargs name) :
    Renders kwargs' (args ++ more) template out := by
  induction h with
  | plain args text => exact .plain _ _
  | positional before v _ ih =>
      exact .positional before v (ih fun name hname => hsame name (.tail _ hname))
  | keyword before hname hfind _ ih =>
      exact .keyword before hname ((hsame _ (.head _)).trans hfind)
        (ih fun name hname => hsame name (.tail _ hname))

/-- What is rendered is the value of the first hole, between the text before it and what the other
arguments render. -/
theorem renders_hole_iff {before name : String} {rest : Template} :
    Renders kwargs args (.hole before name rest) out ↔
      ∃ value s, Host.holeValue kwargs args name = .ok value ∧ Renders kwargs value.2 rest s ∧
        out = before ++ value.1.text ++ s := by
  constructor
  case mp =>
    intro hrenders
    cases hrenders with
    | positional _ v hrest => exact ⟨(v, _), _, rfl, hrest, rfl⟩
    | keyword _ hname hfind hrest =>
        exact ⟨(_, args), _, by rw [Host.holeValue.eq_def, if_neg hname, hfind], hrest, rfl⟩
  case mpr =>
    rintro ⟨value, s, hvalue, hrest, rfl⟩
    rw [Host.holeValue.eq_def] at hvalue
    by_cases hname : name = ""
    · subst hname
      rw [if_pos rfl] at hvalue
      cases args with
      | nil => exact nomatch hvalue
      | cons v args =>
          obtain rfl := Except.ok.inj hvalue
          exact .positional before v hrest
    · rw [if_neg hname] at hvalue
      cases hfind : Assoc.find? kwargs name with
      | none =>
          rw [hfind] at hvalue
          exact nomatch hvalue
      | some v =>
          rw [hfind] at hvalue
          obtain rfl := Except.ok.inj hvalue
          exact .keyword before hname hfind hrest

end Template

namespace Host

variable {kwargs : List (String × Value)} {args : List Value} {out : String}
  {text before behind name rest : List Char}

theorem fill_eq : fill kwargs args out text =
    match Text.cutAt '\x7b' text with
    | none => .ok (out ++ String.ofList text)
    | some (before, opened) =>
        match Text.cutAt '\x7d' opened with
        | none => fail "unclosed '\x7b' in format string"
        | some (name, rest) =>
            holeValue kwargs args (String.ofList name) >>= fun value =>
              fill kwargs value.2 (out ++ String.ofList before ++ value.1.text) rest := by
  rw [fill]
  split
  · rename_i hopen
    simp only [hopen]
  · rename_i hopen
    simp only [hopen]
    split
    · rename_i hclose
      simp only [hclose]
    · rename_i hclose
      simp only [hclose]

theorem fill_of_not_mem (h : '\x7b' ∉ text) :
    fill kwargs args out text = .ok (out ++ String.ofList text) := by
  rw [fill_eq, Text.cutAt_eq_none_iff.2 h]

theorem fill_of_unclosed (hbefore : '\x7b' ∉ before) (hbehind : '\x7d' ∉ behind) :
    fill kwargs args out (before ++ '\x7b' :: behind) =
      fail "unclosed '\x7b' in format string" := by
  rw [fill_eq, Text.cutAt_append hbefore]
  simp only [Text.cutAt_eq_none_iff.2 hbehind]

/-- A hole gets its value, behind the text before it, and the text behind it is filled with the
other arguments. -/
theorem fill_hole (hbefore : '\x7b' ∉ before) (hname : '\x7d' ∉ name) :
    fill kwargs args out (before ++ '\x7b' :: (name ++ '\x7d' :: rest)) =
      (holeValue kwargs args (String.ofList name) >>= fun value =>
        fill kwargs value.2 (out ++ String.ofList before ++ value.1.text) rest) := by
  rw [fill_eq, Text.cutAt_append hbefore]
  simp only [Text.cutAt_append hname]

/-- To fill a template is to render it behind what is there already. -/
theorem fill_template_eq_ok_iff {template : Template} (h : template.IsProper) {s : String} :
    fill kwargs args out template.text.toList = .ok s ↔
      ∃ t, template.Renders kwargs args t ∧ s = out ++ t := by
  induction template generalizing args out with
  | plain text =>
      rw [Template.text, fill_of_not_mem h, String.ofList_toList]
      constructor
      case mp => exact fun heq => ⟨text, .plain args text, (Except.ok.inj heq).symm⟩
      case mpr =>
        rintro ⟨_, ⟨⟩, rfl⟩
        rfl
  | hole before name rest ih =>
      obtain ⟨hbefore, hname, hrest⟩ := h
      simp only [Template.toList_text_hole, fill_hole hbefore hname, String.ofList_toList,
        Template.renders_hole_iff]
      constructor
      case mp =>
        intro hfill
        obtain ⟨value, hvalue, hfill⟩ := bind_eq_ok hfill
        obtain ⟨t, hrenders, rfl⟩ := (ih hrest).1 hfill
        exact ⟨_, ⟨value, t, hvalue, hrenders, rfl⟩, by simp only [String.append_assoc]⟩
      case mpr =>
        rintro ⟨_, ⟨value, t, hvalue, hrenders, rfl⟩, rfl⟩
        rw [hvalue]
        exact (ih hrest).2 ⟨t, hrenders, by simp only [String.append_assoc]⟩

-- The braces of a value are no hole.
example : fill [("who", .str "\x7b\x7d")] [.int 2] "" "\x7b\x7d \x7bwho\x7d!".toList =
    .ok "2 \x7b\x7d!" := by
  cbv

/-- A template with an open hole behind it cannot be filled. -/
theorem exists_fill_eq_error {template : Template} (h : template.IsProper)
    (hbehind : '\x7d' ∉ behind)
    (kwargs : List (String × Value)) (args : List Value) (out : String) :
    ∃ fault, fill kwargs args out (template.text.toList ++ '\x7b' :: behind) = .error fault := by
  induction template generalizing args out with
  | plain text => exact ⟨_, fill_of_unclosed h hbehind⟩
  | hole before name rest ih =>
      obtain ⟨hbefore, hname, hrest⟩ := h
      rw [Template.toList_text_hole, List.append_assoc, List.cons_append, List.append_assoc,
        List.cons_append,
        fill_hole hbefore hname]
      cases holeValue kwargs args (String.ofList name.toList) with
      | ok value => exact ih hrest _ _
      | error fault => exact ⟨fault, rfl⟩

/-- The course of filling a text, with the number of holes that get a value. -/
inductive Fills (kwargs : List (String × Value)) :
    Nat → List Value → String → List Char → Except HostFault String → Prop
  | plain {args : List Value} {out : String} {text : List Char} :
      '\x7b' ∉ text → Fills kwargs 0 args out text (.ok (out ++ String.ofList text))
  | unclosed {args : List Value} {out : String} {before behind : List Char} :
      '\x7b' ∉ before → '\x7d' ∉ behind →
      Fills kwargs 0 args out (before ++ '\x7b' :: behind) (fail "unclosed '\x7b' in format string")
  | missing {args : List Value} {out : String} {before name rest : List Char} {fault : HostFault} :
      '\x7b' ∉ before → '\x7d' ∉ name → holeValue kwargs args (String.ofList name) = .error fault →
      Fills kwargs 0 args out (before ++ '\x7b' :: (name ++ '\x7d' :: rest)) (.error fault)
  | hole {rounds : Nat} {args args' : List Value} {out : String}
      {before name rest : List Char} {v : Value}
      {answer : Except HostFault String} :
      '\x7b' ∉ before → '\x7d' ∉ name →
        holeValue kwargs args (String.ofList name) = .ok (v, args') →
      Fills kwargs rounds args' (out ++ String.ofList before ++ v.text) rest answer →
      Fills kwargs (rounds + 1) args out (before ++ '\x7b' :: (name ++ '\x7d' :: rest)) answer

/-- Every text is filled in a course that has not more rounds than the text has closing braces. -/
theorem exists_fills (kwargs : List (String × Value)) (args : List Value) (out : String)
    (text : List Char) :
    ∃ rounds ≤ text.count '\x7d',
      Fills kwargs rounds args out text (fill kwargs args out text) := by
  induction text using Text.induction_on_holes generalizing args out with
  | plain text htext => exact ⟨0, Nat.zero_le _, fill_of_not_mem htext ▸ .plain htext⟩
  | unclosed before behind hbefore hbehind =>
      exact ⟨0, Nat.zero_le _, fill_of_unclosed hbefore hbehind ▸ .unclosed hbefore hbehind⟩
  | hole before name rest hbefore hname ih =>
      rw [fill_hole hbefore hname]
      cases hvalue : holeValue kwargs args (String.ofList name) with
      | error fault => exact ⟨0, Nat.zero_le _, .missing hbefore hname hvalue⟩
      | ok value =>
          obtain ⟨rounds, hrounds, hfills⟩ :=
            ih value.2 (out ++ String.ofList before ++ value.1.text)
          refine ⟨rounds + 1, ?_, .hole hbefore hname hvalue hfills⟩
          rw [List.count_append, List.count_cons_of_ne (by decide), List.count_append,
            List.count_cons_self]
          omega

end Host

namespace Registry

/-- What `format` makes of a template, whatever receiver it is given. -/
structure Formats (r : Registry) : Prop where
  /-- A proper template is made into what it renders. -/
  renders : ∀ {template : Template}, template.IsProper → ∀ args kwargs receiver v,
    r.answer? "format" ⟨.str template.text :: args, kwargs, receiver⟩ = some (.ok v) ↔
      ∃ out, template.Renders kwargs args out ∧ v = .str out
  /-- It is if there are values for its holes. -/
  succeeds_iff : ∀ {template : Template}, template.IsProper → ∀ args kwargs receiver,
    (∃ v, r.answer? "format" ⟨.str template.text :: args, kwargs, receiver⟩ = some (.ok v)) ↔
      template.names.count "" ≤ args.length ∧
      ∀ name ∈ template.names, name ≠ "" → name ∈ Assoc.keys kwargs
  /-- Other arguments change nothing. -/
  ignores : ∀ {template : Template}, template.IsProper → ∀ {args kwargs receiver v},
    r.answer? "format" ⟨.str template.text :: args, kwargs, receiver⟩ = some (.ok v) →
    ∀ more {kwargs'},
    (∀ name ∈ template.names, Assoc.find? kwargs' name = Assoc.find? kwargs name) →
      r.answer? "format" ⟨.str template.text :: (args ++ more), kwargs', receiver⟩ = some (.ok v)
  /-- A text is that of a proper template if there is a closing brace behind every opening one. -/
  proper_iff : ∀ s : String, (∃ template : Template, template.IsProper ∧ template.text = s) ↔
    Text.Closes s.toList
  /-- No other text is a template. -/
  fails : ∀ {s : String}, (¬ ∃ template : Template, template.IsProper ∧ template.text = s) →
    ∀ args kwargs receiver,
    ∃ fault, r.answer? "format" ⟨.str s :: args, kwargs, receiver⟩ = some (.error fault)
  /-- Every text takes only so many rounds. -/
  rounds : ∀ (s : String) args kwargs receiver, ∃ rounds ≤ s.toList.count '\x7d', ∃ answer,
    Host.Fills kwargs rounds args "" s.toList answer ∧
      r.answer? "format" ⟨.str s :: args, kwargs, receiver⟩ = some (answer.map .str)

theorem answer?_format (s : String) (args : List Value) (kwargs : List (String × Value))
    (receiver : Option Value) :
    standard.answer? "format" ⟨.str s :: args, kwargs, receiver⟩
      = some ((Host.fill kwargs args "" s.toList).map .str) := by
  show some (Host.fill kwargs args "" s.toList >>=
    fun out => (pure (.str out) : Except HostFault Value)) = _
  cases Host.fill kwargs args "" s.toList <;> rfl

theorem answer?_format_eq_ok_iff {template : Template} (h : template.IsProper) {args : List Value}
    {kwargs : List (String × Value)} {receiver : Option Value} {v : Value} :
    standard.answer? "format" ⟨.str template.text :: args, kwargs, receiver⟩ = some (.ok v) ↔
      ∃ out, template.Renders kwargs args out ∧ v = .str out := by
  rw [answer?_format, Option.some_inj]
  constructor
  case mp =>
    intro hok
    obtain ⟨out, hfill, rfl⟩ := map_eq_ok hok
    obtain ⟨t, hrenders, rfl⟩ := (Host.fill_template_eq_ok_iff h).1 hfill
    exact ⟨t, hrenders, by rw [String.empty_append]⟩
  case mpr =>
    rintro ⟨out, hrenders, rfl⟩
    rw [(Host.fill_template_eq_ok_iff h).2 ⟨out, hrenders, String.empty_append.symm⟩]
    rfl

/-- **Templates are filled as their holes say.** -/
theorem formats_standard : standard.Formats := by
  have hproper (s : String) :
      (∃ template : Template, template.IsProper ∧ template.text = s) ↔ Text.Closes s.toList := by
    rw [← Template.exists_proper_iff]
    simp only [String.toList_inj]
  constructor
  case renders => exact fun h _ _ _ _ => answer?_format_eq_ok_iff h
  case succeeds_iff =>
    intro template h args kwargs receiver
    rw [← Template.exists_renders_iff]
    simp only [answer?_format_eq_ok_iff h]
    exact ⟨fun ⟨_, out, hrenders, _⟩ => ⟨out, hrenders⟩,
      fun ⟨out, hrenders⟩ => ⟨_, out, hrenders, rfl⟩⟩
  case ignores =>
    intro template h args kwargs receiver v hok more kwargs' hsame
    obtain ⟨out, hrenders, rfl⟩ := (answer?_format_eq_ok_iff h).1 hok
    exact (answer?_format_eq_ok_iff h).2 ⟨out, hrenders.extend hsame, rfl⟩
  case proper_iff => exact hproper
  case fails =>
    intro s hnot args kwargs receiver
    simp only [answer?_format]
    obtain ⟨template, htemplate, hs⟩ | ⟨template, behind, htemplate, hbehind, hs⟩ :=
      Template.exists_proper_or_open s.toList
    · exact absurd ⟨template, htemplate, String.toList_inj.1 hs⟩ hnot
    · obtain ⟨fault, hfault⟩ := Host.exists_fill_eq_error htemplate hbehind kwargs args ""
      exact ⟨fault, by rw [← hs, hfault]; rfl⟩
  case rounds =>
    intro s args kwargs receiver
    obtain ⟨rounds, hrounds, hfills⟩ := Host.exists_fills kwargs args "" s.toList
    exact ⟨rounds, hrounds, _, hfills, answer?_format s args kwargs receiver⟩

end Registry

end CallFlow
