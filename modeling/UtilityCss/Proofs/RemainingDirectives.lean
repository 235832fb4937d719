import UtilityCss.Proofs.Operations
import UtilityCss.Proofs.Segments

/-!
# Directives that remain

One pass over a text replaces the directives that the text is cut at. A line break that ends a directive cannot open the
next one as well, though it is put back in front of it; and where the semicolon of a directive is dropped, what stood on
both sides of the directive meets. So a directive may stand in the outcome: `holdsApply_replaceApply`.
-/

namespace UtilityCss.Directive
open Text

def applyWord : List Char := ['@', 'a', 'p', 'p', 'l', 'y']

def StartsApply (cs : List Char) : Prop :=
  ∃ a : Apply, a.Fits ∧ a.written <+: cs

/-- Something in the text still matches the pattern of a directive. -/
def HoldsApply (cs : List Char) : Prop :=
  ∃ a : Apply, a.Fits ∧ a.written <:+: cs

/-- What takes the place of a directive. -/
def Apply.replaced (a : Apply) (lines : List String) : List Char :=
  a.opening :: (("\n  ".intercalate lines).toList ++ if a.closing = ';' then [] else [a.closing])

/-- What takes the place of the directive ends in a character and a proper beginning of the word, with which the text
behind the directive starts with a directive again. -/
def Apply.Reopens (a : Apply) (lines : List String) (rest : List Char) : Prop :=
  ∃ c word, c :: word <:+ a.replaced lines ∧ word <+: applyWord ∧ word ≠ applyWord ∧ StartsApply (c :: (word ++ rest))

/-- Whenever the function succeeds, its lines are as the property says. -/
def Always {σ ε : Type} (apply : String → String → StateM σ (Except ε (List String))) (P : List String → Prop) : Prop :=
  ∀ tokens context s lines, ((apply tokens context).run s).1 = .ok lines → P lines

/-- The function gives the lines for the directive in some state. -/
def Gives {σ ε : Type} (apply : String → String → StateM σ (Except ε (List String))) (a : Apply)
    (lines : List String) : Prop :=
  ∃ s, ((apply (String.ofList a.tokens) a.text).run s).1 = .ok lines

/-- The lines, put together, end in a semicolon or a brace, and something stands in front of the first character that
ends a list of tokens. -/
structure Closed (lines : List String) : Prop where
  first : ∃ c cs, ("\n  ".intercalate lines).toList = c :: cs ∧ isApplyEnd c = false
  last : ∃ cs c, ("\n  ".intercalate lines).toList = cs ++ [c] ∧ (c = ';' ∨ c = '\x7d')

/-! ### A pass over a text -/

/-- One text becomes another when its directives give way to lines and all else stays. -/
inductive Replaces (gives : Apply → List String → Prop) : List Char → List Char → Prop
  | nil : Replaces gives [] []
  | char {c : Char} {cs out : List Char} :
      applyAt? (c :: cs) = none → Replaces gives cs out → Replaces gives (c :: cs) (c :: out)
  | directive {a : Apply} {lines : List String} {rest out : List Char} :
      a.Fits → gives a lines → Replaces gives rest out →
      Replaces gives (a.written ++ rest) (a.replaced lines ++ out)

theorem Replaces.mono {gives gives' : Apply → List String → Prop} {cs out : List Char}
    (replaced : Replaces gives cs out)
    (more : ∀ a lines, .directive a ∈ segments applyAt? cs → gives a lines → gives' a lines) :
    Replaces gives' cs out := by
  induction replaced with
  | nil => exact .nil
  | char unfound _ ih =>
    rw [segments_char unfound] at more
    exact .char unfound (ih fun a lines member => more a lines (List.mem_cons_of_mem _ member))
  | @directive a lines rest out fits given _ ih =>
    rw [segments_directive (applyAt?_of_fits fits rest) (List.cons_ne_nil _ _)] at more
    refine .directive fits (more a lines List.mem_cons_self given) (ih fun b lines member => ?_)
    exact more b lines (List.mem_cons_of_mem _ member)

section Runs
variable {σ ε : Type} {apply : String → String → StateM σ (Except ε (List String))} {s : σ} {a : Apply}
  {out : List Char}

theorem replacement_eq (narrow : a.opening.utf8Size = 1) (lines : List String) :
    (a.replacement lines : Except (ApplyFailure ε) String) = .ok (String.ofList (a.replaced lines)) := by
  have text : String.ofList [a.opening] ++ "\n  ".intercalate lines ++
      (if a.closing = ';' then "" else String.ofList [a.closing]) = String.ofList (a.replaced lines) := by
    rw [← String.toList_inj, Apply.replaced]
    split <;> simp
  rw [Apply.replacement, if_pos narrow, text]

theorem applySegments_directive_ok {rest : List (Segment Apply)}
    (done : ((applySegments apply (.directive a :: rest)).run s).1 = .ok out) :
    ∃ lines t more, ((apply (String.ofList a.tokens) a.text).run s) = (.ok lines, t) ∧
      ((applySegments apply rest).run t).1 = .ok more ∧ out = a.replaced lines ++ more := by
  cases applied : (apply (String.ofList a.tokens) a.text).run s with
  | mk result t =>
    cases result with
    | error cause =>
      rw [Engine.applySegments_failed rest applied] at done
      cases done
    | ok lines =>
      by_cases narrow : a.opening.utf8Size = 1
      · rw [applySegments, Engine.run_bind_eq, applied] at done
        dsimp only at done
        rw [replacement_eq narrow] at done
        obtain ⟨more, later, rfl⟩ := map_eq_ok done
        exact ⟨lines, t, more, rfl, later, by rw [String.toList_ofList]⟩
      · rw [Engine.applySegments_wide rest applied narrow] at done
        cases done

theorem replaces_of_applySegments {cs : List Char}
    (done : ((applySegments apply (segments applyAt? cs)).run s).1 = .ok out) : Replaces (Gives apply) cs out := by
  induction cs using segments_induction finds_applyAt? generalizing s out with
  | nil =>
    cases done
    exact .nil
  | char c cs unfound ih =>
    rw [segments_char unfound, Engine.applySegments_char] at done
    obtain ⟨more, later, rfl⟩ := map_eq_ok done
    exact .char unfound (ih later)
  | directive a rest found some ih =>
    rw [segments_directive found some] at done
    obtain ⟨lines, t, more, applied, later, rfl⟩ := applySegments_directive_ok done
    obtain ⟨fits, -, -⟩ := applyAt?_eq_some_iff.mp found
    exact .directive fits ⟨s, by rw [applied]⟩ (ih later)

theorem replaces_self {gives : Apply → List String → Prop} {cs : List Char}
    (unmarked : hasMark applyMark cs = false) : Replaces gives cs cs := by
  induction cs with
  | nil => exact .nil
  | cons c cs ih =>
    refine .char ?_ (ih ?_)
    · exact Option.eq_none_iff_forall_ne_some.mpr fun a found => by
        rw [Engine.hasMark_of_applyAt? found] at unmarked
        cases unmarked
    · refine Bool.eq_false_iff.mpr fun marked => ?_
      rw [Engine.hasMark_cons c marked] at unmarked
      cases unmarked

theorem replaces_of_replaceApply {css text : String}
    (done : ((replaceApply apply css).run s).1 = .ok text) : Replaces (Gives apply) css.toList text.toList := by
  unfold replaceApply at done
  split at done
  · obtain ⟨out, all, rfl⟩ := map_eq_ok done
    rw [String.toList_ofList]
    exact replaces_of_applySegments all
  · rename_i unmarked
    cases done
    exact replaces_self (Bool.eq_false_iff.mpr unmarked)

end Runs

/-! ### Where a directive can start -/

/-- A text with a list of tokens and the character that ends it at its start. -/
def ListsTokens : List Char → Prop
  | [] => False
  | c :: cs => isApplyEnd c = false ∧ ∃ d ∈ cs, isApplyEnd d = true

/-- A text with a directive at its start, but for the opening character. -/
def NamesApply (cs : List Char) : Prop :=
  ∃ tail, cs = applyMark ++ tail ∧ ListsTokens tail

section Starts
variable {c : Char} {cs : List Char}

theorem listsTokens_iff : ListsTokens cs ↔ ∃ tokens closing rest, cs = tokens ++ closing :: rest ∧ tokens ≠ [] ∧
    (∀ c ∈ tokens, isApplyEnd c = false) ∧ isApplyEnd closing = true := by
  constructor
  · intro lists
    cases cs with
    | nil => exact lists.elim
    | cons c cs =>
      obtain ⟨first, ends⟩ := lists
      obtain ⟨closing, found⟩ := Option.isSome_iff_exists.mp (List.find?_isSome.mpr ends)
      obtain ⟨closes, front, rest, rfl, before⟩ := List.find?_eq_some_iff_append.mp found
      refine ⟨c :: front, closing, rest, rfl, List.cons_ne_nil _ _, ?_, closes⟩
      exact List.forall_mem_cons.mpr ⟨first, fun d member => by simpa using before d member⟩
  · rintro ⟨_ | ⟨c, tokens⟩, closing, rest, rfl, some, inside, closes⟩
    · exact absurd rfl some
    · exact ⟨inside c List.mem_cons_self, closing, by simp, closes⟩

theorem startsApply_cons_iff :
    StartsApply (c :: cs) ↔ (c = '\x7b' || isBlank c) = true ∧ NamesApply cs := by
  constructor
  · rintro ⟨a, fits, rest, text⟩
    rw [Apply.written_append] at text
    obtain ⟨rfl, rfl⟩ := List.cons.inj text
    exact ⟨fits.opening, _, rfl, listsTokens_iff.mpr ⟨_, _, _, rfl, fits.some, fits.tokens, fits.closing⟩⟩
  · rintro ⟨opens, tail, rfl, lists⟩
    obtain ⟨tokens, closing, rest, rfl, some, inside, closes⟩ := listsTokens_iff.mp lists
    exact ⟨⟨c, tokens, closing⟩, ⟨opens, some, inside, closes⟩, rest, Apply.written_append _ rest⟩

theorem startsApply_iff_isSome : StartsApply cs ↔ (applyAt? cs).isSome = true := by
  constructor
  · rintro ⟨a, fits, start⟩
    rw [applyAt?_eq_some_iff.mpr ⟨fits, rfl, start⟩]
    rfl
  · intro found
    obtain ⟨⟨a, length⟩, found⟩ := Option.isSome_iff_exists.mp found
    obtain ⟨fits, -, start⟩ := applyAt?_eq_some_iff.mp found
    exact ⟨a, fits, start⟩

end Starts

/-! ### What a pass does to the start of a text -/

section Passes
variable {gives : Apply → List String → Prop} {c : Char} {cs out word : List Char}

theorem plain_of_mem_applyWord (member : c ∈ applyWord) :
    (c = '\x7b' || isBlank c) = false ∧ isApplyEnd c = false := by
  have plain : applyWord.all (fun c => !(c = '\x7b' || isBlank c) && !isApplyEnd c) = true := rfl
  simpa using List.all_eq_true.mp plain c member

theorem opening_not_mem_applyWord {a : Apply} (fits : a.Fits) : a.opening ∉ applyWord := fun member =>
  absurd fits.opening (by rw [(plain_of_mem_applyWord member).1]; decide)

theorem closing_not_mem_applyWord {a : Apply} (fits : a.Fits) : a.closing ∉ applyWord := fun member =>
  absurd fits.closing (by rw [(plain_of_mem_applyWord member).2]; decide)

theorem replaces_word (plain : ∀ c ∈ word, (c = '\x7b' || isBlank c) = false) (replaced : Replaces gives cs out)
    (start : word <+: cs ∨ word <+: out) :
    ∃ rest later, cs = word ++ rest ∧ out = word ++ later ∧ Replaces gives rest later := by
  induction word generalizing cs out with
  | nil => exact ⟨cs, out, rfl, rfl, replaced⟩
  | cons c word ih =>
    obtain ⟨first, behind⟩ := List.forall_mem_cons.mp plain
    cases replaced with
    | nil => simp at start
    | char _ replaced =>
      rw [List.cons_prefix_cons, List.cons_prefix_cons, ← and_or_left] at start
      obtain ⟨rfl, start⟩ := start
      obtain ⟨rest, later, rfl, rfl, next⟩ := ih behind replaced start
      exact ⟨rest, later, rfl, rfl, next⟩
    | directive fits _ _ =>
      -- Both texts start with the opening of the directive.
      rw [Apply.written_append, Apply.replaced, List.cons_append, List.cons_prefix_cons, List.cons_prefix_cons,
        ← and_or_left] at start
      rw [start.1, fits.opening] at first
      cases first

theorem end_mem_written {a : Apply} (fits : a.Fits) (rest : List Char) :
    ∃ d ∈ applyMark ++ (a.tokens ++ a.closing :: rest), isApplyEnd d = true :=
  ⟨a.closing, by simp, fits.closing⟩

theorem end_mem_of_replaces (replaced : Replaces gives cs out) (ends : ∃ d ∈ out, isApplyEnd d = true) :
    ∃ d ∈ cs, isApplyEnd d = true := by
  induction replaced with
  | nil => exact ends
  | char _ _ ih =>
    rw [List.exists_mem_cons_iff] at ends ⊢
    exact ends.imp_right ih
  | directive fits _ _ _ =>
    rw [Apply.written_append, List.exists_mem_cons_iff]
    exact .inr (end_mem_written fits _)

theorem listsTokens_of_replaces (replaced : Replaces gives cs out) (lists : ListsTokens out) : ListsTokens cs := by
  cases replaced with
  | nil => exact lists
  | char _ replaced => exact lists.imp_right (end_mem_of_replaces replaced)
  | directive fits _ _ =>
    rw [Apply.replaced, List.cons_append] at lists
    rw [Apply.written_append]
    exact ⟨lists.1, end_mem_written fits _⟩

/-- What stands behind a beginning of the word names a directive in the text as well. -/
theorem namesApply_of_replaces (start : word <+: applyWord) (replaced : Replaces gives cs out)
    (names : NamesApply (word ++ out)) : NamesApply (word ++ cs) := by
  obtain ⟨more, whole⟩ := start
  obtain ⟨tail, text, lists⟩ := names
  have mark : applyMark ++ tail = word ++ (more ++ ' ' :: tail) := by
    rw [← List.append_assoc, whole]
    rfl
  rw [mark] at text
  rw [List.append_cancel_left text] at replaced
  have plain : ∀ c ∈ more, (c = '\x7b' || isBlank c) = false := fun c member =>
    (plain_of_mem_applyWord (by rw [← whole]; exact List.mem_append_right _ member)).1
  obtain ⟨rest, later, rfl, same, behind⟩ := replaces_word plain replaced (.inr (List.prefix_append _ _))
  rw [← List.append_cancel_left same] at behind
  -- The space behind the word may be the opening of a directive, which then is read as a token.
  have blank : ∃ tail, rest = ' ' :: tail ∧ ListsTokens tail := by
    generalize outcome : ' ' :: tail = text at behind
    cases behind with
    | nil => cases outcome
    | char _ behind =>
      cases outcome
      exact ⟨_, rfl, listsTokens_of_replaces behind lists⟩
    | directive fits _ _ =>
      rw [Apply.replaced, List.cons_append] at outcome
      rw [Apply.written_append, ← (List.cons.inj outcome).1]
      exact ⟨_, rfl, by decide, _, List.mem_append_right _ (by simp), fits.closing⟩
  obtain ⟨tail, rfl, listed⟩ := blank
  refine ⟨tail, ?_, listed⟩
  rw [← List.append_assoc, whole]
  rfl

end Passes

/-! ### What a directive leaves behind -/

section Edges
variable {gives : Apply → List String → Prop} {a : Apply} {c x : Char} {cs out word mark front back : List Char}
  {lines : List String}

/-- A mark without a character does not lie across it. -/
theorem infix_of_not_mem (absent : x ∉ mark) (inside : mark <:+: front ++ x :: back) :
    mark <:+: front ∨ mark <:+: back := by
  have empty_or : ∀ part, part <+: x :: back → x ∉ part → part = [] := by
    intro part start absent
    cases part with
    | nil => rfl
    | cons y part =>
      obtain ⟨rest, text⟩ := start
      cases (List.cons.inj text).1
      exact absurd List.mem_cons_self absent
  rcases List.infix_append_iff.mp inside with before | behind | ⟨first, second, rfl, before, behind⟩
  · exact .inl before
  · rcases List.infix_cons_iff.mp behind with start | later
    · rw [empty_or mark start absent]
      exact .inl (List.nil_infix)
    · exact .inr later
  · rw [empty_or second behind fun member => absent (List.mem_append_right _ member), List.append_nil]
    exact .inl before.isInfix

theorem infix_of_not_mem_cons (absent : x ∉ mark) (inside : mark <:+: x :: back) : mark <:+: back := by
  rw [← List.nil_append (x :: back)] at inside
  rcases infix_of_not_mem absent inside with empty | later
  · rw [List.eq_nil_of_infix_nil empty]
    exact List.nil_infix
  · exact later

theorem infix_of_intercalate {parts : List (List Char)} (some : mark ≠ []) (unbroken : '\n' ∉ mark) (solid : ' ' ∉ mark)
    (inside : mark <:+: "\n  ".toList.intercalate parts) : ∃ part ∈ parts, mark <:+: part := by
  induction parts with
  | nil => exact absurd (List.eq_nil_of_infix_nil inside) some
  | cons part parts ih =>
    cases parts with
    | nil => exact ⟨part, List.mem_cons_self, by simpa using inside⟩
    | cons next parts =>
      rw [List.intercalate_cons_cons, List.append_assoc] at inside
      rcases infix_of_not_mem unbroken inside with here | later
      · exact ⟨part, List.mem_cons_self, here⟩
      · have later := infix_of_not_mem_cons solid (infix_of_not_mem_cons solid later)
        obtain ⟨part, member, inside⟩ := ih later
        exact ⟨part, List.mem_cons_of_mem _ member, inside⟩

theorem not_infix_replaced (fits : a.Fits) (clean : ∀ line ∈ lines, ¬applyWord <:+: line.toList) :
    ¬applyWord <:+: a.replaced lines := by
  intro inside
  have inside := infix_of_not_mem_cons (opening_not_mem_applyWord fits) inside
  have joined : applyWord <:+: ("\n  ".intercalate lines).toList := by
    split at inside
    · rwa [List.append_nil] at inside
    · rcases infix_of_not_mem (closing_not_mem_applyWord fits) inside with here | empty
      · exact here
      · exact absurd (List.eq_nil_of_infix_nil empty) (by decide)
  rw [String.toList_intercalate] at joined
  obtain ⟨part, member, here⟩ := infix_of_intercalate (by decide) (by decide) (by decide) joined
  obtain ⟨line, listed, rfl⟩ := List.mem_map.mp member
  exact clean line listed here

theorem applyWord_infix_written (a : Apply) : applyWord <:+: a.written := by
  refine List.infix_cons ⟨[], ' ' :: (a.tokens ++ [a.closing]), ?_⟩
  rfl

theorem infix_or_edge {left : List Char} (clean : ¬applyWord <:+: left) (inside : a.written <:+: left ++ out) :
    a.written <:+: out ∨ ∃ c word, c :: word <:+ left ∧ word <+: applyWord ∧ word ≠ applyWord ∧
      a.written <+: c :: (word ++ out) := by
  rcases List.infix_append_iff.mp inside with before | behind | ⟨first, second, whole, before, behind⟩
  -- In the replacement alone there is no room for it, since the word is missing there.
  · exact absurd ((applyWord_infix_written a).trans before) clean
  · exact .inl behind
  · cases first with
    | nil =>
      rw [whole]
      exact .inl behind.isInfix
    | cons c word =>
      -- A longer part would hold the whole word.
      have missing : ¬applyWord <:+: word := fun here => clean ((List.infix_cons here).trans before.isInfix)
      have text : applyWord ++ ' ' :: (a.tokens ++ [a.closing]) = word ++ second := (List.cons.inj whole).2
      have start : word <+: applyWord := by
        rcases List.prefix_or_prefix_of_prefix ⟨second, rfl⟩ (⟨_, text⟩ : applyWord <+: word ++ second) with
          shorter | longer
        · exact shorter
        · exact absurd longer.isInfix missing
      refine .inr ⟨c, word, before, start, ?_, ?_⟩
      · rintro rfl
        exact missing List.infix_rfl
      · rw [whole]
        exact (List.prefix_append_right_inj (c :: word)).mpr behind

theorem edge_of_last (edge : c :: word <:+ front ++ [x]) (start : word <+: applyWord) (outside : x ∉ applyWord) :
    c = x ∧ word = [] := by
  rcases List.suffix_concat_iff.mp edge with empty | ⟨before, cut, -⟩
  · cases empty
  · cases before with
    | nil =>
      cases cut
      exact ⟨rfl, rfl⟩
    | cons d before =>
      have inWord : x ∈ word := by
        rw [(List.cons.inj cut).2]
        exact List.mem_append_right _ List.mem_cons_self
      exact absurd (start.subset inWord) outside

/-- Only a line break or a dropped semicolon lets the text behind a directive start with one. -/
theorem closing_of_edge (fits : a.Fits) (edge : c :: word <:+ a.replaced lines) (start : word <+: applyWord)
    (opens : (c = '\x7b' || isBlank c) = true) : a.closing = '\n' ∧ c = '\n' ∧ word = [] ∨ a.closing = ';' := by
  by_cases semicolon : a.closing = ';'
  · exact .inr semicolon
  · rw [Apply.replaced, if_neg semicolon, ← List.cons_append] at edge
    obtain ⟨rfl, rfl⟩ := edge_of_last edge start (closing_not_mem_applyWord fits)
    have either : a.closing = '\x7d' ∨ a.closing = '\n' := by
      simpa [isApplyEnd, semicolon] using fits.closing
    rcases either with brace | newline
    · rw [brace] at opens
      exact absurd opens (by decide)
    · exact .inl ⟨newline, newline, rfl⟩

/-- A directive in the outcome of a pass lies across the end of what replaced one. -/
theorem reopens_of_holdsApply (clean : ∀ a lines, a.Fits → gives a lines → ¬applyWord <:+: a.replaced lines)
    (replaced : Replaces gives cs out) (holds : HoldsApply out) :
    ∃ front a rest lines, Stands applyAt? Apply.written cs front a rest ∧ a.Fits ∧ gives a lines ∧
      a.Reopens lines rest := by
  induction replaced with
  | nil =>
    obtain ⟨b, -, inside⟩ := holds
    cases List.eq_nil_of_infix_nil inside
  | @char c cs out unfound replaced ih =>
    obtain ⟨b, fits, inside⟩ := holds
    rcases List.infix_cons_iff.mp inside with start | later
    · obtain ⟨opens, names⟩ := startsApply_cons_iff.mp ⟨b, fits, start⟩
      -- What would start with `c` in the outcome starts with it in the text, where nothing was found.
      have names : NamesApply cs := namesApply_of_replaces List.nil_prefix replaced names
      have found := startsApply_iff_isSome.mp (startsApply_cons_iff.mpr ⟨opens, names⟩)
      rw [unfound] at found
      cases found
    · obtain ⟨front, a, rest, lines, stands, reopens⟩ := ih ⟨b, fits, later⟩
      exact ⟨_, a, rest, lines, (stands_char_iff unfound).mpr ⟨front, rfl, stands⟩, reopens⟩
  | @directive a lines rest out fits given replaced ih =>
    obtain ⟨b, fit, inside⟩ := holds
    have found := applyAt?_of_fits fits rest
    have some : a.written ≠ [] := List.cons_ne_nil _ _
    rcases infix_or_edge (clean a lines fits given) inside with later | ⟨c, word, edge, start, proper, text⟩
    · obtain ⟨front, d, more, lines, stands, reopens⟩ := ih ⟨b, fit, later⟩
      exact ⟨_, d, more, lines, (stands_directive_iff found some).mpr (.inr ⟨front, rfl, stands⟩), reopens⟩
    · obtain ⟨opens, names⟩ := startsApply_cons_iff.mp ⟨b, fit, text⟩
      have starts := startsApply_cons_iff.mpr ⟨opens, namesApply_of_replaces start replaced names⟩
      have stands := (stands_directive_iff found some).mpr (.inl ⟨rfl, rfl, rfl⟩)
      exact ⟨[], a, rest, lines, stands, fits, given, c, word, edge, start, proper, starts⟩

end Edges

/-! ### Closed lines -/

section ClosedLines
variable {gives : Apply → List String → Prop} {a : Apply} {cs out rest : List Char} {front : List (Segment Apply)}
  {lines : List String}

theorem Closed.lists (closed : Closed lines) : ListsTokens ("\n  ".intercalate lines).toList := by
  obtain ⟨c, cs, text, first⟩ := closed.first
  obtain ⟨front, d, same, last⟩ := closed.last
  have ends : isApplyEnd d = true := by
    rcases last with rfl | rfl <;> rfl
  rw [text]
  refine ⟨first, d, ?_, ends⟩
  rw [text] at same
  cases front with
  | nil =>
    cases same
    rw [first] at ends
    cases ends
  | cons b front =>
    rw [(List.cons.inj same).2]
    exact List.mem_append_right _ List.mem_cons_self

theorem ListsTokens.append (lists : ListsTokens cs) (more : List Char) : ListsTokens (cs ++ more) := by
  cases cs with
  | nil => exact lists.elim
  | cons c cs =>
    obtain ⟨first, d, member, ends⟩ := lists
    exact ⟨first, d, List.mem_append_left _ member, ends⟩

theorem ListsTokens.exists_end (lists : ListsTokens cs) : ∃ d ∈ cs, isApplyEnd d = true := by
  cases cs with
  | nil => exact lists.elim
  | cons c cs => exact (List.exists_mem_cons_iff _ _ _).mpr (.inr lists.2)

theorem Closed.exists_end (closed : Closed lines) (a : Apply) (more : List Char) :
    ∃ d ∈ ("\n  ".intercalate lines).toList ++ (if a.closing = ';' then [] else [a.closing]) ++ more,
      isApplyEnd d = true := by
  rw [List.append_assoc]
  exact (closed.lists.append _).exists_end

variable (closed : ∀ a lines, gives a lines → Closed lines)
include closed

theorem end_mem_replaces (replaced : Replaces gives cs out) (ends : ∃ d ∈ cs, isApplyEnd d = true) :
    ∃ d ∈ out, isApplyEnd d = true := by
  induction replaced with
  | nil => exact ends
  | char _ _ ih =>
    rw [List.exists_mem_cons_iff] at ends ⊢
    exact ends.imp_right ih
  | directive _ given _ _ =>
    rw [Apply.replaced, List.cons_append, List.exists_mem_cons_iff]
    exact .inr ((closed _ _ given).exists_end _ _)

theorem listsTokens_replaces (replaced : Replaces gives cs out) (lists : ListsTokens cs) : ListsTokens out := by
  cases replaced with
  | nil => exact lists
  | char _ replaced => exact lists.imp_right (end_mem_replaces closed replaced)
  | directive _ given _ =>
    rw [Apply.written_append] at lists
    exact ⟨lists.1, (closed _ _ given).exists_end _ _⟩

/-- What names a directive still does when the directives behind its name give way to closed lines. -/
theorem namesApply_replaces (replaced : Replaces gives cs out) (names : NamesApply cs) : NamesApply out := by
  obtain ⟨tail, rfl, lists⟩ := names
  have plain : ∀ c ∈ applyWord, (c = '\x7b' || isBlank c) = false := fun c member =>
    (plain_of_mem_applyWord member).1
  obtain ⟨rest, later, same, rfl, behind⟩ :=
    replaces_word plain replaced (.inl (List.prefix_append applyWord (' ' :: tail)))
  have text : ' ' :: tail = rest := @List.append_cancel_left _ applyWord _ _ same
  cases behind with
  | nil => cases text
  | char _ behind =>
    cases text
    exact ⟨_, rfl, listsTokens_replaces closed behind lists⟩
  | directive _ given _ =>
    rw [Apply.written_append] at text
    rw [Apply.replaced, ← (List.cons.inj text).1, List.cons_append, List.append_assoc]
    exact ⟨_, rfl, (closed _ _ given).lists.append _⟩

omit closed in
theorem exists_replaced_of_stands (replaced : Replaces gives cs out)
    (stands : Stands applyAt? Apply.written cs front a rest) :
    ∃ before lines later, gives a lines ∧ Replaces gives rest later ∧ out = before ++ (a.replaced lines ++ later) := by
  induction replaced generalizing front with
  | nil =>
    obtain ⟨cut, -⟩ := stands
    cases front <;> cases cut
  | @char c cs out unfound replaced ih =>
    obtain ⟨more, rfl, inside⟩ := (stands_char_iff unfound).mp stands
    obtain ⟨before, lines, later, given, behind, rfl⟩ := ih inside
    exact ⟨c :: before, lines, later, given, behind, rfl⟩
  | @directive b lines cs out fits given replaced ih =>
    rcases (stands_directive_iff (applyAt?_of_fits fits cs) (List.cons_ne_nil _ _)).mp stands with
      ⟨rfl, rfl, rfl⟩ | ⟨more, rfl, inside⟩
    · exact ⟨[], lines, out, given, replaced, rfl⟩
    · obtain ⟨before, lines', later, given', behind, rfl⟩ := ih inside
      exact ⟨b.replaced lines ++ before, lines', later, given', behind, by rw [List.append_assoc]⟩

theorem holdsApply_of_stands (replaced : Replaces gives cs out)
    (stands : Stands applyAt? Apply.written cs front a rest) (newline : a.closing = '\n')
    (start : StartsApply ('\n' :: rest)) : HoldsApply out := by
  obtain ⟨before, lines, later, -, behind, rfl⟩ := exists_replaced_of_stands replaced stands
  obtain ⟨opens, names⟩ := startsApply_cons_iff.mp start
  obtain ⟨b, fits, written⟩ := startsApply_cons_iff.mpr ⟨opens, namesApply_replaces closed behind names⟩
  refine ⟨b, fits, written.isInfix.trans ?_⟩
  have cut : before ++ (a.replaced lines ++ later) =
      before ++ (a.opening :: ("\n  ".intercalate lines).toList) ++ '\n' :: later := by
    rw [Apply.replaced, newline]
    simp
  rw [cut]
  exact (List.suffix_append _ _).isInfix

omit closed in
theorem not_edge_of_semicolon {c : Char} {word : List Char} (closed : Closed lines) (semicolon : a.closing = ';')
    (edge : c :: word <:+ a.replaced lines) (start : word <+: applyWord) : (c = '\x7b' || isBlank c) = false := by
  obtain ⟨front, d, text, last⟩ := closed.last
  have plain : (d = '\x7b' || isBlank d) = false ∧ d ∉ applyWord := by
    rcases last with rfl | rfl <;> decide
  rw [Apply.replaced, if_pos semicolon, List.append_nil, text, ← List.cons_append] at edge
  rw [(edge_of_last edge start plain.2).1]
  exact plain.1

end ClosedLines

/-! ### The outcome of a pass -/

/-- When a function never gives a line with the word, a directive of the outcome lies across the end of what replaced
one, behind a line break that ended that one or where its semicolon was dropped. If the lines for the directives of a
text are closed as well, the outcome holds a directive just when one of the text ends in a line break that another one
could start with. -/
theorem holdsApply_replaceApply {σ ε : Type} {apply : String → String → StateM σ (Except ε (List String))} {s : σ}
    {css out : String} (clean : Always apply fun lines => ∀ line ∈ lines, ¬applyWord <:+: line.toList)
    (done : ((replaceApply apply css).run s).1 = .ok out) :
    (HoldsApply out.toList → ∃ front a rest lines, Stands applyAt? Apply.written css.toList front a rest ∧
      Gives apply a lines ∧ a.Reopens lines rest ∧
      (a.closing = '\n' ∧ StartsApply ('\n' :: rest) ∨ a.closing = ';')) ∧
    ((∀ a lines, .directive a ∈ segments applyAt? css.toList → Gives apply a lines → Closed lines) →
      (HoldsApply out.toList ↔ ∃ front a rest, Stands applyAt? Apply.written css.toList front a rest ∧
        a.closing = '\n' ∧ StartsApply ('\n' :: rest))) := by
  have replaced := replaces_of_replaceApply done
  have unmarked : ∀ a lines, a.Fits → Gives apply a lines → ¬applyWord <:+: a.replaced lines :=
    fun a lines fits ⟨t, given⟩ => not_infix_replaced fits (clean _ _ t lines given)
  have across : HoldsApply out.toList → ∃ front a rest lines, Stands applyAt? Apply.written css.toList front a rest ∧
      Gives apply a lines ∧ a.Reopens lines rest ∧
      (a.closing = '\n' ∧ StartsApply ('\n' :: rest) ∨ a.closing = ';') := by
    intro holds
    obtain ⟨front, a, rest, lines, stands, fits, given, c, word, edge, start, proper, starts⟩ :=
      reopens_of_holdsApply unmarked replaced holds
    refine ⟨front, a, rest, lines, stands, given, ⟨c, word, edge, start, proper, starts⟩, ?_⟩
    rcases closing_of_edge fits edge start (startsApply_cons_iff.mp starts).1 with ⟨newline, rfl, rfl⟩ | semicolon
    · exact .inl ⟨newline, starts⟩
    · exact .inr semicolon
  refine ⟨across, fun closed => ⟨fun holds => ?_, ?_⟩⟩
  · obtain ⟨front, a, rest, lines, stands, given, ⟨c, word, edge, start, -, starts⟩, newline | semicolon⟩ := across holds
    · exact ⟨front, a, rest, stands, newline⟩
    · have plain := not_edge_of_semicolon (closed a lines stands.mem given) semicolon edge start
      rw [(startsApply_cons_iff.mp starts).1] at plain
      cases plain
  · rintro ⟨front, a, rest, stands, newline, start⟩
    have closed := replaced.mono fun a lines member given => (⟨given, closed a lines member given⟩ : _ ∧ Closed lines)
    exact holdsApply_of_stands (fun _ _ given => given.2) closed stands newline start

def pinned : String → String → StateM Unit (Except Unit (List String)) :=
  fun _ _ => pure (.ok ["top: 0;"])

theorem eq_of_pinned {lines : List String} {tokens context : String} {s : Unit}
    (given : ((pinned tokens context).run s).1 = .ok lines) : lines = ["top: 0;"] :=
  (Except.ok.inj given).symm

/-- The second of two directives on neighbouring lines stays if it is not indented. -/
theorem holdsApply_of_pinned :
    ((replaceApply pinned "\x7b@apply a\n@apply b\n\x7d").run ()).1 = .ok "\x7btop: 0;\n@apply b\n\x7d" ∧
      HoldsApply "\x7btop: 0;\n@apply b\n\x7d".toList := by
  have done : ((replaceApply pinned "\x7b@apply a\n@apply b\n\x7d").run ()).1 =
      .ok "\x7btop: 0;\n@apply b\n\x7d" := rfl
  have clean : Always pinned fun lines => ∀ line ∈ lines, ¬applyWord <:+: line.toList := by
    intro tokens context s lines given
    rw [eq_of_pinned given]
    refine List.forall_mem_singleton.mpr fun inside => ?_
    have member : '@' ∈ "top: 0;".toList := inside.subset List.mem_cons_self
    exact absurd member (by decide)
  have closed : Closed ["top: 0;"] := ⟨⟨'t', _, rfl, rfl⟩, "top: 0".toList, ';', rfl, .inl rfl⟩
  refine ⟨done, ((holdsApply_replaceApply clean done).2 fun a lines _ ⟨_, given⟩ => ?_).mpr ?_⟩
  · rw [eq_of_pinned given]
    exact closed
  · exact ⟨[], ⟨'\x7b', ['a'], '\n'⟩, "@apply b\n\x7d".toList, ⟨rfl, rfl⟩, rfl, startsApply_iff_isSome.mpr rfl⟩

end UtilityCss.Directive
