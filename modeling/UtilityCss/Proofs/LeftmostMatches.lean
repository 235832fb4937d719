import UtilityCss.Proofs.CharBoundaries
import UtilityCss.Proofs.PatternOrder

/-!
# Leftmost matches

A pattern describes each of the three directives, and what is found at the start of a text is what the pattern describes
there. So a text is cut at the leftmost matches of the pattern, and there is one way to do that. A pass replaces the
matches from left to right, keeps the text around them and fails where the first replacement does,
`passes_replace_leftmost`.
-/

namespace UtilityCss

namespace Pattern
variable {p : Pattern} {word w : List Char}

/-- The pattern behind a fixed text. -/
def behind (word : List Char) (p : Pattern) : Pattern :=
  word.foldr (fun c rest => .seq (char c) rest) p

theorem matches_behind_iff : (behind word p).Matches w ↔ ∃ v, p.Matches v ∧ w = word ++ v := by
  induction word generalizing w with
  | nil => exact ⟨fun described => ⟨w, described, rfl⟩, fun ⟨_, described, same⟩ => same ▸ described⟩
  | cons c word ih =>
    rw [behind, List.foldr_cons, ← behind]
    simp only [matches_seq_iff, matches_char_iff, ih]
    constructor
    · rintro ⟨_, _, rfl, ⟨v, described, rfl⟩, rfl⟩
      exact ⟨v, described, rfl⟩
    · rintro ⟨v, described, rfl⟩
      exact ⟨[c], word ++ v, rfl, ⟨v, described, rfl⟩, rfl⟩

end Pattern

namespace Directive
open Text

/-! ### Cuts at matches -/

section Cuts
variable {δ : Type} {p : Pattern} {find? : List Char → Option (δ × Nat)} {written : δ → List Char}
  {c : Char} {cs front rest : List Char} {d : δ} {found : List (δ × List Char)}

/-- What is found at the start of a text is what the pattern describes there, and a directive is known by how it is
written. -/
structure Recognizes (p : Pattern) (find? : List Char → Option (δ × Nat)) (written : δ → List Char) : Prop where
  found_iff : ∀ {cs d length}, find? cs = some (d, length) ↔
    p.Matches (written d) ∧ length = (written d).length ∧ written d <+: cs
  captured : ∀ {w}, p.Matches w → ∃ d, written d = w
  nonempty : ∀ d, written d ≠ []

/-- The text is `front`, then the matches that follow one another from left to right, each with the text behind it up to
the next one. No match starts in front of the first of them, and none is left behind the last. -/
inductive Leftmost (p : Pattern) (written : δ → List Char) :
    List Char → List Char → List (δ × List Char) → Prop
  | done {cs : List Char} : (∀ w, p.Matches w → ¬w <:+: cs) → Leftmost p written cs cs []
  | next {cs front rest gap : List Char} {d : δ} {found : List (δ × List Char)} :
      cs = front ++ (written d ++ rest) → p.Matches (written d) →
      (∀ before w, p.Matches w → before ++ w <+: cs → front.length ≤ before.length) →
      Leftmost p written rest gap found → Leftmost p written cs front ((d, gap) :: found)

/-- The text in front of the first directive, and each directive with the text behind it up to the next one. -/
def gathered : List (Segment δ) → List Char × List (δ × List Char)
  | [] => ([], [])
  | .char c :: rest => (c :: (gathered rest).1, (gathered rest).2)
  | .directive d :: rest => ([], (d, (gathered rest).1) :: (gathered rest).2)

namespace Recognizes

theorem finds (recognizes : Recognizes p find? written) : Finds find? written := by
  intro cs d length answer
  obtain ⟨-, same, start⟩ := recognizes.found_iff.mp answer
  exact ⟨same, start, recognizes.nonempty d⟩

theorem find?_append (recognizes : Recognizes p find? written) (described : p.Matches (written d))
    (rest : List Char) : find? (written d ++ rest) = some (d, (written d).length) :=
  recognizes.found_iff.mpr ⟨described, rfl, List.prefix_append _ _⟩

theorem not_prefix (recognizes : Recognizes p find? written) (unfound : find? cs = none) {w : List Char}
    (described : p.Matches w) : ¬w <+: cs := by
  rintro ⟨rest, rfl⟩
  obtain ⟨d, rfl⟩ := recognizes.captured described
  cases unfound.symm.trans (recognizes.find?_append described rest)

theorem leftmost_char (recognizes : Recognizes p find? written) (unfound : find? (c :: cs) = none)
    (cut : Leftmost p written cs front found) : Leftmost p written (c :: cs) (c :: front) found := by
  cases cut with
  | done none =>
    refine .done fun w described inside => ?_
    rcases List.infix_cons_iff.mp inside with start | later
    · exact recognizes.not_prefix unfound described start
    · exact none w described later
  | next text described first behind =>
    refine .next (by rw [text, List.cons_append]) described (fun before w other start => ?_) behind
    cases before with
    | nil => exact absurd start (recognizes.not_prefix unfound other)
    | cons x before =>
      rw [List.cons_append, List.cons_prefix_cons] at start
      exact Nat.succ_le_succ (first before w other start.2)

theorem leftmost_gathered (recognizes : Recognizes p find? written) (cs : List Char) :
    Leftmost p written cs (gathered (segments find? cs)).1 (gathered (segments find? cs)).2 := by
  induction cs using segments_induction recognizes.finds with
  | nil =>
    refine .done fun w described inside => ?_
    obtain ⟨d, rfl⟩ := recognizes.captured described
    exact recognizes.nonempty d (List.infix_nil.mp inside)
  | char c cs unfound ih =>
    rw [segments_char unfound]
    exact recognizes.leftmost_char unfound ih
  | directive d rest answer some ih =>
    rw [segments_directive answer some]
    exact .next rfl (recognizes.found_iff.mp answer).1 (fun _ _ _ _ => Nat.zero_le _) ih

/-- No two matches start at one place, so the first match of a text is one and the same. -/
theorem eq_of_first (recognizes : Recognizes p find? written) {front' rest' : List Char} {d' : δ}
    (described : p.Matches (written d)) (described' : p.Matches (written d'))
    (same : front ++ (written d ++ rest) = front' ++ (written d' ++ rest'))
    (length : front.length = front'.length) : front = front' ∧ d = d' ∧ rest = rest' := by
  obtain ⟨rfl, later⟩ := List.append_inj same length
  have answer := recognizes.find?_append described rest
  rw [later, recognizes.find?_append described' rest'] at answer
  cases answer
  exact ⟨rfl, rfl, List.append_cancel_left later⟩

theorem leftmost_unique (recognizes : Recognizes p find? written) {front' : List Char}
    {found' : List (δ × List Char)} (cut : Leftmost p written cs front found)
    (cut' : Leftmost p written cs front' found') : front = front' ∧ found = found' := by
  induction cut generalizing front' found' with
  | done none =>
    cases cut' with
    | done => exact ⟨rfl, rfl⟩
    | @next _ _ rest _ _ _ text described =>
      exact absurd ⟨front', rest, by rw [text, List.append_assoc]⟩ (none _ described)
  | @next cs front rest gap d found text described first _ ih =>
    cases cut' with
    | done none => exact absurd ⟨front, rest, by rw [text, List.append_assoc]⟩ (none _ described)
    | @next _ _ rest' gap' d' _ text' described' first' behind' =>
      have here : front ++ written d <+: cs := ⟨rest, by rw [text, List.append_assoc]⟩
      have here' : front' ++ written d' <+: cs := ⟨rest', by rw [text', List.append_assoc]⟩
      have length := Nat.le_antisymm (first _ _ described' here') (first' _ _ described here)
      obtain ⟨rfl, rfl, rfl⟩ := recognizes.eq_of_first described described' (text.symm.trans text') length
      obtain ⟨rfl, rfl⟩ := ih behind'
      exact ⟨rfl, rfl⟩

theorem leftmost_iff (recognizes : Recognizes p find? written) : Leftmost p written cs front found ↔
    front = (gathered (segments find? cs)).1 ∧ found = (gathered (segments find? cs)).2 :=
  ⟨fun cut => recognizes.leftmost_unique cut (recognizes.leftmost_gathered cs),
    fun ⟨first, second⟩ => first ▸ second ▸ recognizes.leftmost_gathered cs⟩

/-- A text without a mark that every directive holds is left whole. -/
theorem gathered_of_unmarked (recognizes : Recognizes p find? written) {mark : List Char}
    (marked : ∀ d, mark <:+: written d) (unmarked : ¬hasMark mark cs = true) :
    gathered (segments find? cs) = (cs, []) := by
  have whole : Leftmost p written cs cs [] := by
    refine .done fun w described inside => ?_
    obtain ⟨d, rfl⟩ := recognizes.captured described
    exact unmarked <| hasMark_iff_infix.mpr <| (marked d).trans inside
  obtain ⟨first, second⟩ := recognizes.leftmost_iff.mp whole
  exact Prod.ext first.symm second.symm

end Recognizes

end Cuts

/-! ### Replacements from left to right -/

section Filling
variable {σ ε δ : Type} {replace : δ → StateM σ (Except ε String)} {s t : σ} {cause : ε} {out gap : List Char}
  {d : δ} {found : List (δ × List Char)} {rest pieces : List (Segment δ)}

/-- Every directive has a replacement. The text is these in order, each with what stands behind its directive. -/
inductive Filled (replace : δ → StateM σ (Except ε String)) :
    σ → List (δ × List Char) → List Char → σ → Prop
  | nil {s : σ} : Filled replace s [] [] s
  | cons {s m t : σ} {d : δ} {gap out : List Char} {text : String} {found : List (δ × List Char)} :
      (replace d).run s = (.ok text, m) → Filled replace m found out t →
      Filled replace s ((d, gap) :: found) (text.toList ++ (gap ++ out)) t

/-- A directive has no replacement, and every one in front of it has. -/
def FailsFirst (replace : δ → StateM σ (Except ε String)) (s : σ) (found : List (δ × List Char)) (cause : ε)
    (t : σ) : Prop :=
  ∃ before d gap after out m, found = before ++ (d, gap) :: after ∧ Filled replace s before out m ∧
    (replace d).run m = (.error cause, t)

theorem filled_cons_iff : Filled replace s ((d, gap) :: found) out t ↔ ∃ text m later,
    (replace d).run s = (.ok text, m) ∧ Filled replace m found later t ∧ out = text.toList ++ (gap ++ later) := by
  constructor
  · rintro ⟨⟩
    exact ⟨_, _, _, ‹_›, ‹_›, rfl⟩
  · rintro ⟨text, m, later, replaced, filled, rfl⟩
    exact .cons replaced filled

theorem not_failsFirst_nil : ¬FailsFirst replace s [] cause t := by
  rintro ⟨before, d, gap, after, -, -, none, -⟩
  exact absurd none.symm (List.append_ne_nil_of_right_ne_nil _ (List.cons_ne_nil _ _))

theorem failsFirst_cons_iff : FailsFirst replace s ((d, gap) :: found) cause t ↔
    (replace d).run s = (.error cause, t) ∨
      ∃ text m, (replace d).run s = (.ok text, m) ∧ FailsFirst replace m found cause t := by
  constructor
  · rintro ⟨_ | ⟨_, before⟩, b, gap', after, out, m, split, filled, failed⟩
    · cases split
      cases filled
      exact .inl failed
    · cases split
      obtain ⟨text, m', later, replaced, filled, -⟩ := filled_cons_iff.mp filled
      exact .inr ⟨text, m', replaced, before, b, gap', after, later, m, rfl, filled, failed⟩
  · rintro (failed | ⟨text, m, replaced, before, b, gap', after, out, m', rfl, filled, failed⟩)
    · exact ⟨[], d, gap, found, [], s, rfl, .nil, failed⟩
    · exact ⟨(d, gap) :: before, b, gap', after, _, m', rfl, .cons replaced filled, failed⟩

/-- Puts the replacement of each directive in its place, up to the first that has none. -/
def fillSegments (replace : δ → StateM σ (Except ε String)) :
    List (Segment δ) → StateM σ (Except ε (List Char))
  | [] => pure (.ok [])
  | .char c :: rest => do return (← fillSegments replace rest).map (c :: ·)
  | .directive d :: rest => do
    match ← replace d with
    | .error cause => pure (.error cause)
    | .ok text => return (← fillSegments replace rest).map (text.toList ++ ·)

theorem fillSegments_char (c : Char) (rest : List (Segment δ)) (s : σ) :
    (fillSegments replace (.char c :: rest)).run s =
      (((fillSegments replace rest).run s).1.map (c :: ·), ((fillSegments replace rest).run s).2) := rfl

theorem fillSegments_failed (rest : List (Segment δ)) (failed : (replace d).run s = (.error cause, t)) :
    (fillSegments replace (.directive d :: rest)).run s = (.error cause, t) := by
  rw [fillSegments, Engine.run_bind_eq, failed]
  rfl

theorem fillSegments_replaced {text : String} (rest : List (Segment δ))
    (replaced : (replace d).run s = (.ok text, t)) :
    (fillSegments replace (.directive d :: rest)).run s =
      (((fillSegments replace rest).run t).1.map (text.toList ++ ·), ((fillSegments replace rest).run t).2) := by
  rw [fillSegments, Engine.run_bind_eq, replaced]
  rfl

theorem map_eq_ok_iff {α β : Type} {result : Except ε α × σ} {f : α → β} {b : β} :
    (result.1.map f, result.2) = (.ok b, t) ↔ ∃ a, result = (.ok a, t) ∧ b = f a := by
  obtain ⟨_ | a, m⟩ := result
  · simp [Except.map]
  · simp [Except.map, and_comm, eq_comm]

theorem map_eq_error_iff {α β : Type} {result : Except ε α × σ} {f : α → β} :
    (result.1.map f, result.2) = (.error cause, t) ↔ result = (.error cause, t) := by
  obtain ⟨_ | a, m⟩ := result <;> simp [Except.map]

theorem fillSegments_eq_ok_iff : (fillSegments replace pieces).run s = (.ok out, t) ↔
    ∃ text, Filled replace s (gathered pieces).2 text t ∧ out = (gathered pieces).1 ++ text := by
  induction pieces generalizing s out with
  | nil =>
    constructor
    · intro done
      cases done
      exact ⟨[], .nil, rfl⟩
    · rintro ⟨_, ⟨⟩, rfl⟩
      rfl
  | cons piece rest ih =>
    cases piece with
    | char c =>
      rw [fillSegments_char, map_eq_ok_iff]
      simp only [ih, gathered, List.cons_append]
      constructor
      · rintro ⟨_, ⟨text, filled, rfl⟩, rfl⟩
        exact ⟨text, filled, rfl⟩
      · rintro ⟨text, filled, rfl⟩
        exact ⟨_, ⟨text, filled, rfl⟩, rfl⟩
    | directive d =>
      simp only [gathered, filled_cons_iff, List.nil_append]
      cases run : (replace d).run s with
      | mk result m =>
        cases result with
        | error cause =>
          rw [fillSegments_failed rest run]
          exact ⟨nofun, fun ⟨_, ⟨_, _, _, replaced, _⟩, _⟩ => nomatch replaced⟩
        | ok text =>
          rw [fillSegments_replaced rest run, map_eq_ok_iff]
          simp only [ih]
          constructor
          · rintro ⟨_, ⟨later, filled, rfl⟩, rfl⟩
            exact ⟨_, ⟨text, m, later, rfl, filled, rfl⟩, rfl⟩
          · rintro ⟨_, ⟨text, m, later, ⟨⟩, filled, rfl⟩, rfl⟩
            exact ⟨_, ⟨later, filled, rfl⟩, rfl⟩

theorem fillSegments_eq_error_iff : (fillSegments replace pieces).run s = (.error cause, t) ↔
    FailsFirst replace s (gathered pieces).2 cause t := by
  induction pieces generalizing s with
  | nil => exact ⟨nofun, fun fails => absurd fails not_failsFirst_nil⟩
  | cons piece rest ih =>
    cases piece with
    | char c => rw [fillSegments_char, map_eq_error_iff, ih, gathered]
    | directive d =>
      rw [gathered, failsFirst_cons_iff]
      cases run : (replace d).run s with
      | mk result m =>
        cases result with
        | error first =>
          rw [fillSegments_failed rest run]
          constructor
          · intro failed
            cases failed
            exact .inl rfl
          · rintro (failed | ⟨_, _, replaced, -⟩)
            · cases failed
              rfl
            · cases replaced
        | ok text =>
          rw [fillSegments_replaced rest run, map_eq_error_iff, ih]
          constructor
          · exact fun later => .inr ⟨text, m, rfl, later⟩
          · rintro (failed | ⟨_, _, replaced, later⟩)
            · cases failed
            · cases replaced
              exact later

end Filling

/-! ### The patterns of the directives -/

section Patterns
variable {cs : List Char} {length : Nat} {name path : String}

/-- An `@apply` behind a brace or a blank, with what it applies and the character that ends it. -/
def applyPattern : Pattern :=
  .seq (.one fun c => c = '\x7b' || isBlank c)
    (.behind applyMark (.seq (.plus (!isApplyEnd ·)) (.one isApplyEnd)))

def screenPattern : Pattern :=
  .behind screenMark (.seq (.plus isScreenNameChar) (.char ')'))

def themePattern : Pattern :=
  .behind themeMark (.seq (.plus (· ≠ ')')) (.behind ['"'] (.char ')')))

/-- The texts that fit are the ones described, and they are found wherever they stand. -/
theorem recognizes_of_fits {δ : Type} {p : Pattern} {find? : List Char → Option (δ × Nat)} {written : δ → List Char}
    {fits : δ → Prop} (described : ∀ {w}, p.Matches w ↔ ∃ d, fits d ∧ written d = w) (finds : Finds find? written)
    (sound : ∀ {cs d length}, find? cs = some (d, length) → fits d)
    (complete : ∀ {d}, fits d → ∀ rest, find? (written d ++ rest) = some (d, (written d).length))
    (nonempty : ∀ d, written d ≠ []) (injective : Function.Injective written) : Recognizes p find? written where
  found_iff := by
    intro cs d length
    constructor
    · intro found
      obtain ⟨same, start, -⟩ := finds found
      exact ⟨described.mpr ⟨d, sound found, rfl⟩, same, start⟩
    · rintro ⟨isOne, rfl, rest, rfl⟩
      obtain ⟨b, isFit, same⟩ := described.mp isOne
      exact complete (injective same ▸ isFit) rest
  captured isOne := (described.mp isOne).imp fun _ => And.right
  nonempty := nonempty

theorem written_injective : Function.Injective Apply.written := by
  rintro ⟨opening, tokens, closing⟩ ⟨opening', tokens', closing'⟩ same
  obtain ⟨rfl, later⟩ := List.cons.inj same
  obtain ⟨rfl, last⟩ := List.append_inj' (List.append_cancel_left later) rfl
  cases last
  rfl

theorem matches_applyPattern_iff {w : List Char} :
    applyPattern.Matches w ↔ ∃ a : Apply, a.Fits ∧ a.written = w := by
  simp only [applyPattern, Pattern.matches_seq_iff, Pattern.matches_one_iff, Pattern.matches_behind_iff,
    Pattern.matches_plus_iff, Bool.not_eq_true']
  constructor
  · rintro ⟨_, _, ⟨opening, rfl, opens⟩, ⟨_, ⟨tokens, _, ⟨some, inner⟩, ⟨closing, rfl, closes⟩, rfl⟩, rfl⟩, rfl⟩
    exact ⟨⟨opening, tokens, closing⟩, ⟨opens, some, inner, closes⟩, rfl⟩
  · rintro ⟨⟨opening, tokens, closing⟩, ⟨opens, some, inner, closes⟩, rfl⟩
    exact ⟨[opening], _, ⟨opening, rfl, opens⟩, ⟨_, ⟨tokens, _, ⟨some, inner⟩, ⟨closing, rfl, closes⟩, rfl⟩, rfl⟩, rfl⟩

theorem recognizes_applyAt? : Recognizes applyPattern applyAt? Apply.written :=
  recognizes_of_fits matches_applyPattern_iff finds_applyAt? (fun found => (fits_of_applyAt? found).1) applyAt?_of_fits
    (fun _ => List.cons_ne_nil _ _) written_injective

/-- A name that a call of `screen()` can hold. -/
def IsScreenName (name : String) : Prop :=
  name.toList ≠ [] ∧ ∀ c ∈ name.toList, isScreenNameChar c = true

/-- A path that a call of `theme()` can hold. -/
def IsThemePath (path : String) : Prop :=
  path.toList ≠ [] ∧ ∀ c ∈ path.toList, c ≠ ')'

theorem screenCall?_append (isName : IsScreenName name) (rest : List Char) :
    screenCall? (screenWritten name ++ rest) = some (name, (screenWritten name).length) := by
  have taken : (name.toList ++ ')' :: rest).takeWhile isScreenNameChar = name.toList := by
    rw [List.takeWhile_append_of_pos isName.2, List.takeWhile_cons_of_neg (by decide), List.append_nil]
  have some : name.toList.isEmpty = false := by simp [isName.1]
  have length : (screenWritten name).length = screenMark.length + name.toList.length + 1 := by
    rw [screenWritten, List.length_append, List.length_append, List.length_singleton, Nat.add_assoc]
  rw [length, screenWritten, List.append_assoc, List.append_assoc, List.singleton_append]
  unfold screenCall?
  rw [isPrefixOf?_append]
  dsimp only [Option.bind_eq_bind, Option.bind_some]
  rw [taken, some, List.drop_left, List.head?_cons, String.ofList_toList]
  rfl

theorem isScreenName_of_screenCall? (found : screenCall? cs = some (name, length)) : IsScreenName name := by
  obtain ⟨rest, -, found⟩ := Option.bind_eq_some_iff.mp found
  dsimp only at found
  split at found
  · cases found
  · rename_i some
    split at found
    · cases found
      rw [IsScreenName, String.toList_ofList]
      exact ⟨fun none => some (List.isEmpty_iff.mpr none), fun c member =>
        List.all_eq_true.mp List.all_takeWhile c member⟩
    · cases found

theorem themeCall?_append (isPath : IsThemePath path) (rest : List Char) :
    themeCall? (themeWritten path ++ rest) = some (path, (themeWritten path).length) := by
  have inner : ∀ c ∈ path.toList ++ ['"'], decide (c ≠ ')') = true := by
    intro c member
    rcases List.mem_append.mp member with member | quote
    · exact decide_eq_true (isPath.2 c member)
    · rw [List.mem_singleton.mp quote]
      decide
  have taken : (path.toList ++ ['"'] ++ ')' :: rest).takeWhile (· ≠ ')') = path.toList ++ ['"'] := by
    rw [List.takeWhile_append_of_pos inner, List.takeWhile_cons_of_neg (by decide), List.append_nil]
  have passed : (path.toList ++ ['"']).length ≠ (path.toList ++ ['"'] ++ ')' :: rest).length := by
    simp
  have some : path.toList.isEmpty = false := by simp [isPath.1]
  have text : themeWritten path ++ rest = themeMark ++ (path.toList ++ ['"'] ++ ')' :: rest) := by
    simp [themeWritten]
  have length : (themeWritten path).length = themeMark.length + (path.toList ++ ['"']).length + 1 := by
    simp [themeWritten]
    omega
  rw [length, text]
  unfold themeCall?
  rw [isPrefixOf?_append]
  dsimp only [Option.bind_eq_bind, Option.bind_some]
  rw [taken, if_neg passed, unclose?_eq_some_iff.mpr rfl]
  dsimp only [Option.bind_some]
  rw [some, String.ofList_toList]
  rfl

theorem isThemePath_of_themeCall? (found : themeCall? cs = some (path, length)) : IsThemePath path := by
  obtain ⟨rest, -, found⟩ := Option.bind_eq_some_iff.mp found
  dsimp only at found
  split at found
  · cases found
  · obtain ⟨inner, quoted, found⟩ := Option.bind_eq_some_iff.mp found
    split at found
    · cases found
    · rename_i some
      cases found
      rw [IsThemePath, String.toList_ofList]
      refine ⟨fun none => some (List.isEmpty_iff.mpr none), fun c member => ?_⟩
      have inside : c ∈ rest.takeWhile (· ≠ ')') := by
        rw [unclose?_eq_some_iff.mp quoted]
        exact List.mem_append_left _ member
      simpa using List.all_eq_true.mp List.all_takeWhile c inside

theorem matches_screenPattern_iff {w : List Char} :
    screenPattern.Matches w ↔ ∃ name, IsScreenName name ∧ screenWritten name = w := by
  simp only [screenPattern, Pattern.matches_behind_iff, Pattern.matches_seq_iff, Pattern.matches_plus_iff,
    Pattern.matches_char_iff]
  constructor
  · rintro ⟨_, ⟨name, _, isName, rfl, rfl⟩, rfl⟩
    exact ⟨.ofList name, by rwa [IsScreenName, String.toList_ofList], by rw [screenWritten, String.toList_ofList]⟩
  · rintro ⟨name, isName, rfl⟩
    exact ⟨_, ⟨name.toList, _, isName, rfl, rfl⟩, rfl⟩

theorem matches_themePattern_iff {w : List Char} :
    themePattern.Matches w ↔ ∃ path, IsThemePath path ∧ themeWritten path = w := by
  simp only [themePattern, Pattern.matches_behind_iff, Pattern.matches_seq_iff, Pattern.matches_plus_iff,
    Pattern.matches_char_iff, decide_eq_true_eq]
  constructor
  · rintro ⟨_, ⟨path, _, isPath, ⟨_, rfl, rfl⟩, rfl⟩, rfl⟩
    exact ⟨.ofList path, by rwa [IsThemePath, String.toList_ofList], by rw [themeWritten, String.toList_ofList]; rfl⟩
  · rintro ⟨path, isPath, rfl⟩
    exact ⟨_, ⟨path.toList, _, isPath, ⟨_, rfl, rfl⟩, rfl⟩, rfl⟩

theorem recognizes_screenCall? : Recognizes screenPattern screenCall? screenWritten :=
  recognizes_of_fits matches_screenPattern_iff finds_screenCall? isScreenName_of_screenCall? screenCall?_append
    (fun _ => List.cons_ne_nil _ _)
    fun _ _ same => String.toList_injective (List.append_cancel_right (List.append_cancel_left same))

theorem recognizes_themeCall? : Recognizes themePattern themeCall? themeWritten :=
  recognizes_of_fits matches_themePattern_iff finds_themeCall? isThemePath_of_themeCall? themeCall?_append
    (fun _ => List.cons_ne_nil _ _)
    fun _ _ same => String.toList_injective (List.append_cancel_right (List.append_cancel_left same))

/-- Calls stand at the start, next to one another and at the end. -/
example : gathered (segments themeCall? "theme(\"a\")theme(\"b\") theme(\"c\")".toList) =
    ([], [("a", []), ("b", [' ']), ("c", [])]) := rfl

end Patterns

/-! ### The three passes -/

section Passes
variable {σ ε δ : Type} {p : Pattern} {find? : List Char → Option (δ × Nat)} {written : δ → List Char}

/-- A pass cuts every text at the leftmost matches of the pattern, and there is one way to do that. It ends in a text if
all matches have a replacement: the text with these in their places. Otherwise it ends in the error of the first match
that has none. -/
def ReplacesLeftmost (p : Pattern) (written : δ → List Char) (replace : δ → StateM σ (Except ε String))
    (pass : String → StateM σ (Except ε String)) : Prop :=
  ∀ css : String, ∃ front found,
    (∀ front' found', Leftmost p written css.toList front' found' ↔ front' = front ∧ found' = found) ∧
    (∀ s out t, (pass css).run s = (.ok out, t) ↔ ∃ text, Filled replace s found text t ∧ out.toList = front ++ text) ∧
    ∀ s cause t, (pass css).run s = (.error cause, t) ↔ FailsFirst replace s found cause t

/-- A step that neither reads nor changes the state. -/
def stateless (σ : Type) (step : δ → Except ε String) (d : δ) : StateM σ (Except ε String) :=
  pure (step d)

/-- What an `@apply` gives way to, if its tokens can be applied and the character in front of it can be kept. -/
def linesFor (apply : String → String → StateM σ (Except ε (List String))) (a : Apply) :
    StateM σ (Except (ApplyFailure ε) String) := do
  match ← apply (String.ofList a.tokens) a.text with
  | .error cause => pure (.error (.failed cause))
  | .ok lines => pure (a.replacement lines)

/-- Replaces every `@apply`, whether or not the text holds the mark of one. -/
def applyAll (apply : String → String → StateM σ (Except ε (List String))) (css : String) :
    StateM σ (Except (ApplyFailure ε) String) := do
  return (← applySegments apply (segments applyAt? css.toList)).map String.ofList

theorem replacesLeftmost_of_run {replace : δ → StateM σ (Except ε String)} {pass : String → StateM σ (Except ε String)}
    (recognizes : Recognizes p find? written)
    (run : ∀ css s, (pass css).run s = (((fillSegments replace (segments find? css.toList)).run s).1.map String.ofList,
      ((fillSegments replace (segments find? css.toList)).run s).2)) : ReplacesLeftmost p written replace pass := by
  intro css
  refine ⟨_, _, fun front' found' => recognizes.leftmost_iff, fun s out t => ?_, fun s cause t => ?_⟩
  · rw [run, map_eq_ok_iff]
    constructor
    · rintro ⟨_, done, rfl⟩
      obtain ⟨text, filled, rfl⟩ := fillSegments_eq_ok_iff.mp done
      exact ⟨text, filled, String.toList_ofList⟩
    · rintro ⟨text, filled, same⟩
      exact ⟨_, fillSegments_eq_ok_iff.mpr ⟨text, filled, rfl⟩, by rw [← same, String.ofList_toList]⟩
  · rw [run, map_eq_error_iff, fillSegments_eq_error_iff]

section Apply
variable {apply : String → String → StateM σ (Except ε (List String))} {a : Apply} {s t : σ}

theorem linesFor_failed {cause : ε} (failed : (apply (String.ofList a.tokens) a.text).run s = (.error cause, t)) :
    (linesFor apply a).run s = (.error (.failed cause), t) := by
  rw [linesFor, Engine.run_bind_eq, failed]
  rfl

theorem linesFor_applied {lines : List String}
    (applied : (apply (String.ofList a.tokens) a.text).run s = (.ok lines, t)) :
    (linesFor apply a).run s = (a.replacement lines, t) := by
  rw [linesFor, Engine.run_bind_eq, applied]
  rfl

theorem applySegments_run (pieces : List (Segment Apply)) (s : σ) :
    (applySegments apply pieces).run s = (fillSegments (linesFor apply) pieces).run s := by
  induction pieces generalizing s with
  | nil => rfl
  | cons piece rest ih =>
    cases piece with
    | char c => rw [Engine.applySegments_char, fillSegments_char, ih]
    | directive a =>
      cases run : (apply (String.ofList a.tokens) a.text).run s with
      | mk result m =>
        cases result with
        | error cause => rw [Engine.applySegments_failed rest run, fillSegments_failed rest (linesFor_failed run)]
        | ok lines =>
          have lined := linesFor_applied run
          rw [applySegments, Engine.run_bind_eq, run]
          dsimp only
          cases replaced : (a.replacement lines : Except (ApplyFailure ε) String) with
          | error failure =>
            rw [replaced] at lined
            rw [fillSegments_failed rest lined]
            rfl
          | ok text =>
            rw [replaced] at lined
            rw [fillSegments_replaced rest lined, ← ih]
            rfl

end Apply

theorem fillSegments_stateless (replace : δ → Except ε String) (pieces : List (Segment δ)) (s : σ) :
    (fillSegments (stateless σ replace) pieces).run s = (replaceSegments replace pieces, s) := by
  induction pieces with
  | nil => rfl
  | cons piece rest ih =>
    cases piece with
    | char c =>
      rw [fillSegments_char, ih, replaceSegments]
      cases replaceSegments replace rest <;> rfl
    | directive d =>
      have run : (stateless σ replace d).run s = (replace d, s) := rfl
      rw [replaceSegments]
      cases replaced : replace d with
      | error cause =>
        rw [replaced] at run
        exact fillSegments_failed rest run
      | ok text =>
        rw [replaced] at run
        rw [fillSegments_replaced rest run, ih]
        cases replaceSegments replace rest <;> rfl

theorem fillSegments_of_unmarked (recognizes : Recognizes p find? written) {mark cs : List Char}
    (marked : ∀ d, mark <:+: written d) (unmarked : ¬hasMark mark cs = true) (replace : δ → StateM σ (Except ε String))
    (s : σ) : (fillSegments replace (segments find? cs)).run s = (.ok cs, s) := by
  refine fillSegments_eq_ok_iff.mpr ⟨[], ?_, ?_⟩
  · rw [recognizes.gathered_of_unmarked marked unmarked]
    exact .nil
  · rw [recognizes.gathered_of_unmarked marked unmarked, List.append_nil]

theorem replaceAll_of_unmarked (recognizes : Recognizes p find? written) {mark : List Char} {css : String}
    (marked : ∀ d, mark <:+: written d) (unmarked : ¬hasMark mark css.toList = true)
    (replace : δ → Except ε String) : replaceAll find? replace css = .ok css := by
  have whole := fillSegments_of_unmarked recognizes marked unmarked (stateless Unit replace) ()
  rw [fillSegments_stateless] at whole
  rw [replaceAll, (Prod.mk.inj whole).1, Except.map, String.ofList_toList]

theorem replacesLeftmost_replaceAll (recognizes : Recognizes p find? written) (replace : δ → Except ε String) :
    ReplacesLeftmost p written (stateless σ replace) (stateless σ (replaceAll find? replace)) := by
  refine replacesLeftmost_of_run recognizes fun css s => ?_
  rw [fillSegments_stateless]
  rfl

theorem replaceApply_eq_applyAll (apply : String → String → StateM σ (Except ε (List String))) :
    replaceApply apply = applyAll apply := by
  funext css s
  unfold replaceApply
  split
  · rfl
  · rename_i unmarked
    have marked : ∀ a : Apply, applyMark <:+: a.written := fun a => ⟨[a.opening], a.tokens ++ [a.closing], rfl⟩
    have whole := fillSegments_of_unmarked recognizes_applyAt? marked unmarked (linesFor apply) s
    rw [← applySegments_run] at whole
    have run : applyAll apply css s = (((applySegments apply (segments applyAt? css.toList)).run s).1.map String.ofList,
        ((applySegments apply (segments applyAt? css.toList)).run s).2) := rfl
    rw [run, whole, Except.map, String.ofList_toList]
    rfl

theorem replaceScreens_eq_replaceAll (variants : VariantTable) :
    replaceScreens variants = replaceAll screenCall? (screenCondition variants) := by
  funext css
  unfold replaceScreens
  split
  · rfl
  · rename_i unmarked
    have marked : ∀ name, screenMark <:+: screenWritten name := fun _ => (List.prefix_append _ _).isInfix
    exact (replaceAll_of_unmarked recognizes_screenCall? marked unmarked _).symm

theorem replaceTheme_eq_replaceAll (theme : Theme) :
    replaceTheme theme = replaceAll themeCall? (themeValue theme) := by
  funext css
  unfold replaceTheme
  split
  · rfl
  · rename_i unmarked
    have marked : ∀ path, themeMark <:+: themeWritten path := fun _ => (List.prefix_append _ _).isInfix
    exact (replaceAll_of_unmarked recognizes_themeCall? marked unmarked _).symm

theorem replacesLeftmost_applyAll (apply : String → String → StateM σ (Except ε (List String))) :
    ReplacesLeftmost applyPattern Apply.written (linesFor apply) (applyAll apply) := by
  refine replacesLeftmost_of_run recognizes_applyAt? fun css s => ?_
  rw [← applySegments_run]
  rfl

/-- Each pass is the same with its early return and without. It replaces the leftmost matches of its pattern one by one
and keeps the text around them, or fails as the first match that has no replacement. An `@apply` behind a blank that
cannot be kept is such a match. -/
theorem passes_replace_leftmost (apply : String → String → StateM σ (Except ε (List String)))
    (variants : VariantTable) (theme : Theme) :
    (replaceApply apply = applyAll apply ∧
      ReplacesLeftmost applyPattern Apply.written (linesFor apply) (replaceApply apply)) ∧
    (replaceScreens variants = replaceAll screenCall? (screenCondition variants) ∧
      ReplacesLeftmost screenPattern screenWritten (stateless σ (screenCondition variants))
        (stateless σ (replaceScreens variants))) ∧
    (replaceTheme theme = replaceAll themeCall? (themeValue theme) ∧
      ReplacesLeftmost themePattern themeWritten (stateless σ (themeValue theme))
        (stateless σ (replaceTheme theme))) := by
  rw [replaceApply_eq_applyAll, replaceScreens_eq_replaceAll, replaceTheme_eq_replaceAll]
  exact ⟨⟨rfl, replacesLeftmost_applyAll apply⟩, ⟨rfl, replacesLeftmost_replaceAll recognizes_screenCall? _⟩,
    ⟨rfl, replacesLeftmost_replaceAll recognizes_themeCall? _⟩⟩

end Passes

end Directive

end UtilityCss
