import UtilityCss.Proofs.Rescans

/-!
# Sources in chunks

No token lies across a border, so the tokens of a text that is cut at a border are those of its two halves. A scan of
the second half passes over the tokens that the first has settled. So a source may be scanned as a whole or in
chunks, `scan_chunks`.
-/

namespace UtilityCss

/-! ### Texts cut in two -/

namespace Text

variable {cut : Char → Bool} {x : Char}

theorem splitAt_ne_nil (cs : List Char) : splitAt cut cs ≠ [] := by
  cases cs with
  | nil => exact List.cons_ne_nil _ _
  | cons c cs =>
    rw [splitAt_cons]
    split
    · exact List.cons_ne_nil _ _
    · cases splitAt cut cs <;> exact List.cons_ne_nil _ _

theorem splitAt_append_cons (border : cut x = true) (a b : List Char) :
    splitAt cut (a ++ x :: b) = splitAt cut a ++ splitAt cut b := by
  induction a with
  | nil => rw [List.nil_append, splitAt_cons, if_pos border, splitAt_nil, List.singleton_append]
  | cons c a ih =>
    rw [List.cons_append, splitAt_cons, splitAt_cons, ih]
    split
    · rfl
    · -- The character goes to the first part of the first half, and there is one.
      obtain ⟨first, parts, split⟩ := List.exists_cons_of_ne_nil (@splitAt_ne_nil cut a)
      rw [split]
      rfl

end Text

/-! ### Lists without repeats -/

section Repeats
variable {α : Type} [DecidableEq α]

/-- Behind its first item a list goes on without the repeats of that item. -/
@[elab_as_elim]
theorem eraseDups_induction {motive : List α → Prop} (nil : motive [])
    (cons : ∀ x xs, motive (xs.filter fun y => !y == x) → motive (x :: xs)) (xs : List α) : motive xs := by
  induction size : xs.length using Nat.strongRecOn generalizing xs with
  | ind n ih =>
    cases xs with
    | nil => exact nil
    | cons x xs =>
      have shorter := List.length_filter_le (fun y => !y == x) xs
      rw [List.length_cons] at size
      exact cons x xs (ih _ (by omega) _ rfl)

theorem eraseDups_filter (p : α → Bool) (xs : List α) : (xs.filter p).eraseDups = xs.eraseDups.filter p := by
  induction xs using eraseDups_induction with
  | nil => rfl
  | cons x xs ih =>
    rw [List.eraseDups_cons]
    by_cases kept : p x = true
    · rw [List.filter_cons_of_pos kept, List.filter_cons_of_pos kept, List.eraseDups_cons, ← ih, List.filter_filter,
        List.filter_filter]
      simp only [Bool.and_comm]
    · rw [List.filter_cons_of_neg kept, List.filter_cons_of_neg kept, ← ih, List.filter_filter]
      -- What the filter keeps is not the item that it drops.
      have other : ∀ y, (p y && !y == x) = p y := by
        intro y
        by_cases same : y = x
        · rw [same, Bool.eq_false_iff.mpr kept, Bool.false_and]
        · simp [same]
      simp only [other]

theorem nodup_eraseDups (xs : List α) : xs.eraseDups.Nodup := by
  induction xs using eraseDups_induction with
  | nil => exact List.nodup_nil
  | cons x xs ih =>
    rw [List.eraseDups_cons, List.nodup_cons]
    exact ⟨by simp [List.mem_eraseDups], ih⟩

theorem eraseDups_append_filter (xs ys : List α) :
    (xs ++ ys).eraseDups = xs.eraseDups ++ ys.eraseDups.filter (· ∉ xs.eraseDups) := by
  rw [List.eraseDups_append, List.removeAll, eraseDups_filter]
  simp [List.mem_eraseDups]

end Repeats

/-! ### Tokens -/

namespace Token

variable {x : Char}

theorem occurrences_append_cons (border : isBorder x = true) (a b : List Char) :
    occurrences (a ++ x :: b) = occurrences a ++ occurrences b := by
  rw [occurrences, Text.splitAt_append_cons border, List.filter_append, List.filterMap_append]
  rfl

theorem extract_append_border (border : isBorder x = true) (a b : String) :
    extract (a ++ String.singleton x ++ b) = extract a ++ (extract b).filter (· ∉ extract a) := by
  have chars : (a ++ String.singleton x ++ b).toList = a.toList ++ x :: b.toList := by simp
  rw [extract, chars, occurrences_append_cons border, List.map_append, eraseDups_append_filter]
  rfl

end Token

/-! ### Scans -/

namespace Engine

variable {settings : Settings} {fresh e : Engine} {blocklist old : List String} {us : List Utility}
  {applied : DefaultGroups}

theorem scanTokens_append (e : Engine) (tokens more : List String) :
    e.scanTokens (tokens ++ more) = ((e.scanTokens tokens).1 || ((e.scanTokens tokens).2.scanTokens more).1,
      ((e.scanTokens tokens).2.scanTokens more).2) := by
  induction tokens generalizing e with
  | nil => rfl
  | cons token tokens ih =>
    rw [List.cons_append, scanTokens_cons, scanTokens_cons, ih]
    dsimp only
    rw [Bool.or_assoc]

/-- The memo knows the token, and if it is a utility it is registered. -/
structure Settled (fresh : Engine) (blocklist : List String) (e : Engine) (token : String) : Prop where
  known : e.memo.Knows token
  registered : fresh.Accepts blocklist token → token ∈ e.seen

theorem settled_of_takes {tokens : List String} {later : Engine} {token : String}
    (takes : Takes fresh blocklist tokens e later)
    (settled : Settled fresh blocklist e token ∨ token ∈ tokens) : Settled fresh blocklist later token := by
  rcases settled with ⟨known, registered⟩ | asked
  · exact ⟨Memo.knows_of_extends takes.memo known, fun accepted => (takes.seen token).mpr (.inl (registered accepted))⟩
  · exact ⟨takes.asked token asked, fun accepted => (takes.seen token).mpr (.inr ⟨asked, accepted⟩)⟩

/-- A scan passes over the tokens that are settled. -/
theorem scanTokens_unsettled (tokens : List String) (h : Registered fresh blocklist us applied e)
    (settled : ∀ token ∈ old, Settled fresh blocklist e token) :
    e.scanTokens (tokens.filter (· ∉ old)) = e.scanTokens tokens := by
  induction tokens generalizing e us with
  | nil => rfl
  | cons token tokens ih =>
    by_cases listed : token ∈ old
    · obtain ⟨known, registered⟩ := settled token listed
      rw [List.filter_cons_of_neg (by simpa using listed), scanTokens_cons, scanToken_of_seen h known registered,
        ih h settled]
      rfl
    · obtain ⟨us', after, -⟩ := scanToken_registered token h
      have takes := scanned_takes (.ofToken token) h
      rw [List.filter_cons_of_pos (by simpa using listed), scanTokens_cons, scanTokens_cons,
        ih after fun t member => settled_of_takes takes (.inl (settled t member))]

theorem scan_append_border {x : Char} (border : Token.isBorder x = true) (a b : String)
    (h : Registered fresh blocklist us applied e) :
    e.scan (a ++ String.singleton x ++ b) =
      ((e.scan a).1 || ((e.scan a).2.scan b).1, ((e.scan a).2.scan b).2) := by
  obtain ⟨us', after, -⟩ := scanned_registered (.ofText a) h
  have takes := scanned_takes (.ofText a) h
  have behind : (e.scan a).2.scanTokens ((Token.extract b).filter (· ∉ Token.extract a)) = (e.scan a).2.scan b :=
    scanTokens_unsettled _ after fun token member => settled_of_takes takes (.inr member)
  rw [scan, Token.extract_append_border border, scanTokens_append]
  change ((e.scan a).1 || ((e.scan a).2.scanTokens _).1, ((e.scan a).2.scanTokens _).2) = _
  rw [behind]

/-- A text with further ones behind it, each with a character in front. -/
def joined (first : String) (chunks : List (Char × String)) : String :=
  chunks.foldl (fun text chunk => text ++ String.singleton chunk.1 ++ chunk.2) first

/-- Scans the next of several texts. -/
def scanNext (state : Bool × Engine) (text : String) : Bool × Engine :=
  (state.1 || (state.2.scan text).1, (state.2.scan text).2)

theorem scan_joined (first : String) {chunks : List (Char × String)}
    (borders : ∀ chunk ∈ chunks, Token.isBorder chunk.1 = true) (h : Registered fresh blocklist us applied e) :
    e.scan (joined first chunks) = (chunks.map (·.2)).foldl scanNext (e.scan first) := by
  induction chunks generalizing first with
  | nil => rfl
  | cons chunk chunks ih =>
    obtain ⟨border, borders⟩ := List.forall_mem_cons.mp borders
    rw [joined, List.foldl_cons, List.map_cons, List.foldl_cons, ← joined, ih _ borders,
      scan_append_border border first chunk.2 h, scanNext]

/-- The tokens of a text that is cut at a border are those of the first half, and behind them those of the second half
that are not among them, each of them once. A scan of the text ends in the engine that scans of the halves end in one
after the other, and finds something new if one of them does. The same holds of any number of chunks. -/
theorem scan_chunks {x : Char} (border : Token.isBorder x = true) (a b : String) :
    Token.extract (a ++ String.singleton x ++ b) =
      Token.extract a ++ (Token.extract b).filter (· ∉ Token.extract a) ∧
    (Token.extract (a ++ String.singleton x ++ b)).Nodup ∧
    ∀ (settings : Settings) (e : Engine), Reachable settings e →
      e.scan (a ++ String.singleton x ++ b) =
        ((e.scan a).1 || ((e.scan a).2.scan b).1, ((e.scan a).2.scan b).2) ∧
      ∀ chunks : List (Char × String), (∀ chunk ∈ chunks, Token.isBorder chunk.1 = true) →
        e.scan (joined a chunks) = (chunks.map (·.2)).foldl scanNext (e.scan a) := by
  refine ⟨Token.extract_append_border border a b, nodup_eraseDups _, fun settings e reachable => ?_⟩
  obtain ⟨_, _, _, _, -, registered⟩ := reachable_registered reachable
  exact ⟨scan_append_border border a b registered, fun chunks borders => scan_joined a borders registered⟩

/-- A source that is cut behind an interpolation, and at a quote once more. -/
theorem scan_chunks_of_brace :
    Token.isBorder '\x7d' = true ∧ Token.isBorder '"' = true ∧
    Token.extract "spun flush\x7dflush p-4" = Token.extract "spun flush" ++ ["p-4"] ∧
    ∃ e : Engine, Reachable { Settings.own with safelist := fun _ => [] } e ∧
      e.scan "spun flush\x7dflush p-4" = ((e.scan "spun flush").1 || ((e.scan "spun flush").2.scan "flush p-4").1,
        ((e.scan "spun flush").2.scan "flush p-4").2) ∧
      e.scan "spun flush\x7dflush p-4\"spun" =
        ["flush p-4", "spun"].foldl scanNext (e.scan "spun flush") := by
  obtain ⟨fresh, notices, ready, own, -⟩ := prepare_own fun _ => []
  obtain ⟨e, built⟩ := build_isOk ready fun t ht => absurd ht List.not_mem_nil
  obtain ⟨tokens, -, scans⟩ := @scan_chunks '\x7d' (by decide) "spun flush" "flush p-4"
  obtain ⟨halves, chunks⟩ := scans _ e (.built built)
  exact ⟨by decide, by decide, tokens, e, .built built, halves,
    chunks [('\x7d', "flush p-4"), ('"', "spun")] (by decide)⟩

end Engine

end UtilityCss
