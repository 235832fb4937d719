import UtilityCss.Engine
import UtilityCss.Proofs.Composing
import UtilityCss.Proofs.Contents

/-!
# Histories

An engine is built from settings and then changed by one operation after the other. What it has registered is
a list of utilities, each the meaning of its token, and the cascade, the groups and the animations follow from
that list: `Registered`. Every operation keeps this, so it holds of every reachable engine.
-/

namespace UtilityCss

/-! ### Memos -/

namespace Memo

/-- What a token means to an engine: nothing if it is blocklisted. -/
def answer? (blocklist : List String) (v : Vocabulary) (token : String) : Option Utility :=
  if token ∈ blocklist then none else v.read? token

/-- A memo refuses the blocklist and remembers what the vocabulary says. -/
structure Sound (blocklist : List String) (v : Vocabulary) (memo : Memo) : Prop where
  blocked : ∀ token ∈ blocklist, token ∈ memo.refused
  refused : ∀ token ∈ memo.refused, answer? blocklist v token = none
  accepted : ∀ token u, memo.accepted[token]? = some u → answer? blocklist v token = some u

variable {blocklist : List String} {v : Vocabulary} {memo : Memo} {token : String}

theorem ofBlocklist_sound : Sound blocklist v (ofBlocklist blocklist) where
  blocked token h := by simpa [ofBlocklist] using h
  refused token h := by
    have blocked : token ∈ blocklist := by simpa [ofBlocklist] using h
    exact if_pos blocked
  accepted token u h := by simp [ofBlocklist] at h

theorem answer_of_fresh (h : Sound blocklist v memo) (fresh : token ∉ memo.refused) :
    answer? blocklist v token = v.read? token :=
  if_neg fun blocked => fresh (h.blocked token blocked)

theorem read_fst (h : Sound blocklist v memo) : (memo.read v token).1 = answer? blocklist v token := by
  unfold read
  by_cases old : memo.refused.contains token = true
  · rw [if_pos old]
    exact (h.refused token old).symm
  · rw [if_neg old]
    cases known : memo.accepted[token]? with
    | some u => exact (h.accepted token u known).symm
    | none =>
      rw [answer_of_fresh h old]
      cases v.read? token <;> rfl

theorem read_sound (h : Sound blocklist v memo) : Sound blocklist v (memo.read v token).2 := by
  unfold read
  by_cases old : memo.refused.contains token = true
  · rw [if_pos old]
    exact h
  · rw [if_neg old]
    have answer := answer_of_fresh h old
    cases known : memo.accepted[token]? with
    | some u => exact h
    | none =>
      cases meaning : v.read? token with
      | some u =>
        refine ⟨h.blocked, h.refused, fun t x hx => ?_⟩
        by_cases same : token = t
        · subst same
          have : x = u := by simpa using hx.symm
          rw [this, answer, meaning]
        · exact h.accepted t x (by simpa [Std.TreeMap.getElem?_insert, same] using hx)
      | none =>
        refine ⟨fun t ht => ?_, fun t ht => ?_, h.accepted⟩
        · simp [h.blocked t ht]
        · by_cases same : token = t
          · subst same
            rw [answer, meaning]
          · exact h.refused t (by simpa [Std.TreeSet.mem_insert, same] using ht)

end Memo

namespace Engine

/-! ### Operations -/

/-- A way to walk the accepted tokens of a file: in any order, and one that stands there twice once or
twice. -/
structure Walk where
  visit : List String → List String
  mem_visit : ∀ tokens token, token ∈ visit tokens ↔ token ∈ tokens

/-- The order in which the tokens stand in the file. -/
def Walk.inOrder : Walk :=
  ⟨id, fun _ _ => .rfl⟩

/-- Scans a file and walks its accepted tokens in any order. -/
def scanFileBy (walk : Walk) (e : Engine) (path text : String) : Bool × Engine :=
  let (accepted, e) := e.acceptedTokens (Token.extract text)
  if (e.files[path]?).any fun recorded => accepted.all recorded.contains then (false, e)
  else
    let (isNew, e) := e.scanTokens (walk.visit accepted)
    (isNew, { e with files := e.files.insert path (.ofList accepted) })

theorem scanFileBy_inOrder (e : Engine) (path text : String) :
    e.scanFileBy .inOrder path text = e.scanFile path text := by
  have visited : ∀ tokens, Walk.inOrder.visit tokens = tokens := fun _ => rfl
  unfold scanFileBy scanFile
  simp only [visited]

inductive Scan
  | ofToken (token : String)
  | ofText (text : String)
  | ofFile (walk : Walk) (path text : String)

def scanned (e : Engine) : Scan → Engine
  | .ofToken token => (e.scanToken token).2
  | .ofText text => (e.scan text).2
  | .ofFile walk path text => (e.scanFileBy walk path text).2

inductive Operation
  | scan (scan : Scan)
  | inline (text : String)
  | transform (css : String)

def next (e : Engine) : Operation → Engine
  | .scan scan => e.scanned scan
  | .inline text => (e.applyInline text).2
  | .transform css => (e.transform css).2

/-- The engines of some settings after any operations, successful or not. -/
inductive Reachable (settings : Settings) : Engine → Prop
  | built {e : Engine} {notices : List Notice} : build settings = .ok (e, notices) → Reachable settings e
  | next {e : Engine} (operation : Operation) : Reachable settings e →
      Reachable settings (e.next operation)

/-! ### What is registered -/

/-- The engine `e` came from the engine `fresh`, which has nothing registered: it has registered `us`, and
the groups `applied` are in use besides those that `us` needs. -/
structure Registered (fresh : Engine) (blocklist : List String) (us : List Utility) (applied : DefaultGroups)
    (e : Engine) : Prop where
  theme : e.theme = fresh.theme
  vocabulary : e.vocabulary = fresh.vocabulary
  shortcuts : e.shortcuts = fresh.shortcuts
  memo : e.memo.Sound blocklist e.vocabulary
  cascade : e.cascade.Holds (Cascade.screenSeeds fresh.theme.screens fresh.vocabulary.variants)
    (us.map Utility.placement)
  meaning : ∀ u ∈ us, Memo.answer? blocklist e.vocabulary u.token = some u
  distinct : (us.map (·.token)).Nodup
  seen : ∀ token, token ∈ e.seen ↔ token ∈ us.map (·.token)
  groups : ∀ g, g ∈ e.groups ↔ g ∈ applied ∨ ∃ u ∈ us, g ∈ groupsOf e.shortcuts u
  keyframes : ∀ name, name ∈ e.keyframes ↔ ∃ u ∈ us, keyframesOf? e.theme u = some name
  files : ∀ (path : String) (recorded : Std.TreeSet String), e.files[path]? = some recorded →
    ∀ token ∈ recorded, token ∈ e.seen

/-- A token that is a utility and not blocklisted. -/
def Accepts (e : Engine) (blocklist : List String) (token : String) : Prop :=
  (Memo.answer? blocklist e.vocabulary token).isSome = true

variable {fresh e : Engine} {blocklist : List String} {us : List Utility} {applied : DefaultGroups}

theorem token_of_answer {v : Vocabulary} {token : String} {u : Utility}
    (h : Memo.answer? blocklist v token = some u) : u.token = token := by
  unfold Memo.answer? at h
  split at h
  · exact absurd h (by simp)
  · simp only [Vocabulary.read?, Option.bind_eq_bind, Option.bind_eq_some_iff] at h
    obtain ⟨_, _, _, _, made⟩ := h
    exact congrArg Utility.token (Option.some.inj made).symm

theorem read_registered (token : String) (h : Registered fresh blocklist us applied e) :
    Registered fresh blocklist us applied (e.read token).2 :=
  { h with memo := Memo.read_sound h.memo }

theorem register_seen (e : Engine) (u : Utility) (token : String) :
    token ∈ (e.register u).2.seen ↔ token ∈ e.seen ∨ token = u.token := by
  unfold register
  by_cases old : e.seen.contains u.token = true
  · rw [if_pos old]
    constructor
    · exact Or.inl
    · rintro (h | rfl)
      · exact h
      · exact old
  · rw [if_neg old]
    simp only [Std.TreeSet.mem_insert, Std.LawfulEqCmp.compare_eq_iff_eq]
    rw [or_comm, @eq_comm _ token]

theorem register_registered {u : Utility} (h : Registered fresh blocklist us applied e)
    (meaning : Memo.answer? blocklist e.vocabulary u.token = some u) :
    ∃ us', Registered fresh blocklist us' applied (e.register u).2 := by
  have seen := register_seen e u
  unfold register at seen ⊢
  by_cases old : e.seen.contains u.token = true
  · rw [if_pos old]
    exact ⟨us, h⟩
  · rw [if_neg old] at seen ⊢
    have isNew : u.token ∉ us.map (·.token) := fun member => old ((h.seen u.token).mpr member)
    refine ⟨u :: us, h.theme, h.vocabulary, h.shortcuts, h.memo, ?_, ?_, ?_, ?_, ?_, ?_, ?_⟩
    · exact Cascade.insert_holds h.cascade
    · rintro x (_ | later)
      · exact meaning
      · exact h.meaning x ‹_›
    · exact List.nodup_cons.mpr ⟨isNew, h.distinct⟩
    · intro token
      rw [seen token, h.seen, List.map_cons, List.mem_cons, or_comm]
    · intro g
      simp only [DefaultGroups.mem_add, h.groups, List.mem_cons, exists_eq_or_imp]
      exact or_assoc.trans (or_congr_right or_comm)
    · intro name
      simp only [List.mem_cons, exists_eq_or_imp]
      cases named : keyframesOf? e.theme u with
      | none => simpa using h.keyframes name
      | some k =>
        simp only [Std.TreeSet.mem_insert, Std.LawfulEqCmp.compare_eq_iff_eq, h.keyframes,
          Option.some.injEq]
    · intro path recorded file token member
      exact (seen token).mpr (.inl (h.files path recorded file token member))

/-! ### Scans -/

theorem scanToken_eq (e : Engine) (token : String) :
    e.scanToken token = match (e.read token).1 with
      | some u => (e.read token).2.register u
      | none => (false, (e.read token).2) := by
  unfold scanToken
  split <;> simp_all

theorem read_fst (token : String) (h : Registered fresh blocklist us applied e) :
    (e.read token).1 = Memo.answer? blocklist fresh.vocabulary token := by
  rw [← h.vocabulary]
  exact Memo.read_fst h.memo

theorem scanToken_registered (token : String) (h : Registered fresh blocklist us applied e) :
    ∃ us', Registered fresh blocklist us' applied (e.scanToken token).2 ∧
      ∀ t, t ∈ (e.scanToken token).2.seen ↔ t ∈ e.seen ∨ t = token ∧ fresh.Accepts blocklist token := by
  have answer := read_fst token h
  have after := read_registered token h
  rw [scanToken_eq]
  cases found : (e.read token).1 with
  | none =>
    rw [found] at answer
    exact ⟨us, after, fun t => by simp [Accepts, ← answer, read]⟩
  | some u =>
    rw [found] at answer
    have same := token_of_answer answer.symm
    rw [← h.vocabulary] at answer
    obtain ⟨us', next⟩ := register_registered after (by rw [same]; exact answer.symm)
    refine ⟨us', next, fun t => ?_⟩
    rw [h.vocabulary] at answer
    rw [register_seen, same]
    simp [Accepts, ← answer, read]

/-- A scan of a list is one of its first token and one of the others behind it. -/
theorem scanTokens_cons (e : Engine) (token : String) (tokens : List String) :
    e.scanTokens (token :: tokens) =
      ((e.scanToken token).1 || ((e.scanToken token).2.scanTokens tokens).1,
        ((e.scanToken token).2.scanTokens tokens).2) := by
  have started : ∀ (tokens : List String) (isNew : Bool) (e : Engine),
      tokens.foldl (fun state token =>
        let next := state.2.scanToken token
        (state.1 || next.1, next.2)) (isNew, e) =
          (isNew || (e.scanTokens tokens).1, (e.scanTokens tokens).2) := by
    intro tokens
    induction tokens with
    | nil =>
      intro isNew e
      rw [scanTokens, List.foldl_nil, List.foldl_nil, Bool.or_false]
    | cons token tokens ih =>
      intro isNew e
      rw [scanTokens, List.foldl_cons, List.foldl_cons, ih, ih, Bool.false_or, Bool.or_assoc]
  rw [scanTokens, List.foldl_cons, started, Bool.false_or]

theorem scanTokens_registered (tokens : List String) (h : Registered fresh blocklist us applied e) :
    ∃ us', Registered fresh blocklist us' applied (e.scanTokens tokens).2 ∧
      ∀ t, t ∈ (e.scanTokens tokens).2.seen ↔ t ∈ e.seen ∨ t ∈ tokens ∧ fresh.Accepts blocklist t := by
  induction tokens generalizing e us with
  | nil => exact ⟨us, h, by simp [scanTokens]⟩
  | cons token tokens ih =>
    obtain ⟨us', next, first⟩ := scanToken_registered token h
    obtain ⟨us'', done, later⟩ := ih next
    rw [scanTokens_cons]
    refine ⟨us'', done, fun t => ?_⟩
    rw [later, first, List.mem_cons, or_and_right, or_assoc]
    refine or_congr_right (or_congr_left ?_)
    exact and_congr_right fun same => by rw [same]

theorem acceptedTokens_registered (tokens : List String) (h : Registered fresh blocklist us applied e) :
    Registered fresh blocklist us applied (e.acceptedTokens tokens).2 ∧
      (e.acceptedTokens tokens).2.seen = e.seen ∧ (e.acceptedTokens tokens).2.files = e.files ∧
      ∀ t, t ∈ (e.acceptedTokens tokens).1 ↔ t ∈ tokens ∧ fresh.Accepts blocklist t := by
  induction tokens generalizing e with
  | nil => exact ⟨h, rfl, rfl, by simp [acceptedTokens]⟩
  | cons token tokens ih =>
    obtain ⟨done, seen, files, rest⟩ := ih (read_registered token h)
    have answer := read_fst token h
    refine ⟨done, seen, files, fun t => ?_⟩
    unfold acceptedTokens
    dsimp only
    rw [List.mem_cons, or_and_right, ← rest]
    split
    · rename_i accepted
      rw [List.mem_cons]
      refine or_congr_left (iff_self_and.mpr fun same => ?_)
      rw [same, Accepts, ← answer]
      exact accepted
    · rename_i refused
      refine (or_iff_right fun both => refused ?_).symm
      rw [answer, ← both.1]
      exact both.2

theorem recordFile_registered (path : String) {tokens : List String}
    (h : Registered fresh blocklist us applied e) (registered : ∀ t ∈ tokens, t ∈ e.seen) :
    Registered fresh blocklist us applied { e with files := e.files.insert path (.ofList tokens) } := by
  refine { h with files := ?_ }
  intro path' recorded file token member
  by_cases same : path = path'
  · subst same
    rw [Std.TreeMap.getElem?_insert_self, Option.some.injEq] at file
    subst file
    rw [Std.TreeSet.mem_ofList, List.contains_iff_mem] at member
    exact registered token member
  · have other : compare path path' ≠ .eq := fun e => same (Std.LawfulEqCmp.compare_eq_iff_eq.mp e)
    simp only [Std.TreeMap.getElem?_insert, other, if_false] at file
    exact h.files path' recorded file token member

/-- The tokens that a scan comes across. -/
def Scan.tokens : Scan → List String
  | .ofToken token => [token]
  | .ofText text => Token.extract text
  | .ofFile _ _ text => Token.extract text

/-- A scan registers the utilities among its tokens and nothing else. -/
theorem scanned_registered (scan : Scan) (h : Registered fresh blocklist us applied e) :
    ∃ us', Registered fresh blocklist us' applied (e.scanned scan) ∧
      ∀ t, t ∈ (e.scanned scan).seen ↔ t ∈ e.seen ∨ t ∈ scan.tokens ∧ fresh.Accepts blocklist t := by
  cases scan with
  | ofToken token =>
    obtain ⟨us', next, seen⟩ := scanToken_registered token h
    refine ⟨us', next, fun t => (seen t).trans (or_congr_right ?_)⟩
    rw [Scan.tokens, List.mem_singleton]
    exact and_congr_right fun same => by rw [same]
  | ofText text => exact scanTokens_registered _ h
  | ofFile walk path text =>
    obtain ⟨after, seen, files, accepted⟩ := acceptedTokens_registered (Token.extract text) h
    unfold scanned scanFileBy
    dsimp only
    split
    · rename_i recorded
      refine ⟨us, after, fun t => ?_⟩
      rw [seen, Scan.tokens, ← accepted]
      -- The recorded tokens are registered, and the accepted ones are among them.
      refine (or_iff_left_of_imp fun member => ?_).symm
      rw [Option.any_eq_true] at recorded
      obtain ⟨tokens, file, all⟩ := recorded
      rw [files] at file
      exact h.files path tokens file t (List.all_eq_true.mp all t member)
    · obtain ⟨us', walked, visited⟩ := scanTokens_registered (walk.visit (e.acceptedTokens _).1) after
      have total : ∀ t, t ∈ ((e.acceptedTokens (Token.extract text)).2.scanTokens
          (walk.visit (e.acceptedTokens (Token.extract text)).1)).2.seen ↔
            t ∈ e.seen ∨ t ∈ Token.extract text ∧ fresh.Accepts blocklist t := by
        intro t
        rw [visited, seen, walk.mem_visit, accepted, and_assoc, and_self]
      have recorded := recordFile_registered path walked fun t member =>
        (total t).mpr (.inr ((accepted t).mp member))
      exact ⟨us', recorded, total⟩

theorem scans_registered (scans : List Scan) (h : Registered fresh blocklist us applied e) :
    ∃ us', Registered fresh blocklist us' applied (scans.foldl scanned e) ∧
      ∀ t, t ∈ (scans.foldl scanned e).seen ↔
        t ∈ e.seen ∨ t ∈ scans.flatMap Scan.tokens ∧ fresh.Accepts blocklist t := by
  induction scans generalizing e us with
  | nil => exact ⟨us, h, by simp⟩
  | cons scan scans ih =>
    obtain ⟨us', next, first⟩ := scanned_registered scan h
    obtain ⟨us'', done, later⟩ := ih next
    refine ⟨us'', done, fun t => ?_⟩
    rw [List.foldl_cons, later, first, List.flatMap_cons, List.mem_append, or_and_right, or_assoc]

/-! ### Built engines -/

/-- The parts of an engine before its safelist is registered. -/
structure Fresh (settings : Settings) (e : Engine) : Prop where
  memo : e.memo = .ofBlocklist settings.blocklist
  cascade : e.cascade = .withScreens e.theme.screens e.vocabulary.variants
  seen : e.seen = ∅
  groups : e.groups = []
  keyframes : e.keyframes = ∅
  files : e.files = ∅

/-- What an engine is made of before its safelist is registered. -/
theorem prepare_cases {settings : Settings} {notices : List Notice} (ready : prepare settings = .ok (e, notices)) :
    ∃ rules entries warnings, Theme.resolve settings.theme = .ok e.theme ∧
      Catalog.rules e.theme settings.families (settings.rules e.theme) settings.shortcuts = .ok rules ∧
      EntryIndex.build rules = .ok (entries, warnings) ∧
      e.vocabulary = ⟨.ofTheme e.theme, entries, e.theme.category "lineHeight"⟩ ∧
      Shortcuts.build rules e.vocabulary = .ok e.shortcuts ∧ Fresh settings e := by
  obtain ⟨theme, resolved, done⟩ := bind_eq_ok ready
  obtain ⟨rules, ruled, done⟩ := bind_eq_ok done
  obtain ⟨⟨entries, warnings⟩, indexed, done⟩ := bind_eq_ok done
  obtain ⟨shortcuts, expanded, done⟩ := bind_eq_ok done
  obtain ⟨rfl, -⟩ := Prod.mk.inj (Except.ok.inj done)
  exact ⟨rules, entries, warnings, resolved, ruled, indexed, rfl, expanded, rfl, rfl, rfl, rfl, rfl, rfl⟩

theorem prepare_fresh {settings : Settings} {notices : List Notice}
    (h : prepare settings = .ok (e, notices)) : Fresh settings e := by
  obtain ⟨_, _, _, -, -, -, -, -, fresh⟩ := prepare_cases h
  exact fresh

theorem fresh_registered {settings : Settings} (h : Fresh settings e) :
    Registered e settings.blocklist [] [] e where
  theme := rfl
  vocabulary := rfl
  shortcuts := rfl
  memo := by
    rw [h.memo]
    exact Memo.ofBlocklist_sound
  cascade := by
    rw [h.cascade]
    exact Cascade.withScreens_holds _ _
  meaning := by simp
  distinct := List.nodup_nil
  seen := by simp [h.seen]
  groups := by simp [h.groups]
  keyframes := by simp [h.keyframes]
  files := by simp [h.files]

theorem registerAll_registered {safelist tokens : List String} {d : Engine}
    (h : Registered fresh blocklist us applied e) (done : registerAll safelist tokens e = .ok d) :
    ∃ us', Registered fresh blocklist us' applied d ∧ ∀ t, t ∈ d.seen ↔ t ∈ e.seen ∨ t ∈ tokens := by
  induction tokens generalizing e us with
  | nil =>
    obtain rfl := Except.ok.inj done
    exact ⟨us, h, by simp⟩
  | cons token tokens ih =>
    obtain ⟨us', next, first⟩ := scanToken_registered token h
    have answer := read_fst token h
    rw [scanToken_eq] at next first
    unfold registerAll at done
    split at done
    · rename_i u after found
      rw [found] at next first answer
      obtain ⟨us'', registered, later⟩ := ih next done
      refine ⟨us'', registered, fun t => ?_⟩
      have accepted : fresh.Accepts blocklist token := by
        rw [Accepts, ← answer]
        rfl
      rw [later, first, List.mem_cons, or_assoc, and_iff_left accepted]
    · exact absurd done (by simp)

/-- A safelist of utilities that are not blocklisted is registered. -/
theorem registerAll_isOk {tokens : List String} (safelist : List String)
    (h : Registered fresh blocklist us applied e) (accepted : ∀ t ∈ tokens, fresh.Accepts blocklist t) :
    ∃ d, registerAll safelist tokens e = .ok d := by
  induction tokens generalizing e us with
  | nil => exact ⟨e, rfl⟩
  | cons token tokens ih =>
    obtain ⟨us', next, -⟩ := scanToken_registered token h
    have answer := read_fst token h
    have found := accepted token List.mem_cons_self
    rw [Accepts, ← answer] at found
    rw [scanToken_eq] at next
    unfold registerAll
    split
    · rename_i u after known
      rw [known] at next
      exact ih next fun t ht => accepted t (List.mem_cons_of_mem _ ht)
    · rename_i refused
      rw [refused] at found
      exact absurd found Bool.false_ne_true

theorem build_cases {settings : Settings} {notices : List Notice} (built : build settings = .ok (e, notices)) :
    ∃ fresh, prepare settings = .ok (fresh, notices) ∧ Fresh settings fresh ∧
      registerAll (settings.safelist fresh.theme) (settings.safelist fresh.theme) fresh = .ok e := by
  obtain ⟨⟨fresh, _⟩, ready, done⟩ := bind_eq_ok built
  obtain ⟨d, registered, done⟩ := bind_eq_ok done
  obtain ⟨rfl, rfl⟩ := Prod.mk.inj (Except.ok.inj done)
  exact ⟨fresh, ready, prepare_fresh ready, registered⟩

/-- A built engine has registered its safelist and nothing else is in use. -/
theorem build_registered {settings : Settings} {notices : List Notice}
    (h : build settings = .ok (e, notices)) :
    ∃ fresh us, prepare settings = .ok (fresh, notices) ∧ Registered fresh settings.blocklist us [] e ∧
      ∀ t, t ∈ e.seen ↔ t ∈ settings.safelist fresh.theme := by
  obtain ⟨fresh, ready, start, done⟩ := build_cases h
  obtain ⟨us, registered, seen⟩ := registerAll_registered (fresh_registered start) done
  refine ⟨fresh, us, ready, registered, fun t => (seen t).trans ?_⟩
  simp [start.seen]

theorem build_isOk {settings : Settings} {notices : List Notice}
    (ready : prepare settings = .ok (fresh, notices))
    (accepted : ∀ t ∈ settings.safelist fresh.theme, fresh.Accepts settings.blocklist t) :
    ∃ e, build settings = .ok (e, notices) := by
  obtain ⟨d, done⟩ := registerAll_isOk (settings.safelist fresh.theme)
    (fresh_registered (prepare_fresh ready)) accepted
  refine ⟨d, ?_⟩
  simp only [build, ready, bind, Except.bind]
  rw [done]
  rfl

end Engine

end UtilityCss
