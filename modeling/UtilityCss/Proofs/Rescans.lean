import UtilityCss.Proofs.FileScan
import UtilityCss.Proofs.Header

/-!
# Scans that are repeated

What is registered, what is held, what the memo has accepted and what is recorded for files is kept apart, and
composing asks the memo for tokens without registering them. `Engine.InStep` says how they fit together all the
same. A memo never takes an answer back and a registered token stays registered, so a text that was scanned once
has nothing new in it at any later time: `scan_again`.
-/

namespace UtilityCss

/-! ### Memos -/

namespace Memo

/-- The later memo gives the answers of the earlier one, and maybe others. -/
structure Extends (later memo : Memo) : Prop where
  refused : ∀ token ∈ memo.refused, token ∈ later.refused
  accepted : ∀ (token : String) (u : Utility), memo.accepted[token]? = some u → later.accepted[token]? = some u

variable {memo between later : Memo} {v : Vocabulary} {token : String} {u : Utility} {blocklist : List String}

theorem extends_refl (memo : Memo) : memo.Extends memo :=
  ⟨fun _ h => h, fun _ _ h => h⟩

theorem extends_trans (second : later.Extends between) (first : between.Extends memo) : later.Extends memo :=
  ⟨fun t h => second.refused t (first.refused t h), fun t u h => second.accepted t u (first.accepted t u h)⟩

theorem extends_read (memo : Memo) (v : Vocabulary) (token : String) : (memo.read v token).2.Extends memo := by
  unfold read
  split
  · exact extends_refl memo
  split
  · exact extends_refl memo
  rename_i unasked
  cases v.read? token with
  | some u =>
    refine ⟨fun _ h => h, fun t x known => ?_⟩
    have other : token ≠ t := by
      rintro rfl
      cases unasked.symm.trans known
    simpa [Std.TreeMap.getElem?_insert, other] using known
  | none => exact ⟨fun t h => by simp [h], fun _ _ h => h⟩

theorem extends_readAll (memo : Memo) (v : Vocabulary) (tokens : List String) :
    (memo.readAll v tokens).Extends memo := by
  induction tokens generalizing memo with
  | nil => exact extends_refl memo
  | cons token tokens ih => exact extends_trans (ih _) (extends_read memo v token)

theorem knows_of_extends (extend : later.Extends memo) (known : memo.Knows token) : later.Knows token := by
  refine known.imp (extend.refused token) fun accepted => ?_
  obtain ⟨u, accepted⟩ := Option.isSome_iff_exists.mp accepted
  rw [extend.accepted token u accepted]
  rfl

theorem accepted_of_knows (sound : memo.Sound blocklist v) (meaning : answer? blocklist v token = some u)
    (known : memo.Knows token) : memo.accepted[token]? = some u := by
  rcases known with refused | accepted
  · cases (sound.refused token refused).symm.trans meaning
  · obtain ⟨x, accepted⟩ := Option.isSome_iff_exists.mp accepted
    rw [accepted, ← meaning, sound.accepted token x accepted]

end Memo

namespace Engine
open UtilityCss.Composition Directive

/-! ### What composing asks -/

section Composing
variable {v : Vocabulary} {shortcuts : ShortcutTable}

theorem parts_extends (source : Source) (context : String) (tokens : List String) (memo : Memo) :
    ((parts (lookUp v) source context shortcuts tokens).run memo).2.Extends memo := by
  induction tokens generalizing memo with
  | nil => exact Memo.extends_refl memo
  | cons token tokens ih =>
    have first := Memo.extends_read memo v token
    rw [parts_cons]
    cases part source context shortcuts token (memo.read v token).1 with
    | error cause => exact first
    | ok part => exact Memo.extends_trans (ih _) first

theorem compose_extends (source : Source) (context text : String) (memo : Memo) :
    ((compose (lookUp v) source context shortcuts text).run memo).2.Extends memo := by
  rw [compose, StateT.run_bind]
  exact parts_extends source context (Text.stringWords text) memo

theorem applySegments_extends (segments : List (Segment Apply)) (state : ApplyState) :
    ((applySegments (applyTokens v shortcuts) segments).run state).2.memo.Extends state.memo := by
  induction segments generalizing state with
  | nil => exact Memo.extends_refl _
  | cons segment rest ih =>
    cases segment with
    | char c =>
      rw [applySegments_char]
      exact ih state
    | directive a =>
      have composed := @compose_extends v shortcuts .css a.text (String.ofList a.tokens) state.memo
      rw [applySegments, run_bind_eq, applyTokens_eq]
      cases run : (compose (lookUp v) .css a.text shortcuts (String.ofList a.tokens)).run state.memo with
      | mk result after =>
        rw [run] at composed
        cases result with
        | error cause => exact composed
        | ok x =>
          dsimp only
          cases (a.replacement x.lines : Except (ApplyFailure CompositionError) String) with
          | error failure => exact composed
          | ok text => exact Memo.extends_trans (ih (state.applied after x)) composed

theorem replaceApply_extends (css : String) (state : ApplyState) :
    ((replaceApply (applyTokens v shortcuts) css).run state).2.memo.Extends state.memo := by
  unfold replaceApply
  split
  · exact applySegments_extends _ state
  · exact Memo.extends_refl _

end Composing

/-! ### What operations keep -/

variable {settings : Settings} {fresh e d : Engine} {blocklist : List String} {us : List Utility}
  {applied : DefaultGroups}

/-- What the later engine keeps of the earlier one: the answers of its memo, and the tokens registered. -/
structure Outgrows (later e : Engine) : Prop where
  memo : later.memo.Extends e.memo
  seen : ∀ token ∈ e.seen, token ∈ later.seen

/-- The tokens that an operation registers if they are utilities. -/
def Operation.tokens : Operation → List String
  | .scan s => s.tokens
  | .inline _ => []
  | .transform _ => []

/-- What an operation does to the memo and to the tokens registered. -/
structure Takes (fresh : Engine) (blocklist tokens : List String) (e later : Engine) : Prop where
  memo : later.memo.Extends e.memo
  asked : ∀ token ∈ tokens, later.memo.Knows token
  seen : ∀ token, token ∈ later.seen ↔ token ∈ e.seen ∨ token ∈ tokens ∧ fresh.Accepts blocklist token

theorem takes_composed {memo : Memo} {groups : DefaultGroups} (extend : memo.Extends e.memo) :
    Takes fresh blocklist [] e { e with memo := memo, groups := groups } :=
  ⟨extend, by simp, by simp⟩

theorem scanned_takes (scan : Scan) (h : Registered fresh blocklist us applied e) :
    Takes fresh blocklist scan.tokens e (e.scanned scan) := by
  obtain ⟨-, -, seen⟩ := scanned_registered scan h
  refine ⟨?_, fun token member => ?_, seen⟩
  · rw [scanned_memo scan h]
    exact Memo.extends_readAll e.memo e.vocabulary scan.tokens
  · rw [scanned_memo scan h]
    exact Memo.knows_readAll member

theorem applyInline_takes (text : String) : Takes fresh blocklist [] e (e.applyInline text).2 := by
  have composed := @compose_extends e.vocabulary e.shortcuts .inline text text e.memo
  unfold applyInline
  cases run : (compose (lookUp e.vocabulary) .inline text e.shortcuts text).run e.memo with
  | mk result memo =>
    rw [run] at composed
    cases result with
    | error cause => exact takes_composed composed
    | ok x =>
      dsimp only
      split <;> exact takes_composed composed

theorem next_takes (operation : Operation) (h : Registered fresh blocklist us applied e) :
    Takes fresh blocklist operation.tokens e (e.next operation) := by
  cases operation with
  | scan scan => exact scanned_takes scan h
  | inline text => exact applyInline_takes text
  | transform css =>
    rw [next, transform_snd]
    exact takes_composed (replaceApply_extends css _)

theorem run_outgrows (operations : List Operation) (reachable : Reachable settings e) :
    Reachable settings (operations.foldl next e) ∧ (operations.foldl next e).Outgrows e := by
  induction operations generalizing e with
  | nil => exact ⟨reachable, Memo.extends_refl _, fun _ h => h⟩
  | cons operation operations ih =>
    obtain ⟨_, _, _, _, -, registered⟩ := reachable_registered reachable
    have first := next_takes operation registered
    obtain ⟨reached, memo, seen⟩ := ih (.next operation reachable)
    refine ⟨reached, Memo.extends_trans memo first.memo, fun token member => ?_⟩
    exact seen token ((first.seen token).mpr (.inl member))

/-! ### Registered tokens -/

theorem registerAll_memo {safelist tokens : List String} (done : registerAll safelist tokens e = .ok d) :
    d.memo = e.memo.readAll e.vocabulary tokens := by
  induction tokens generalizing e with
  | nil =>
    obtain rfl := Except.ok.inj done
    rfl
  | cons token tokens ih =>
    obtain ⟨memo, vocabulary⟩ := scanToken_frame e token
    rw [scanToken_eq] at memo vocabulary
    unfold registerAll at done
    split at done
    · rename_i u after found
      rw [found] at memo vocabulary
      rw [ih done, memo, vocabulary]
      rfl
    · cases done

theorem knows_of_seen (reachable : Reachable settings e) : ∀ token ∈ e.seen, e.memo.Knows token := by
  induction reachable with
  | built h =>
    obtain ⟨fresh, -, start, done⟩ := build_cases h
    obtain ⟨_, -, seen⟩ := registerAll_registered (fresh_registered start) done
    intro token member
    have none : token ∉ fresh.seen := by
      rw [start.seen]
      simp
    rw [registerAll_memo done]
    exact Memo.knows_readAll (((seen token).mp member).resolve_left none)
  | next operation reachable ih =>
    obtain ⟨_, _, _, _, -, registered⟩ := reachable_registered reachable
    obtain ⟨memo, asked, seen⟩ := next_takes operation registered
    -- A token that was registered before is known to the memo for good, any other has just been asked for.
    intro token member
    rcases (seen token).mp member with old | ⟨scanned, -⟩
    · exact Memo.knows_of_extends memo (ih token old)
    · exact asked token scanned

/-- How the parts of an engine fit together. The cascade holds one utility for each registered token, the memo has
accepted it, and what is recorded for files is registered. -/
structure InStep (e : Engine) : Prop where
  held : (e.cascade.placed.map (·.2.token)).Perm e.seen.toList
  cached : ∀ token ∈ e.seen, ∃ u, e.memo.accepted[token]? = some u ∧ u.token = token ∧ e.Holds u
  recorded : ∀ (path : String) (tokens : Std.TreeSet String), e.files[path]? = some tokens →
    ∀ token ∈ tokens, token ∈ e.seen

theorem inStep_of_reachable (reachable : Reachable settings e) : e.InStep := by
  obtain ⟨fresh, _, us, _, -, h⟩ := reachable_registered reachable
  have placed := Cascade.placed_perm h.cascade
  refine ⟨?_, fun token member => ?_, h.files⟩
  · have tokens : (e.cascade.placed.map (·.2.token)).Perm (us.map (·.token)) := by
      refine (placed.map (·.2.token)).trans (.of_eq ?_)
      rw [List.map_map, List.map_map]
      rfl
    refine tokens.trans ((List.perm_ext_iff_of_nodup h.distinct ?_).mpr fun token => ?_)
    · exact e.seen.distinct_toList.imp fun other same => other (by rw [same]; exact Std.ReflCmp.compare_self)
    · rw [Std.TreeSet.mem_toList, h.seen]
  · obtain ⟨u, listed, rfl⟩ := List.mem_map.mp ((h.seen token).mp member)
    have accepted := Memo.accepted_of_knows h.memo (h.meaning u listed) (knows_of_seen reachable u.token member)
    have held : u.placement.place ∈ e.cascade.placed := by
      rw [placed.mem_iff, List.map_map]
      exact List.mem_map_of_mem listed
    exact ⟨u, accepted, rfl, _, held⟩

/-! ### Scanning again -/

theorem scanToken_of_seen {token : String} (h : Registered fresh blocklist us applied e)
    (asked : e.memo.Knows token) (old : fresh.Accepts blocklist token → token ∈ e.seen) :
    e.scanToken token = (false, e) := by
  have answer := read_fst token h
  have unchanged : (e.read token).2 = e := by
    unfold read
    dsimp only
    rw [Memo.read_of_knows asked]
  rw [scanToken_eq, unchanged]
  cases found : (e.read token).1 with
  | none => rfl
  | some u =>
    rw [found] at answer
    have same := token_of_answer answer.symm
    have seen : e.seen.contains u.token = true := by
      rw [same]
      exact old (by rw [Accepts, ← answer]; rfl)
    dsimp only
    rw [register, if_pos seen]

theorem scanTokens_of_seen {tokens : List String} (h : Registered fresh blocklist us applied e)
    (asked : ∀ token ∈ tokens, e.memo.Knows token)
    (old : ∀ token ∈ tokens, fresh.Accepts blocklist token → token ∈ e.seen) :
    e.scanTokens tokens = (false, e) := by
  induction tokens with
  | nil => rfl
  | cons token tokens ih =>
    obtain ⟨firstAsked, asked⟩ := List.forall_mem_cons.mp asked
    obtain ⟨firstOld, old⟩ := List.forall_mem_cons.mp old
    rw [scanTokens_cons, scanToken_of_seen h firstAsked firstOld, ih asked old]
    rfl

/-- In every reachable engine the parts are in step. A scan of a text finds something new when an accepted token of
the text is not registered, and registers the accepted tokens of the text and nothing else. When the text is scanned
again, after any other operations, that finds nothing and leaves the engine as it is. -/
theorem scan_again (reachable : Reachable settings e) :
    e.InStep ∧ ∀ text,
      ((e.scan text).1 = true ↔
        ∃ token ∈ Token.extract text, e.Accepts settings.blocklist token ∧ token ∉ e.seen) ∧
      (∀ token, token ∈ (e.scan text).2.seen ↔
        token ∈ e.seen ∨ token ∈ Token.extract text ∧ e.Accepts settings.blocklist token) ∧
      ∀ operations : List Operation, (operations.foldl next (e.scan text).2).scan text =
        (false, operations.foldl next (e.scan text).2) := by
  refine ⟨inStep_of_reachable reachable, fun text => ?_⟩
  obtain ⟨fresh, _, us, _, ready, h⟩ := reachable_registered reachable
  have accepts : ∀ token, e.Accepts settings.blocklist token ↔ fresh.Accepts settings.blocklist token := by
    intro token
    rw [Accepts, Accepts, h.vocabulary]
  have first := scanned_takes (.ofText text) h
  simp only [accepts]
  refine ⟨scanFor_fst (.ofText text) h, first.seen, fun operations => ?_⟩
  obtain ⟨reached, memo, seen⟩ := run_outgrows operations (Reachable.next (.scan (.ofText text)) reachable)
  obtain ⟨again, _, us', _, ready', h'⟩ := reachable_registered reached
  obtain ⟨rfl, -⟩ := Prod.mk.inj (Except.ok.inj (ready.symm.trans ready'))
  -- What the first scan asked for and registered is still known and registered behind all operations.
  refine scanTokens_of_seen h' (fun token member => ?_) fun token member accepted => ?_
  · exact Memo.knows_of_extends memo (first.asked token member)
  · exact seen token ((first.seen token).mpr (.inr ⟨member, accepted⟩))

/-- A text is scanned again behind another one and a composition that fails. -/
theorem scan_again_behind_others :
    ∃ e : Engine, Reachable { Settings.own with safelist := fun _ => ["spun"] } e ∧
      e.InStep ∧ (e.scan "flush spun").1 = true ∧
      ([.inline "nope", .scan (.ofText "spun")].foldl next (e.scan "flush spun").2).scan "flush spun" =
        (false, [.inline "nope", .scan (.ofText "spun")].foldl next (e.scan "flush spun").2) := by
  obtain ⟨fresh, notices, ready, own, -⟩ := prepare_own fun _ => ["spun"]
  obtain ⟨e, built⟩ := build_isOk ready fun t ht => accepts_own own (.inl (List.mem_singleton.mp ht))
  obtain ⟨_, us, again, start, seen⟩ := build_registered built
  obtain ⟨rfl, -⟩ := Prod.mk.inj (Except.ok.inj (ready.symm.trans again))
  obtain ⟨inStep, scanned⟩ := scan_again (.built built)
  obtain ⟨found, -, later⟩ := scanned "flush spun"
  refine ⟨e, .built built, inStep, found.mpr ⟨"flush", by decide, ?_, ?_⟩, later _⟩
  · exact accepts_own (by rw [start.vocabulary, own]) (.inr rfl)
  · rw [seen]
    simp

end Engine

end UtilityCss
