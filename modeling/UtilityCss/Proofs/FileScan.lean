import UtilityCss.Proofs.ArrivalOrder
import UtilityCss.Proofs.Operations

/-!
# Scans of files

A scan does what its tokens ask for: they decide which utilities are new, what is registered and what the memo
knows. A file whose utilities are all recorded is passed over, and as recorded tokens are registered, nothing
is lost. So a scan of a file does what a scan of its text does, and no later operation can tell which of the
two it was: `scanFileBy_eq_scan`.
-/

namespace UtilityCss

/-! ### Memos -/

namespace Memo

/-- The memo behind questions. -/
def readAll (memo : Memo) (v : Vocabulary) (tokens : List String) : Memo :=
  tokens.foldl (fun memo token => (memo.read v token).2) memo

/-- The memo has been asked for a token, or refuses it from the start. -/
def Knows (memo : Memo) (token : String) : Prop :=
  token ∈ memo.refused ∨ (memo.accepted[token]?).isSome = true

variable {memo : Memo} {v : Vocabulary} {token : String} {tokens : List String}

theorem read_of_knows (known : memo.Knows token) : (memo.read v token).2 = memo := by
  unfold read
  by_cases refused : memo.refused.contains token = true
  · rw [if_pos refused]
  · rw [if_neg refused]
    rcases known with old | accepted
    · exact absurd old refused
    · obtain ⟨u, hu⟩ := Option.isSome_iff_exists.mp accepted
      rw [hu]

theorem knows_read : (memo.read v token).2.Knows token := by
  unfold read
  by_cases refused : memo.refused.contains token = true
  · rw [if_pos refused]
    exact .inl refused
  · rw [if_neg refused]
    cases accepted : memo.accepted[token]? with
    | some u => exact .inr (by rw [accepted]; rfl)
    | none =>
      cases v.read? token with
      | some u => exact .inr (by simp)
      | none => exact .inl (by simp)

theorem knows_read_of_knows (other : String) (known : memo.Knows token) : (memo.read v other).2.Knows token := by
  by_cases old : memo.Knows other
  · rw [read_of_knows old]
    exact known
  · obtain ⟨unrefused, unaccepted⟩ := not_or.mp old
    have unasked : ¬memo.refused.contains other = true := unrefused
    have fresh : memo.accepted[other]? = none := by simpa using unaccepted
    unfold read
    rw [if_neg unasked, fresh]
    cases v.read? other with
    | none => exact known.imp_left fun refused => by simp [refused]
    | some u =>
      refine known.imp_right fun accepted => ?_
      rw [Std.TreeMap.getElem?_insert]
      split
      · rfl
      · exact accepted

theorem knows_readAll_of_knows (tokens : List String) (known : memo.Knows token) :
    (memo.readAll v tokens).Knows token := by
  induction tokens generalizing memo with
  | nil => exact known
  | cons other tokens ih => exact ih (knows_read_of_knows other known)

theorem knows_readAll (member : token ∈ tokens) : (memo.readAll v tokens).Knows token := by
  induction tokens generalizing memo with
  | nil => cases member
  | cons other tokens ih =>
    rcases List.mem_cons.mp member with rfl | later
    · exact knows_readAll_of_knows tokens knows_read
    · exact ih later

theorem readAll_of_knows (known : ∀ token ∈ tokens, memo.Knows token) : memo.readAll v tokens = memo := by
  induction tokens with
  | nil => rfl
  | cons token tokens ih =>
    obtain ⟨first, later⟩ := List.forall_mem_cons.mp known
    rw [readAll, List.foldl_cons, read_of_knows first]
    exact ih later

end Memo

namespace Engine

variable {settings : Settings} {fresh e d : Engine} {blocklist : List String} {us vs : List Utility}
  {applied : DefaultGroups}

/-! ### What scans do -/

/-- Whether a scan finds a new utility, and the engine behind it. -/
def scanFor (e : Engine) : Scan → Bool × Engine
  | .ofToken token => e.scanToken token
  | .ofText text => e.scan text
  | .ofFile walk path text => e.scanFileBy walk path text

theorem scanned_eq (e : Engine) (scan : Scan) : e.scanned scan = (e.scanFor scan).2 := by
  cases scan <;> rfl

theorem scanToken_frame (e : Engine) (token : String) :
    (e.scanToken token).2.memo = (e.memo.read e.vocabulary token).2 ∧
      (e.scanToken token).2.vocabulary = e.vocabulary := by
  have registering : ∀ (d : Engine) (u : Utility),
      (d.register u).2.memo = d.memo ∧ (d.register u).2.vocabulary = d.vocabulary := by
    intro d u
    unfold register
    split <;> exact ⟨rfl, rfl⟩
  rw [scanToken_eq]
  cases (e.read token).1 with
  | none => exact ⟨rfl, rfl⟩
  | some u => exact registering _ u

theorem scanTokens_memo (e : Engine) (tokens : List String) :
    (e.scanTokens tokens).2.memo = e.memo.readAll e.vocabulary tokens := by
  induction tokens generalizing e with
  | nil => rfl
  | cons token tokens ih =>
    obtain ⟨memo, vocabulary⟩ := scanToken_frame e token
    rw [scanTokens_cons, ih, memo, vocabulary]
    rfl

theorem acceptedTokens_frame (e : Engine) (tokens : List String) :
    (e.acceptedTokens tokens).2 = { e with memo := e.memo.readAll e.vocabulary tokens } := by
  induction tokens generalizing e with
  | nil => rfl
  | cons token tokens ih =>
    unfold acceptedTokens
    exact ih (e.read token).2

/-- A scan asks the memo for its tokens in turn. Walking the accepted ones of a file asks nothing new. -/
theorem scanFor_memo (e : Engine) (scan : Scan) (accepted : ∀ token, token ∈ (e.acceptedTokens scan.tokens).1 →
    token ∈ scan.tokens) : (e.scanFor scan).2.memo = e.memo.readAll e.vocabulary scan.tokens := by
  cases scan with
  | ofToken token => exact (scanToken_frame e token).1
  | ofText text => exact scanTokens_memo e _
  | ofFile walk path text =>
    have frame := acceptedTokens_frame e (Token.extract text)
    have memo : (e.acceptedTokens (Token.extract text)).2.memo =
        e.memo.readAll e.vocabulary (Token.extract text) :=
      congrArg Engine.memo frame
    unfold scanFor scanFileBy
    dsimp only
    split
    · exact memo
    · refine (scanTokens_memo _ _).trans ((Memo.readAll_of_knows fun token member => ?_).trans memo)
      rw [memo]
      exact Memo.knows_readAll (accepted token ((walk.mem_visit _ token).mp member))

theorem scanToken_fst (token : String) (h : Registered fresh blocklist us applied e) :
    (e.scanToken token).1 = true ↔ fresh.Accepts blocklist token ∧ token ∉ e.seen := by
  have answer := read_fst token h
  rw [scanToken_eq]
  cases found : (e.read token).1 with
  | none =>
    rw [found] at answer
    simp [Accepts, ← answer]
  | some u =>
    rw [found] at answer
    have same := token_of_answer answer.symm
    have seen : (e.read token).2.seen = e.seen := rfl
    subst same
    unfold register
    dsimp only
    rw [seen]
    by_cases old : e.seen.contains u.token = true
    · rw [if_pos old]
      exact iff_of_false Bool.false_ne_true fun isNew => isNew.2 old
    · rw [if_neg old]
      exact iff_of_true rfl ⟨by rw [Accepts, ← answer]; rfl, old⟩

theorem scanTokens_fst (tokens : List String) (h : Registered fresh blocklist us applied e) :
    (e.scanTokens tokens).1 = true ↔ ∃ t ∈ tokens, fresh.Accepts blocklist t ∧ t ∉ e.seen := by
  induction tokens generalizing e us with
  | nil => simp [scanTokens]
  | cons token tokens ih =>
    obtain ⟨us', next, seen⟩ := scanToken_registered token h
    rw [scanTokens_cons, Bool.or_eq_true, scanToken_fst token h, ih next]
    simp only [seen, List.exists_mem_cons_iff]
    -- A later token is new behind the first one unless it is the first one again.
    refine ⟨?_, ?_⟩
    · rintro (isNew | ⟨t, member, accepted, isNew⟩)
      · exact .inl isNew
      · exact .inr ⟨t, member, accepted, fun old => isNew (.inl old)⟩
    · rintro (isNew | ⟨t, member, accepted, isNew⟩)
      · exact .inl isNew
      · by_cases same : t = token
        · subst same
          exact .inl ⟨accepted, isNew⟩
        · refine .inr ⟨t, member, accepted, ?_⟩
          rintro (old | ⟨again, -⟩)
          · exact isNew old
          · exact same again

/-- A scan finds something new when a utility among its tokens is not registered. -/
theorem scanFor_fst (scan : Scan) (h : Registered fresh blocklist us applied e) :
    (e.scanFor scan).1 = true ↔ ∃ t ∈ scan.tokens, fresh.Accepts blocklist t ∧ t ∉ e.seen := by
  cases scan with
  | ofToken token =>
    refine (scanToken_fst token h).trans ?_
    simp [Scan.tokens]
  | ofText text => exact scanTokens_fst _ h
  | ofFile walk path text =>
    obtain ⟨after, seen, files, accepted⟩ := acceptedTokens_registered (Token.extract text) h
    unfold scanFor scanFileBy
    dsimp only
    split
    · rename_i recorded
      refine iff_of_false Bool.false_ne_true ?_
      rintro ⟨t, member, accepts, isNew⟩
      rw [Option.any_eq_true] at recorded
      obtain ⟨tokens, file, all⟩ := recorded
      rw [files] at file
      exact isNew (h.files path tokens file t (List.all_eq_true.mp all t ((accepted t).mpr ⟨member, accepts⟩)))
    · refine (scanTokens_fst _ after).trans ?_
      simp only [walk.mem_visit, accepted, seen, Scan.tokens]
      refine exists_congr fun t => ⟨?_, ?_⟩
      · rintro ⟨⟨member, -⟩, isNew⟩
        exact ⟨member, isNew⟩
      · rintro ⟨member, accepts, isNew⟩
        exact ⟨⟨member, accepts⟩, accepts, isNew⟩

/-! ### Engines that differ in their files -/

/-- Two engines have all but the records of files in common: the same memo, the same tokens registered, the
same utilities held under the same conditions, the same groups and animations in use, and one sheet. -/
structure SameButFiles (e d : Engine) : Prop where
  theme : e.theme = d.theme
  vocabulary : e.vocabulary = d.vocabulary
  shortcuts : e.shortcuts = d.shortcuts
  memo : e.memo = d.memo
  seen : ∀ token, token ∈ e.seen ↔ token ∈ d.seen
  held : e.cascade.placed.Perm d.cascade.placed
  groups : ∀ g, g ∈ e.groups ↔ g ∈ d.groups
  keyframes : ∀ name, name ∈ e.keyframes ↔ name ∈ d.keyframes
  sheet : e.sheet = d.sheet

/-- Two engines came from one by registering the same utilities and using the same groups besides, and have
the same memo. -/
structure Twins (fresh : Engine) (blocklist : List String) (e d : Engine) : Prop where
  memo : e.memo = d.memo
  registered : ∃ us vs applied applied', Registered fresh blocklist us applied e ∧
    Registered fresh blocklist vs applied' d ∧ us.Perm vs ∧ ∀ g, g ∈ applied ↔ g ∈ applied'

theorem twins_refl (h : Registered fresh blocklist us applied e) : Twins fresh blocklist e e :=
  ⟨rfl, us, us, applied, applied, h, h, .refl us, fun _ => .rfl⟩

theorem sameButFiles_of_twins (h : Twins fresh blocklist e d) : SameButFiles e d := by
  obtain ⟨memo, us, vs, applied, applied', he, hd, perm, same⟩ := h
  have needed : ∀ P : Utility → Prop, (∃ u ∈ us, P u) ↔ ∃ u ∈ vs, P u := fun P =>
    ⟨fun ⟨u, hu, h⟩ => ⟨u, perm.mem_iff.mp hu, h⟩, fun ⟨u, hu, h⟩ => ⟨u, perm.mem_iff.mpr hu, h⟩⟩
  refine ⟨he.theme.trans hd.theme.symm, he.vocabulary.trans hd.vocabulary.symm,
    he.shortcuts.trans hd.shortcuts.symm, memo, fun token => ?_, ?_, fun g => ?_, fun name => ?_, ?_⟩
  · rw [he.seen, hd.seen, (perm.map _).mem_iff]
  · have placements := (perm.map Utility.placement).map Placement.place
    exact (Cascade.placed_perm he.cascade).trans (placements.trans (Cascade.placed_perm hd.cascade).symm)
  · rw [he.groups, hd.groups, he.shortcuts, hd.shortcuts, same, needed]
  · rw [he.keyframes, hd.keyframes, he.theme, hd.theme, needed]
  · exact sheet_eq_of_registered he hd perm same

theorem scanned_memo (scan : Scan) (h : Registered fresh blocklist us applied e) :
    (e.scanned scan).memo = e.memo.readAll e.vocabulary scan.tokens := by
  rw [scanned_eq]
  obtain ⟨-, -, -, accepted⟩ := acceptedTokens_registered scan.tokens h
  exact scanFor_memo e scan fun token member => ((accepted token).mp member).1

/-- Scans that come across the same tokens do the same to twins, whatever files they come from. -/
theorem twins_scanned {scan scan' : Scan} (same : scan.tokens = scan'.tokens) (h : Twins fresh blocklist e d) :
    (e.scanFor scan).1 = (d.scanFor scan').1 ∧
      Twins fresh blocklist (e.scanned scan) (d.scanned scan') := by
  obtain ⟨-, vocabulary, -, memo, seen, -⟩ := sameButFiles_of_twins h
  obtain ⟨-, us, vs, applied, applied', he, hd, perm, groups⟩ := h
  refine ⟨?_, ?_, ?_⟩
  · rw [Bool.eq_iff_iff, scanFor_fst scan he, scanFor_fst scan' hd, same]
    simp only [seen]
  · rw [scanned_memo scan he, scanned_memo scan' hd, memo, vocabulary, same]
  · obtain ⟨us', he', seen'⟩ := scanned_registered scan he
    obtain ⟨vs', hd', seen''⟩ := scanned_registered scan' hd
    refine ⟨us', vs', applied, applied', he', hd', registered_perm he' hd' fun t => ?_, groups⟩
    rw [seen', seen'', seen, same]

/-! ### Later operations -/

section Composing
open Directive
variable {v : Vocabulary} {shortcuts : ShortcutTable}

theorem applyTokens_eq (state : ApplyState) (tokens context : String) :
    (applyTokens v shortcuts tokens context).run state =
      match (Composition.compose (lookUp v) .css context shortcuts tokens).run state.memo with
      | (.error cause, memo) => (.error cause, { state with memo := memo })
      | (.ok x, memo) => (.ok x.lines, state.applied memo x) := by
  unfold applyTokens
  rw [StateT.run]
  cases (Composition.compose (lookUp v) .css context shortcuts tokens).run state.memo with
  | mk result memo => cases result <;> rfl

/-- What replaces directives depends on the memo and not on the groups in use. -/
theorem applySegments_eq_of_memo_eq (segments : List (Segment Apply)) {s s' : ApplyState}
    (memo : s.memo = s'.memo) :
    ((applySegments (applyTokens v shortcuts) segments).run s).1 =
        ((applySegments (applyTokens v shortcuts) segments).run s').1 ∧
      ((applySegments (applyTokens v shortcuts) segments).run s).2.memo =
        ((applySegments (applyTokens v shortcuts) segments).run s').2.memo := by
  induction segments generalizing s s' with
  | nil => exact ⟨rfl, memo⟩
  | cons segment rest ih =>
    cases segment with
    | char c =>
      obtain ⟨first, second⟩ := ih memo
      rw [applySegments_char, applySegments_char]
      exact ⟨congrArg (Except.map (c :: ·)) first, second⟩
    | directive a =>
      rw [applySegments, run_bind_eq, run_bind_eq, applyTokens_eq, applyTokens_eq, ← memo]
      cases (Composition.compose (lookUp v) .css a.text shortcuts (String.ofList a.tokens)).run s.memo with
      | mk result after =>
        cases result with
        | error cause => exact ⟨rfl, rfl⟩
        | ok x =>
          dsimp only
          cases (a.replacement x.lines : Except (ApplyFailure CompositionError) String) with
          | error failure => exact ⟨rfl, rfl⟩
          | ok text =>
            have sameMemo : (s.applied after x).memo = (s'.applied after x).memo := rfl
            obtain ⟨first, second⟩ := ih sameMemo
            exact ⟨congrArg (Except.map (text.toList ++ ·)) first, second⟩

theorem replaceApply_eq_of_memo_eq (css : String) {s s' : ApplyState} (memo : s.memo = s'.memo) :
    ((replaceApply (applyTokens v shortcuts) css).run s).1 =
        ((replaceApply (applyTokens v shortcuts) css).run s').1 ∧
      ((replaceApply (applyTokens v shortcuts) css).run s).2.memo =
        ((replaceApply (applyTokens v shortcuts) css).run s').2.memo := by
  unfold replaceApply
  split
  · obtain ⟨first, second⟩ := @applySegments_eq_of_memo_eq v shortcuts (segments applyAt? css.toList) _ _ memo
    exact ⟨congrArg (Except.map String.ofList) first, second⟩
  · exact ⟨rfl, memo⟩

end Composing

/-- What an operation answers. -/
inductive Outcome
  | found (isNew : Bool)
  | inlined (result : Except CompositionError (List Declaration))
  | transformed (result : Except (Directive.ApplyFailure CompositionError) Transformed)

def outcome (e : Engine) : Operation → Outcome
  | .scan scan => .found (e.scanFor scan).1
  | .inline text => .inlined (e.applyInline text).1
  | .transform css => .transformed (e.transform css).1

/-- What operations answer one after the other. -/
def outcomes (e : Engine) : List Operation → List Outcome
  | [] => []
  | operation :: later => e.outcome operation :: (e.next operation).outcomes later

/-- Operations that read the same: scans of the same tokens, whether from a text or from a file that is walked
in some order, and otherwise the same operation. -/
inductive Operation.Alike : Operation → Operation → Prop
  | scan {scan scan' : Scan} : scan.tokens = scan'.tokens → Alike (.scan scan) (.scan scan')
  | inline (text : String) : Alike (.inline text) (.inline text)
  | transform (css : String) : Alike (.transform css) (.transform css)

theorem twins_composed {memo : Memo} {groups groups' : DefaultGroups} (h : Twins fresh blocklist e d)
    (sound : memo.Sound blocklist fresh.vocabulary) (more : ∀ g ∈ e.groups, g ∈ groups)
    (same : ∀ g, g ∈ groups ↔ g ∈ groups') :
    Twins fresh blocklist { e with memo := memo, groups := groups }
      { d with memo := memo, groups := groups' } := by
  have used := (sameButFiles_of_twins h).groups
  obtain ⟨-, us, vs, applied, applied', he, hd, perm, -⟩ := h
  refine ⟨rfl, us, vs, groups, groups', ?_, ?_, perm, same⟩
  · exact composed_registered he (by rw [he.vocabulary]; exact sound) more
  · refine composed_registered hd (by rw [hd.vocabulary]; exact sound) fun g member => ?_
    exact (same g).mp (more g ((used g).mpr member))

theorem twins_inline (text : String) (h : Twins fresh blocklist e d) :
    (e.applyInline text).1 = (d.applyInline text).1 ∧
      Twins fresh blocklist (e.applyInline text).2 (d.applyInline text).2 := by
  obtain ⟨-, vocabulary, shortcuts, memo, -, -, groups, -⟩ := sameButFiles_of_twins h
  obtain ⟨sound, source⟩ : e.memo.Sound blocklist e.vocabulary ∧ e.vocabulary = fresh.vocabulary := by
    obtain ⟨-, us, vs, applied, applied', he, -⟩ := h
    exact ⟨he.memo, he.vocabulary⟩
  obtain ⟨after, kept, run⟩ := @compose_lookUp _ _ _ .inline text e.shortcuts sound text
  rw [source] at kept
  have added : ∀ (x : Expansion) g, g ∈ e.groups.add x.groups ↔ g ∈ d.groups.add x.groups := by
    intro x g
    rw [DefaultGroups.mem_add, DefaultGroups.mem_add, groups]
  have more : ∀ (x : Expansion), ∀ g ∈ e.groups, g ∈ e.groups.add x.groups := fun x g member =>
    DefaultGroups.mem_add.mpr (.inl member)
  have run' : (Composition.compose (lookUp d.vocabulary) .inline text d.shortcuts text).run d.memo =
      (Composition.composeWith (Memo.answer? blocklist e.vocabulary) .inline text e.shortcuts text, after) := by
    rw [← vocabulary, ← shortcuts, ← memo]
    exact run
  unfold applyInline
  rw [run, run']
  dsimp only
  split
  · exact ⟨rfl, twins_composed h kept (fun _ member => member) groups⟩
  · rename_i x _
    have done := twins_composed h kept (more x) (added x)
    split <;> exact ⟨rfl, done⟩

theorem transform_fst (e : Engine) (css : String) :
    (e.transform css).1 =
      ((Directive.replaceApply (applyTokens e.vocabulary e.shortcuts) css).run ⟨e.memo, e.groups, false⟩).1.bind
        fun applied =>
          (((Directive.replaceScreens e.vocabulary.variants applied).bind
            (Directive.replaceTheme e.theme)).mapError .failed).map fun done => ⟨done, (e.applyState css).stale⟩ := by
  unfold transform applyState
  cases (Directive.replaceApply (applyTokens e.vocabulary e.shortcuts) css).run ⟨e.memo, e.groups, false⟩ with
  | mk result state =>
    cases result with
    | error failure => rfl
    | ok applied =>
      dsimp only
      rw [Except.bind]
      cases (Directive.replaceScreens e.vocabulary.variants applied).bind (Directive.replaceTheme e.theme) <;> rfl

theorem twins_transform (css : String) (h : Twins fresh blocklist e d) :
    (e.transform css).1 = (d.transform css).1 ∧
      Twins fresh blocklist (e.transform css).2 (d.transform css).2 := by
  obtain ⟨theme, vocabulary, shortcuts, memo, -, -, groups, -⟩ := sameButFiles_of_twins h
  have registered := h.registered
  obtain ⟨us, vs, applied, applied', he, hd, -, -⟩ := registered
  obtain ⟨kept, used, stale⟩ := @replaceApply_updated _ _ e.shortcuts ⟨e.memo, e.groups, false⟩ he.memo css
  obtain ⟨-, used', stale'⟩ := @replaceApply_updated _ _ d.shortcuts ⟨d.memo, d.groups, false⟩ hd.memo css
  rw [← vocabulary, ← shortcuts] at used' stale'
  have start : (⟨e.memo, e.groups, false⟩ : ApplyState).memo =
      (⟨d.memo, d.groups, false⟩ : ApplyState).memo := memo
  obtain ⟨result, after⟩ := @replaceApply_eq_of_memo_eq e.vocabulary e.shortcuts css _ _ start
  have told : (e.applyState css).stale = (d.applyState css).stale := by
    unfold applyState
    rw [← vocabulary, ← shortcuts, Bool.eq_iff_iff, stale, stale']
    simp only [groups]
  have same : ∀ g, g ∈ (e.applyState css).groups ↔ g ∈ (d.applyState css).groups := by
    intro g
    unfold applyState
    rw [← vocabulary, ← shortcuts, used, used', groups]
  have remembered : (e.applyState css).memo = (d.applyState css).memo := by
    unfold applyState
    rw [← vocabulary, ← shortcuts]
    exact after
  constructor
  · rw [transform_fst, transform_fst, told, ← vocabulary, ← shortcuts, ← theme, result]
  · rw [transform_snd, transform_snd, ← remembered]
    refine twins_composed h ?_ (fun g member => (used g).mpr (.inl member)) same
    rw [← he.vocabulary]
    exact kept

theorem twins_next {operation operation' : Operation} (alike : operation.Alike operation')
    (h : Twins fresh blocklist e d) :
    e.outcome operation = d.outcome operation' ∧
      Twins fresh blocklist (e.next operation) (d.next operation') := by
  cases alike with
  | scan same =>
    obtain ⟨found, after⟩ := twins_scanned same h
    exact ⟨congrArg Outcome.found found, after⟩
  | inline text =>
    obtain ⟨result, after⟩ := twins_inline text h
    exact ⟨congrArg Outcome.inlined result, after⟩
  | transform css =>
    obtain ⟨result, after⟩ := twins_transform css h
    exact ⟨congrArg Outcome.transformed result, after⟩

theorem twins_outcomes {operations operations' : List Operation}
    (alike : List.Forall₂ Operation.Alike operations operations') (h : Twins fresh blocklist e d) :
    e.outcomes operations = d.outcomes operations' ∧
      Twins fresh blocklist (operations.foldl next e) (operations'.foldl next d) := by
  induction alike generalizing e d with
  | nil => exact ⟨rfl, h⟩
  | cons first _ ih =>
    obtain ⟨result, after⟩ := twins_next first h
    obtain ⟨results, done⟩ := ih after
    exact ⟨congrArg₂ List.cons result results, done⟩

/-- A scan of a file, walked in any order, answers what a scan of its text answers and leaves the same engine
but for the record of the file. No operation behind it answers anything else, and no sheet is another one,
whether it was the one or the other. -/
theorem scanFileBy_eq_scan (reachable : Reachable settings e) (walk : Walk) (path text : String) :
    (e.scanFileBy walk path text).1 = (e.scan text).1 ∧
    SameButFiles (e.scanFileBy walk path text).2 (e.scan text).2 ∧
    ∀ later later' : List Operation, List.Forall₂ Operation.Alike later later' →
      (e.scanFileBy walk path text).2.outcomes later = (e.scan text).2.outcomes later' ∧
        SameButFiles (later.foldl next (e.scanFileBy walk path text).2) (later'.foldl next (e.scan text).2) := by
  obtain ⟨fresh, _, us, applied, -, registered⟩ := reachable_registered reachable
  have same : (Scan.ofFile walk path text).tokens = (Scan.ofText text).tokens := rfl
  obtain ⟨found, after⟩ := twins_scanned same (twins_refl registered)
  refine ⟨found, sameButFiles_of_twins after, fun later later' alike => ?_⟩
  obtain ⟨results, done⟩ := twins_outcomes alike after
  exact ⟨results, sameButFiles_of_twins done⟩

/-- A file is passed over where its text would be scanned again, and its new text is walked backwards. -/
theorem scanFileBy_eq_scan_again :
    ∃ e : Engine, Reachable { Settings.own with safelist := fun _ => ["spun"] } e ∧
      (e.scanFileBy .inOrder "a.html" "flush").1 = (e.scan "flush").1 ∧
      (e.scanFileBy .inOrder "a.html" "flush").2.outcomes
          [.scan (.ofFile ⟨List.reverse, fun _ _ => List.mem_reverse⟩ "a.html" "flush spun"), .inline "flush"] =
        (e.scan "flush").2.outcomes [.scan (.ofText "flush spun"), .inline "flush"] := by
  obtain ⟨fresh, notices, ready, own, -⟩ := prepare_own fun _ => ["spun"]
  obtain ⟨e, built⟩ := build_isOk ready fun t ht => accepts_own own (.inl (List.mem_singleton.mp ht))
  have reachable := Reachable.next (.scan (.ofFile .inOrder "a.html" "flush")) (.built built)
  obtain ⟨found, -, later⟩ := scanFileBy_eq_scan reachable .inOrder "a.html" "flush"
  have tokens : (Scan.ofFile ⟨List.reverse, fun _ _ => List.mem_reverse⟩ "a.html" "flush spun").tokens =
      (Scan.ofText "flush spun").tokens := rfl
  have inline : List.Forall₂ Operation.Alike [.inline "flush"] [.inline "flush"] := .cons (.inline "flush") .nil
  exact ⟨_, reachable, found, (later _ _ (.cons (.scan tokens) inline)).1⟩

end Engine

end UtilityCss
