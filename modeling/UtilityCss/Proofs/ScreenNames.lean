import Mathlib.Data.List.Nodup
import UtilityCss.Proofs.BaseTheme
import UtilityCss.Variant.Table

/-!
# The names of screens

Every screen of a theme that resolves has a bound, and so a media condition and a variant under its name. Other
variants are added to the table behind those of the screens, and the last one with a name counts: a screen keeps its
variant as long as none of these has its name.
-/

namespace UtilityCss

namespace Table

variable {β : Type} {t : Table β} {pairs : List (String × β)} {key : String} {value : β}

theorem insertAll_append (t : Table β) (pairs later : List (String × β)) :
    t.insertAll (pairs ++ later) = (t.insertAll pairs).insertAll later := List.foldl_append

theorem get?_insertAll_of_notMem (unlisted : key ∉ pairs.map (·.1)) : (t.insertAll pairs).get? key = t.get? key := by
  induction pairs generalizing t with
  | nil => rfl
  | cons pair pairs ih =>
    rw [List.map_cons, List.mem_cons, not_or] at unlisted
    rw [insertAll_cons, ih unlisted.2, get?_insert, if_neg (Ne.symm unlisted.1)]

/-- Of the values listed for a key one is in the table, whatever was there before. -/
theorem exists_get?_insertAll (listed : key ∈ pairs.map (·.1)) :
    ∃ value, (key, value) ∈ pairs ∧ ∀ t : Table β, (t.insertAll pairs).get? key = some value := by
  induction pairs with
  | nil => exact absurd listed List.not_mem_nil
  | cons pair pairs ih =>
    by_cases later : key ∈ pairs.map (·.1)
    · obtain ⟨value, member, found⟩ := ih later
      exact ⟨value, List.mem_cons_of_mem _ member, fun t => found _⟩
    · obtain rfl := (List.mem_cons.mp listed).resolve_right later
      refine ⟨pair.2, List.mem_cons_self, fun t => ?_⟩
      rw [insertAll_cons, get?_insertAll_of_notMem later, get?_insert, if_pos rfl]

theorem mem_of_get?_insertAll (found : (t.insertAll pairs).get? key = some value) :
    (key, value) ∈ pairs ∨ t.get? key = some value := by
  by_cases listed : key ∈ pairs.map (·.1)
  · obtain ⟨own, member, known⟩ := exists_get?_insertAll listed
    rw [known] at found
    obtain rfl := Option.some.inj found
    exact .inl member
  · rw [get?_insertAll_of_notMem listed] at found
    exact .inr found

theorem mem_of_get?_ofList (found : (Table.ofList pairs).get? key = some value) : (key, value) ∈ pairs :=
  (mem_of_get?_insertAll found).resolve_right fun none => by
    rw [show (Table.empty : Table β).get? key = _ from get?_empty key] at none
    cases none

theorem get?_ofList_of_nodup (distinct : (pairs.map (·.1)).Nodup) (listed : (key, value) ∈ pairs) :
    (Table.ofList pairs).get? key = some value := by
  obtain ⟨other, member, found⟩ := exists_get?_insertAll (List.mem_map_of_mem (f := (·.1)) listed)
  obtain ⟨-, rfl⟩ := Prod.mk.inj (List.inj_on_of_nodup_map distinct member listed rfl)
  exact found _

end Table

/-! ### Screens that resolve -/

/-- The screen has a least or a greatest width. -/
def Screen.IsBounded (screen : Screen) : Prop :=
  screen.min.isSome = true ∨ screen.max.isSome = true

namespace Theme

variable {name : String} {screen : Screen}

theorem isBounded_of_screen {item : ThemeItem} (read : item.screen name = .ok screen) : screen.IsBounded := by
  unfold ThemeItem.screen at read
  split at read
  · obtain rfl := Except.ok.inj read
    exact .inl rfl
  · rename_i bounds
    split at read
    · rename_i shaped
      obtain rfl := Except.ok.inj read
      obtain ⟨inhabited, only⟩ := Bool.and_eq_true_iff.mp shaped
      -- The record has a key, and no other keys than these two.
      have some : bounds.keys ≠ [] := by
        simpa [Table.isEmpty, Table.keys] using inhabited
      obtain ⟨key, member⟩ := List.exists_mem_of_ne_nil _ some
      have known := Table.mem_keys_iff.mp member
      have named := List.all_eq_true.mp only key member
      rw [Bool.or_eq_true, decide_eq_true_iff, decide_eq_true_iff] at named
      rcases named with rfl | rfl
      · exact .inl known
      · exact .inr known
    · cases read
  · cases read

theorem isBounded_of_screens {items : CategoryItems} {screens : Screens} (read : items.screens = .ok screens)
    (known : screens.get? name = some screen) : screen.IsBounded := by
  obtain ⟨parts, done, made⟩ := bind_eq_ok read
  obtain rfl := Except.ok.inj made
  obtain ⟨⟨key, item⟩, -, one⟩ := (mem_iff_of_mapM_eq_ok done _).mp (Table.mem_of_get?_ofList known)
  obtain ⟨own, parsed, same⟩ := bind_eq_ok one
  obtain ⟨-, rfl⟩ := Prod.mk.inj (Except.ok.inj same)
  exact isBounded_of_screen parsed

theorem isBounded_of_base (known : Base.screens.get? name = some screen) : screen.IsBounded := by
  obtain ⟨⟨_, min⟩, -, same⟩ := List.mem_map.mp (Table.mem_of_get?_ofList known)
  obtain ⟨-, rfl⟩ := Prod.mk.inj same
  exact .inl rfl

/-- The screens of a configuration are its own or those of the base theme, with others behind them or not. -/
theorem resolveScreens_cases {config : ThemeConfig} {screens : Screens}
    (screened : resolveScreens config = .ok screens) :
    ∃ first : Screens, (first = Base.screens ∨ ∃ items : CategoryItems, items.screens = .ok first) ∧
      (screens = first ∨ ∃ (items : CategoryItems) (more : Screens), items.screens = .ok more ∧
        screens = first.extend more) := by
  unfold resolveScreens at screened
  dsimp only at screened
  split at screened
  · rename_i own _
    obtain ⟨first, parsed, screened⟩ := bind_eq_ok screened
    refine ⟨first, .inr ⟨own, parsed⟩, ?_⟩
    split at screened
    · rename_i items _
      obtain ⟨more, added, same⟩ := bind_eq_ok screened
      exact .inr ⟨items, more, added, (Except.ok.inj same).symm⟩
    · exact .inl (Except.ok.inj screened).symm
  · refine ⟨Base.screens, .inl rfl, ?_⟩
    obtain ⟨_, same, screened⟩ := bind_eq_ok screened
    obtain rfl := Except.ok.inj same
    split at screened
    · rename_i items _
      obtain ⟨more, added, same⟩ := bind_eq_ok screened
      exact .inr ⟨items, more, added, (Except.ok.inj same).symm⟩
    · exact .inl (Except.ok.inj screened).symm

theorem isBounded_of_resolve {config : ThemeConfig} {theme : Theme} (resolved : resolve config = .ok theme)
    (known : theme.screens.get? name = some screen) : screen.IsBounded := by
  obtain ⟨first, own, added⟩ := resolveScreens_cases (screens_of_resolve resolved)
  have bounded : first.get? name = some screen → screen.IsBounded := by
    intro known
    rcases own with rfl | ⟨items, parsed⟩
    · exact isBounded_of_base known
    · exact isBounded_of_screens parsed known
  rcases added with same | ⟨items, more, parsed, same⟩
  · exact bounded (same ▸ known)
  · rw [same] at known
    rcases Table.mem_of_get?_insertAll known with listed | old
    · exact isBounded_of_screens parsed (Table.mem_toList_iff.mp listed)
    · exact bounded old

end Theme

/-! ### Variants of screens -/

namespace VariantTable

variable {theme : Theme} {name condition : String} {screen : Screen} {variant : Variant} {w : Wrapping}

theorem exists_screenCondition (bounded : screen.IsBounded) :
    ∃ condition, screenCondition? screen = some condition := by
  obtain ⟨min, max⟩ := screen
  cases min <;> cases max <;> simp [Screen.IsBounded, screenCondition?] at bounded ⊢

/-- The conditions of the screens by name. -/
def wide (screens : Screens) : List (String × String) :=
  screens.toList.filterMap fun (name, screen) => (screenCondition? screen).map (name, ·)

/-- The conditions of the widths below a screen, if every screen has a least width only. -/
def narrow (screens : Screens) : List (String × String) :=
  if screens.toList.all fun (_, screen) => screen.min.isSome && screen.max.isNone then
    screens.toList.filterMap fun (name, screen) =>
      screen.min.map fun min => ("max-" ++ name, "@media not all and (min-width: " ++ min ++ ")")
  else []

/-- What is added to the variants behind those of the screens. -/
def later (theme : Theme) : List (String × Variant) :=
  let screens := screenConditions theme.screens
  let features := screens.length + 2
  let checks := (theme.category "supports").toList.map fun (key, value) =>
    ("supports-" ++ key, value.primary)
  ranked (wide theme.screens).length .atRule (narrow theme.screens) ++
    [("dark", .onSelector (.ancestor ".dark")), ("*", .onSelector (.template "& > *"))] ++
    pseudoElements.map (fun (name, element) => (name, .onSelector (.suffix ("::" ++ element)))) ++
    pseudoClasses.flatMap (fun (name, state) => stateOf name state) ++
    ranked features (fun rank feature => .atRule rank ("@media " ++ feature)) mediaFeatures ++
    ranked (features + mediaFeatures.length) .supports checks ++
    attributes theme "aria" ++ attributes theme "data"

/-- A variant behind those of the screens has the name. -/
def Taken (theme : Theme) (name : String) : Prop :=
  name ∈ (later theme).map (·.1)

theorem screenConditions_eq (screens : Screens) : screenConditions screens = wide screens ++ narrow screens := by
  unfold screenConditions narrow
  dsimp only
  split
  · rfl
  · exact (List.append_nil _).symm

theorem ranked_append (start : Nat) (make : Rank → String → Variant) (pairs more : List (String × String)) :
    ranked start make (pairs ++ more) = ranked start make pairs ++ ranked (start + pairs.length) make more := by
  rw [ranked, List.zipIdx_append, List.map_append]
  rfl

theorem statics_ofTheme (theme : Theme) :
    (ofTheme theme).statics = (Table.ofList (ranked 0 .atRule (wide theme.screens))).insertAll (later theme) := by
  have front := ranked_append 0 .atRule (wide theme.screens) (narrow theme.screens)
  rw [Nat.zero_add, ← screenConditions_eq] at front
  rw [Table.ofList, ← Table.insertAll_append, ofTheme, later, front, Table.ofList]
  simp only [List.append_assoc]

theorem nodup_wide (screens : Screens) : ((wide screens).map (·.1)).Nodup := by
  have keys : (screens.toList.map (·.1)).Nodup := by
    rw [Table.map_fst_toList]
    exact screens.nodup_keys
  refine List.pairwise_map.mpr (List.pairwise_filterMap.mpr ((List.pairwise_map.mp keys).imp fun apart => ?_))
  intro first made second made'
  obtain ⟨_, -, rfl⟩ := Option.map_eq_some_iff.mp made
  obtain ⟨_, -, rfl⟩ := Option.map_eq_some_iff.mp made'
  exact apart

theorem mem_wide (known : theme.screens.get? name = some screen)
    (bounded : screenCondition? screen = some condition) : (name, condition) ∈ wide theme.screens :=
  List.mem_filterMap.mpr ⟨(name, screen), Table.mem_toList_iff.mpr known, by simp only [bounded, Option.map_some]⟩

theorem map_fst_ranked (start : Nat) (make : Rank → String → Variant) (pairs : List (String × String)) :
    (ranked start make pairs).map (·.1) = pairs.map (·.1) := by
  rw [ranked, List.map_map]
  conv => rhs; rw [← List.zipIdx_map_fst start pairs, List.map_map]
  rfl

theorem mem_ranked {start : Nat} {make : Rank → String → Variant} {pairs : List (String × String)}
    {text : String} (listed : (name, text) ∈ pairs) :
    ∃ n, (name, make (.nth n) text) ∈ ranked start make pairs := by
  rw [← List.zipIdx_map_fst start pairs] at listed
  obtain ⟨⟨_, n⟩, member, rfl⟩ := List.mem_map.mp listed
  exact ⟨n, List.mem_map.mpr ⟨_, member, rfl⟩⟩

/-- A screen keeps its variant if no later one has its name. -/
theorem get?_of_free (known : theme.screens.get? name = some screen)
    (bounded : screenCondition? screen = some condition) (free : ¬Taken theme name) :
    ∃ n, (ofTheme theme).get? name = some (.atRule (.nth n) condition) := by
  obtain ⟨n, listed⟩ := @mem_ranked name 0 .atRule _ _ (mem_wide known bounded)
  refine ⟨n, ?_⟩
  rw [get?, statics_ofTheme, Table.get?_insertAll_of_notMem free]
  refine Table.get?_ofList_of_nodup ?_ listed
  rw [map_fst_ranked]
  exact nodup_wide _

theorem exists_get?_of_taken (taken : Taken theme name) :
    ∃ variant, (name, variant) ∈ later theme ∧ (ofTheme theme).get? name = some variant := by
  obtain ⟨variant, listed, found⟩ := Table.exists_get?_insertAll taken
  rw [get?, statics_ofTheme]
  exact ⟨variant, listed, found _⟩

/-! ### Conditions of screens and of others -/

/-- The first characters of a condition, enough to tell those of the screens from all others. -/
def opening (condition : String) : List Char :=
  condition.toList.take 9

theorem opening_append {text : String} (long : 9 ≤ text.toList.length) (rest : String) :
    opening (text ++ rest) = opening text := by
  rw [opening, String.toList_append, List.take_append_of_le_length long]
  rfl

theorem opening_of_screen (bounded : screenCondition? screen = some condition) :
    opening condition = "@media (m".toList := by
  unfold screenCondition? at bounded
  split at bounded <;> cases bounded
  all_goals
    simp only [String.append_assoc]
    exact opening_append (by decide) _

/-- The variant is no at-rule with a condition such as those of screens. -/
def IsOther (variant : Variant) : Prop :=
  ∀ w, variant.wrapping? = some w → opening w.condition ≠ "@media (m".toList

theorem isOther_onSelector (change : SelectorChange) : IsOther (.onSelector change) :=
  fun _ none => nomatch none

theorem isOther_of_append {text : String} (long : 9 ≤ text.toList.length) (apart : opening text ≠ "@media (m".toList)
    {rest : String} (own : variant.wrapping? = some w) (same : w.condition = text ++ rest) : IsOther variant := by
  intro w' again
  obtain rfl := Option.some.inj (own.symm.trans again)
  rw [same, opening_append long]
  exact apart

theorem isOther_of_mem_ranked {start : Nat} {make : Rank → String → Variant} {pairs : List (String × String)}
    (each : ∀ n, ∀ pair ∈ pairs, IsOther (make (.nth n) pair.2)) :
    ∀ pair ∈ ranked start make pairs, IsOther pair.2 := by
  intro pair listed
  obtain ⟨⟨other, n⟩, numbered, rfl⟩ := List.mem_map.mp listed
  have member := List.mem_map_of_mem (f := Prod.fst) numbered
  rw [List.zipIdx_map_fst] at member
  exact each n other member

theorem isOther_of_mem_stateOf (name state : String) : ∀ pair ∈ stateOf name state, IsOther pair.2 := by
  intro pair listed
  obtain ⟨scope, -, rfl⟩ := List.mem_map.mp listed
  exact isOther_onSelector _

theorem isOther_of_mem_attributes (theme : Theme) (name : String) : ∀ pair ∈ attributes theme name, IsOther pair.2 := by
  intro pair listed
  obtain ⟨_, -, listed⟩ := List.mem_flatMap.mp listed
  exact isOther_of_mem_stateOf _ _ pair listed

/-- No later variant has the condition of a screen. -/
theorem isOther_of_mem_later : ∀ pair ∈ later theme, IsOther pair.2 := by
  unfold later
  simp only [List.forall_mem_append]
  refine ⟨⟨⟨⟨⟨⟨⟨?narrow, ?dark⟩, ?elements⟩, ?classes⟩, ?features⟩, ?queries⟩, isOther_of_mem_attributes _ _⟩,
    isOther_of_mem_attributes _ _⟩
  case narrow =>
    refine isOther_of_mem_ranked fun n pair member => ?_
    unfold narrow at member
    split at member
    · obtain ⟨⟨name, screen⟩, -, made⟩ := List.mem_filterMap.mp member
      obtain ⟨min, -, rfl⟩ := Option.map_eq_some_iff.mp made
      exact @isOther_of_append _ _ "@media not all and (min-width: " (by decide) (by decide) _ rfl String.append_assoc
    · exact absurd member List.not_mem_nil
  case dark =>
    simp only [List.forall_mem_cons]
    exact ⟨isOther_onSelector _, isOther_onSelector _, fun _ none => absurd none List.not_mem_nil⟩
  case elements =>
    intro pair listed
    obtain ⟨_, -, rfl⟩ := List.mem_map.mp listed
    exact isOther_onSelector _
  case classes =>
    intro pair listed
    obtain ⟨_, -, listed⟩ := List.mem_flatMap.mp listed
    exact isOther_of_mem_stateOf _ _ pair listed
  case features =>
    refine isOther_of_mem_ranked fun n pair member w own => ?_
    have apart : ∀ pair ∈ mediaFeatures, opening ("@media " ++ pair.2) ≠ "@media (m".toList := by decide
    obtain rfl := Option.some.inj own
    exact apart pair member
  case queries =>
    refine isOther_of_mem_ranked fun n pair member => ?_
    exact @isOther_of_append _ _ "@supports (" (by decide) (by decide) _ rfl String.append_assoc

/-! ### Reading the name of a screen -/

/-- The name has no brackets that a variant is read by. -/
def IsPlain (name : String) : Prop :=
  name.toList.head? ≠ some '[' ∧ Text.cut? ['-', '['] name.toList = none

theorem resolve?_of_isPlain (t : VariantTable) (plain : IsPlain name) : t.resolve? name.toList = t.get? name := by
  obtain ⟨closed, uncut⟩ := plain
  unfold resolve?
  split
  · rename_i inner opened
    rw [opened] at closed
    exact absurd rfl closed
  · rw [uncut, String.ofList_toList]
    rfl

theorem resolve?_of_not_isPlain (t : VariantTable) (bracketed : ¬IsPlain name) (statics : Table Variant) :
    resolve? ⟨statics, t.dynamics⟩ name.toList = t.resolve? name.toList := by
  unfold resolve?
  split
  · rfl
  · rename_i closed
    cases cut : Text.cut? ['-', '['] name.toList with
    | some _ => rfl
    | none =>
      refine absurd ⟨fun opened => ?_, cut⟩ bracketed
      obtain ⟨inner, same⟩ := List.head?_eq_some_iff.mp opened
      exact closed inner same

/-- What the name of a screen is read as. Without brackets it is the variant of the screen, unless another one has
the name, which never has the same condition. With brackets no variant is looked up by its name. -/
structure ReadsScreen (theme : Theme) (name condition : String) : Prop where
  free : IsPlain name → ¬Taken theme name →
    ∃ n, (ofTheme theme).resolve? name.toList = some (.atRule (.nth n) condition)
  taken : IsPlain name → Taken theme name → ∃ variant, (name, variant) ∈ later theme ∧
    (ofTheme theme).resolve? name.toList = some variant ∧
      ∀ w, variant.wrapping? = some w → w.condition ≠ condition
  bracketed : ¬IsPlain name → ∀ statics,
    resolve? ⟨statics, (ofTheme theme).dynamics⟩ name.toList = (ofTheme theme).resolve? name.toList

theorem readsScreen (known : theme.screens.get? name = some screen)
    (bounded : screenCondition? screen = some condition) : ReadsScreen theme name condition where
  free plain free := by
    rw [resolve?_of_isPlain _ plain]
    exact get?_of_free known bounded free
  taken plain taken := by
    rw [resolve?_of_isPlain _ plain]
    obtain ⟨variant, listed, found⟩ := exists_get?_of_taken taken
    refine ⟨variant, listed, found, ?_⟩
    rintro w own rfl
    exact isOther_of_mem_later _ listed w own (opening_of_screen bounded)
  bracketed bracketed statics := resolve?_of_not_isPlain _ bracketed statics

end VariantTable

end UtilityCss
