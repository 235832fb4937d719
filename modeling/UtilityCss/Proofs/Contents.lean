import UtilityCss.Proofs.PrintedOrder

/-!
# What a cascade holds

A cascade that grew from empty groups holds each inserted utility under the conditions of its at-rules.
`Cascade.Holds` says so for a list of placements without regard to the order of their arrival, and
`insert_holds` that an insertion adds one placement. Printing reads no more than that:
`items_eq_of_holds`.
-/

namespace UtilityCss

/-- A utility with the at-rules that are around it. -/
abbrev Placement := List Wrapping × Utility

def Utility.placement (u : Utility) : Placement :=
  (u.wrappings, u)

namespace Placement

def place (p : Placement) : List String × Utility :=
  (p.1.map (·.condition), p.2)

def bare? : Placement → Option Utility
  | ([], u) => some u
  | (_ :: _, _) => none

/-- The placement inside the outermost at-rule, if that has the condition. -/
def inside? (condition : String) : Placement → Option Placement
  | ([], _) => none
  | (w :: ws, u) => if w.condition = condition then some (ws, u) else none

def rank? (condition : String) : Placement → Option Rank
  | ([], _) => none
  | (w :: _, _) => if w.condition = condition then some w.rank else none

def bare (ps : List Placement) : List Utility :=
  ps.filterMap bare?

/-- What stands under a condition. -/
def under (condition : String) (ps : List Placement) : List Placement :=
  ps.filterMap (inside? condition)

/-- The ranks at which a condition is asked for. -/
def ranks (condition : String) (ps : List Placement) : List Rank :=
  ps.filterMap (rank? condition)

def besides (condition : String) (ps : List Placement) : List Placement :=
  ps.filter fun p => (inside? condition p).isNone

variable {κ μ : String} {u : Utility} {w : Wrapping} {ws : List Wrapping} {ps qs : List Placement}

@[simp] theorem bare_nil : bare [] = [] := rfl

@[simp] theorem under_nil : under κ [] = [] := rfl

@[simp] theorem ranks_nil : ranks κ [] = [] := rfl

@[simp] theorem besides_nil : besides κ [] = [] := rfl

@[simp] theorem bare_cons_bare : bare (([], u) :: ps) = u :: bare ps := rfl

@[simp] theorem bare_cons_wrapped : bare ((w :: ws, u) :: ps) = bare ps := rfl

@[simp] theorem under_cons_bare : under κ (([], u) :: ps) = under κ ps := rfl

@[simp] theorem ranks_cons_bare : ranks κ (([], u) :: ps) = ranks κ ps := rfl

@[simp] theorem besides_cons_bare : besides κ (([], u) :: ps) = ([], u) :: besides κ ps := rfl

theorem under_cons_same (h : w.condition = κ) : under κ ((w :: ws, u) :: ps) = (ws, u) :: under κ ps := by
  simp [under, inside?, h]

theorem under_cons_other (h : w.condition ≠ κ) : under κ ((w :: ws, u) :: ps) = under κ ps := by
  simp [under, inside?, h]

theorem ranks_cons_same (h : w.condition = κ) : ranks κ ((w :: ws, u) :: ps) = w.rank :: ranks κ ps := by
  simp [ranks, rank?, h]

theorem ranks_cons_other (h : w.condition ≠ κ) : ranks κ ((w :: ws, u) :: ps) = ranks κ ps := by
  simp [ranks, rank?, h]

theorem besides_cons_same (h : w.condition = κ) : besides κ ((w :: ws, u) :: ps) = besides κ ps := by
  simp [besides, inside?, h]

theorem besides_cons_other (h : w.condition ≠ κ) :
    besides κ ((w :: ws, u) :: ps) = (w :: ws, u) :: besides κ ps := by
  simp [besides, inside?, h]

theorem under_besides (h : μ ≠ κ) : under μ (besides κ ps) = under μ ps := by
  induction ps with
  | nil => rfl
  | cons p ps ih =>
    obtain ⟨ws, u⟩ := p
    cases ws with
    | nil => simpa using ih
    | cons w ws =>
      by_cases hκ : w.condition = κ
      · rw [besides_cons_same hκ, ih, under_cons_other (fun e => h (e.symm.trans hκ))]
      · rw [besides_cons_other hκ]
        by_cases hμ : w.condition = μ
        · rw [under_cons_same hμ, under_cons_same hμ, ih]
        · rw [under_cons_other hμ, under_cons_other hμ, ih]

theorem under_besides_same : under κ (besides κ ps) = [] := by
  simp only [under, besides, List.filterMap_filter, List.filterMap_eq_nil_iff]
  intro p _
  cases inside? κ p <;> simp

theorem ranks_besides (h : μ ≠ κ) : ranks μ (besides κ ps) = ranks μ ps := by
  induction ps with
  | nil => rfl
  | cons p ps ih =>
    obtain ⟨ws, u⟩ := p
    cases ws with
    | nil => simpa using ih
    | cons w ws =>
      by_cases hκ : w.condition = κ
      · rw [besides_cons_same hκ, ih, ranks_cons_other (fun e => h (e.symm.trans hκ))]
      · rw [besides_cons_other hκ]
        by_cases hμ : w.condition = μ
        · rw [ranks_cons_same hμ, ranks_cons_same hμ, ih]
        · rw [ranks_cons_other hμ, ranks_cons_other hμ, ih]

theorem bare_besides : bare (besides κ ps) = bare ps := by
  induction ps with
  | nil => rfl
  | cons p ps ih =>
    obtain ⟨ws, u⟩ := p
    cases ws with
    | nil => simpa using ih
    | cons w ws =>
      by_cases hκ : w.condition = κ
      · rw [besides_cons_same hκ, ih, bare_cons_wrapped]
      · rw [besides_cons_other hκ, bare_cons_wrapped, bare_cons_wrapped, ih]

/-- What stands under a condition and what does not make up everything. -/
theorem place_under_append_besides :
    ((under κ ps).map (fun p => (κ :: p.place.1, p.place.2)) ++ (besides κ ps).map place).Perm
      (ps.map place) := by
  induction ps with
  | nil => exact .refl _
  | cons p ps ih =>
    obtain ⟨ws, u⟩ := p
    cases ws with
    | nil => exact List.perm_middle.trans (ih.cons _)
    | cons w ws =>
      by_cases hκ : w.condition = κ
      · rw [under_cons_same hκ, besides_cons_same hκ]
        subst hκ
        exact ih.cons _
      · rw [under_cons_other hκ, besides_cons_other hκ]
        exact List.perm_middle.trans (ih.cons _)

end Placement

namespace Cascade
open Placement

/-! ### Contents -/

/-- How a group starts: at the place of a seed it continues that, and behind the seeds it is there for what
stands under its condition. -/
def Starts (seed : Option (CascadeGroup Unit)) (group : CascadeGroup Unit) (ps : List Placement) : Prop :=
  match seed with
  | some s =>
    group.screen = s.screen ∧ group.condition = s.condition ∧
      group.rank = Rank.least (s.rank :: ranks group.condition ps)
  | none =>
    group.screen = none ∧ under group.condition ps ≠ [] ∧
      group.rank = Rank.least (ranks group.condition ps)

mutual

/-- The cascade holds the placements, each once, and nothing else. It grew from the groups `seeds`. Of two
groups with one condition the first holds everything under it. -/
def Holds (seeds : List (CascadeGroup Unit)) : Cascade → List Placement → Prop
  | node utilities groups, ps => utilities.Perm (bare ps) ∧ GroupsHold seeds groups ps

def GroupsHold (seeds : List (CascadeGroup Unit)) : List (CascadeGroup Cascade) → List Placement → Prop
  | [], ps => seeds = [] ∧ ∀ p ∈ ps, p.1 = []
  | ⟨screen, rank, condition, content⟩ :: groups, ps =>
    Starts seeds.head? ⟨screen, rank, condition, ()⟩ ps ∧
      Holds [] content (under condition ps) ∧ GroupsHold seeds.tail groups (besides condition ps)

end

/-! ### Insertion -/

variable {seeds : List (CascadeGroup Unit)} {ps qs : List Placement} {u : Utility}

theorem under_of_bare {κ : String} (h : ∀ p ∈ ps, p.1 = []) :
    under κ ps = [] ∧ ranks κ ps = [] ∧ besides κ ps = ps := by
  induction ps with
  | nil => exact ⟨rfl, rfl, rfl⟩
  | cons p ps ih =>
    obtain ⟨ws, u⟩ := p
    obtain rfl : ws = [] := h _ List.mem_cons_self
    obtain ⟨hu, hr, hb⟩ := ih fun p hp => h p (List.mem_cons_of_mem _ hp)
    exact ⟨by simpa using hu, by simpa using hr, by simpa using hb⟩

theorem empty_holds : Holds [] empty [] :=
  ⟨.refl _, rfl, by simp⟩

theorem starts_other {seed : Option (CascadeGroup Unit)} {group : CascadeGroup Unit} {w : Wrapping}
    {ws : List Wrapping} (other : w.condition ≠ group.condition) (h : Starts seed group ps) :
    Starts seed group ((w :: ws, u) :: ps) := by
  cases seed with
  | none =>
    simp only [Starts, under_cons_other other, ranks_cons_other other]
    exact h
  | some s =>
    simp only [Starts, ranks_cons_other other]
    exact h

theorem starts_same {seed : Option (CascadeGroup Unit)} {group : CascadeGroup Unit} {w : Wrapping}
    {ws : List Wrapping} (same : w.condition = group.condition) (h : Starts seed group ps) :
    Starts seed { group with rank := group.rank.min w.rank } ((w :: ws, u) :: ps) := by
  cases seed with
  | none =>
    obtain ⟨screen, some_under, rank⟩ := h
    refine ⟨screen, by simp [under_cons_same same], ?_⟩
    simp only [ranks_cons_same same]
    rw [rank, Rank.min_comm]
    rfl
  | some s =>
    obtain ⟨screen, condition, rank⟩ := h
    refine ⟨screen, condition, ?_⟩
    simp only [ranks_cons_same same]
    rw [rank, Rank.least_cons_cons]

theorem updateGroup_holds {w : Wrapping} {ws : List Wrapping} {change : Cascade → Cascade}
    (inner : ∀ c qs, Holds [] c qs → Holds [] (change c) ((ws, u) :: qs))
    {groups : List (CascadeGroup Cascade)} (h : GroupsHold seeds groups ps) :
    GroupsHold seeds (updateGroup w change groups) ((w :: ws, u) :: ps) := by
  induction groups generalizing seeds ps with
  | nil =>
    obtain ⟨rfl, outside⟩ := h
    obtain ⟨hu, hr, hb⟩ := under_of_bare (κ := w.condition) outside
    refine ⟨⟨rfl, by simp [under_cons_same], ?_⟩, ?_, rfl, ?_⟩
    · simp only [ranks_cons_same, hr, Rank.least_singleton]
    · rw [under_cons_same rfl, hu]
      exact inner _ _ empty_holds
    · rw [besides_cons_same rfl, hb]
      exact outside
  | cons group groups ih =>
    obtain ⟨screen, rank, condition, content⟩ := group
    obtain ⟨start, held, rest⟩ := h
    unfold updateGroup
    by_cases same : condition = w.condition
    · rw [if_pos same]
      refine ⟨starts_same same.symm start, ?_, ?_⟩
      · rw [under_cons_same same.symm]
        exact inner _ _ held
      · rw [besides_cons_same same.symm]
        exact rest
    · have other : w.condition ≠ condition := Ne.symm same
      rw [if_neg same]
      refine ⟨starts_other other start, ?_, ?_⟩
      · rw [under_cons_other other]
        exact held
      · rw [besides_cons_other other]
        exact ih rest

theorem insertUnder_holds {ws : List Wrapping} {c : Cascade} (h : Holds seeds c ps) :
    Holds seeds (insertUnder u ws c) ((ws, u) :: ps) := by
  induction ws generalizing seeds c ps with
  | nil =>
    obtain ⟨utilities, groups⟩ := c
    obtain ⟨here, below⟩ := h
    refine ⟨here.cons u, ?_⟩
    clear here
    induction groups generalizing seeds ps with
    | nil => exact ⟨below.1, by simpa using below.2⟩
    | cons group groups ih =>
      obtain ⟨screen, rank, condition, content⟩ := group
      obtain ⟨start, held, rest⟩ := below
      refine ⟨?_, held, ih rest⟩
      cases hs : seeds.head? with
      | none => simpa [Starts, hs] using start
      | some s => simpa [Starts, hs] using start
  | cons w ws ih =>
    obtain ⟨utilities, groups⟩ := c
    obtain ⟨here, below⟩ := h
    exact ⟨here, updateGroup_holds (fun _ _ held => ih held) below⟩

theorem insert_holds {c : Cascade} (h : Holds seeds c ps) :
    Holds seeds (c.insert u) (u.placement :: ps) :=
  insertUnder_holds h

theorem insertAll_holds {c : Cascade} (us : List Utility) (h : Holds seeds c ps) :
    Holds seeds (us.foldl insert c) (us.reverse.map Utility.placement ++ ps) := by
  induction us generalizing c ps with
  | nil => exact h
  | cons u us ih =>
    have later := ih (insert_holds (u := u) h)
    simpa [List.append_assoc] using later

/-! ### Screens -/

/-- The groups that a cascade starts from, one for each screen that has a variant. -/
def screenSeeds (screens : Screens) (variants : VariantTable) : List (CascadeGroup Unit) :=
  screens.keys.filterMap fun name => do
    let wrapping ← (← variants.get? name).wrapping?
    return ⟨some name, wrapping.rank, wrapping.condition, ()⟩

theorem seeds_hold (seeds : List (CascadeGroup Unit)) :
    GroupsHold seeds (seeds.map fun s => ⟨s.screen, s.rank, s.condition, empty⟩) [] := by
  induction seeds with
  | nil => exact ⟨rfl, by simp⟩
  | cons s seeds ih => exact ⟨⟨rfl, rfl, (Rank.least_singleton s.rank).symm⟩, empty_holds, ih⟩

theorem withScreens_eq (screens : Screens) (variants : VariantTable) :
    withScreens screens variants =
      node [] ((screenSeeds screens variants).map fun s => ⟨s.screen, s.rank, s.condition, empty⟩) := by
  unfold withScreens screenSeeds
  rw [List.map_filterMap]
  congr 2
  funext name
  cases variants.get? name with
  | none => rfl
  | some variant => cases hw : variant.wrapping? <;> simp [hw]

theorem withScreens_holds (screens : Screens) (variants : VariantTable) :
    Holds (screenSeeds screens variants) (withScreens screens variants) [] := by
  rw [withScreens_eq]
  exact ⟨.refl _, seeds_hold _⟩

/-! ### Induction -/

mutual

theorem induct {P : Cascade → Prop}
    (node : ∀ utilities groups, (∀ g ∈ groups, P g.content) → P (node utilities groups)) : ∀ c, P c
  | .node utilities groups => node utilities groups (inductGroups node groups)

theorem inductGroups {P : Cascade → Prop}
    (node : ∀ utilities groups, (∀ g ∈ groups, P g.content) → P (.node utilities groups)) :
    ∀ groups : List (CascadeGroup Cascade), ∀ g ∈ groups, P g.content
  | [], _, hg => absurd hg List.not_mem_nil
  | ⟨_, _, _, content⟩ :: groups, g, hg => by
    rcases List.mem_cons.mp hg with rfl | later
    · exact induct node content
    · exact inductGroups node groups g later

end

/-! ### Order of the placements -/

theorem starts_perm {seed : Option (CascadeGroup Unit)} {group : CascadeGroup Unit} (perm : ps.Perm qs)
    (h : Starts seed group ps) : Starts seed group qs := by
  have ranksPerm : (ranks group.condition ps).Perm (ranks group.condition qs) := perm.filterMap _
  have underPerm : (under group.condition ps).Perm (under group.condition qs) := perm.filterMap _
  cases seed with
  | none =>
    obtain ⟨screen, asked, rank⟩ := h
    refine ⟨screen, fun none => asked (none ▸ underPerm).eq_nil, ?_⟩
    rw [rank, Rank.least_perm ranksPerm]
  | some s =>
    obtain ⟨screen, condition, rank⟩ := h
    refine ⟨screen, condition, ?_⟩
    rw [rank, Rank.least_perm (ranksPerm.cons s.rank)]

/-- What a cascade holds has no order. -/
theorem holds_perm {c : Cascade} (h : Holds seeds c ps) (perm : ps.Perm qs) : Holds seeds c qs := by
  induction c using induct generalizing seeds ps qs with
  | node utilities groups ih =>
    obtain ⟨here, below⟩ := h
    refine ⟨here.trans (perm.filterMap _), ?_⟩
    clear here
    induction groups generalizing seeds ps qs with
    | nil => exact ⟨below.1, fun p hp => below.2 p (perm.mem_iff.mpr hp)⟩
    | cons group groups later =>
      obtain ⟨screen, rank, condition, content⟩ := group
      obtain ⟨start, held, rest⟩ := below
      refine ⟨starts_perm perm start, ih _ List.mem_cons_self held (perm.filterMap _), ?_⟩
      exact later (fun g hg => ih g (List.mem_cons_of_mem _ hg)) (perm.filter _) rest

/-! ### Everything that is held -/

theorem placedInGroups_perm {groups : List (CascadeGroup Cascade)}
    (inner : ∀ g ∈ groups, ∀ seeds ps, Holds seeds g.content ps → g.content.placed.Perm (ps.map place))
    (h : GroupsHold seeds groups ps) :
    ((bare ps).map ([], ·) ++ placedInGroups groups).Perm (ps.map place) := by
  induction groups generalizing seeds ps with
  | nil =>
    have outside := h.2
    clear h inner
    rw [placedInGroups, List.append_nil]
    induction ps with
    | nil => exact .refl _
    | cons p ps ih =>
      obtain ⟨ws, u⟩ := p
      obtain rfl : ws = [] := outside _ List.mem_cons_self
      exact (ih fun p hp => outside p (List.mem_cons_of_mem _ hp)).cons _
  | cons group groups ih =>
    obtain ⟨screen, rank, condition, content⟩ := group
    obtain ⟨-, held, rest⟩ := h
    have first := (inner _ List.mem_cons_self _ _ held).map fun p => (condition :: p.1, p.2)
    have later := ih (fun g hg => inner g (List.mem_cons_of_mem _ hg)) rest
    rw [bare_besides] at later
    rw [List.map_map] at first
    refine List.Perm.trans ?_ (place_under_append_besides (κ := condition))
    refine List.Perm.trans ?_ (first.append later)
    rw [placedInGroups, ← List.append_assoc, ← List.append_assoc]
    exact List.perm_append_comm.append_right _

/-- Each placement is held once, under its conditions and nowhere else. -/
theorem placed_perm {c : Cascade} (h : Holds seeds c ps) : c.placed.Perm (ps.map place) := by
  induction c using induct generalizing seeds ps with
  | node utilities groups ih =>
    obtain ⟨here, below⟩ := h
    rw [placed]
    exact ((here.map _).append_right _).trans (placedInGroups_perm (fun g hg seeds ps => ih g hg) below)

theorem groupsEmpty_iff {groups : List (CascadeGroup Cascade)}
    (inner : ∀ g ∈ groups, g.content.isEmpty = true ↔ g.content.placed = []) :
    groupsEmpty groups = true ↔ placedInGroups groups = [] := by
  induction groups with
  | nil => simp [groupsEmpty, placedInGroups]
  | cons group groups ih =>
    obtain ⟨screen, rank, condition, content⟩ := group
    have first := inner _ List.mem_cons_self
    have later := ih fun g hg => inner g (List.mem_cons_of_mem _ hg)
    simp [groupsEmpty, placedInGroups, first, later]

theorem isEmpty_iff {c : Cascade} : c.isEmpty = true ↔ c.placed = [] := by
  induction c using induct with
  | node utilities groups ih => simp [isEmpty, placed, groupsEmpty_iff ih]

theorem isEmpty_iff_of_holds {c : Cascade} (h : Holds seeds c ps) : c.isEmpty = true ↔ ps = [] := by
  rw [isEmpty_iff]
  constructor
  · intro none
    have perm := placed_perm h
    rw [none] at perm
    simpa using perm.nil_eq.symm
  · rintro rfl
    exact (placed_perm h).eq_nil

end Cascade

end UtilityCss
