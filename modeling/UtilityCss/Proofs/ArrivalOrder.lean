import Mathlib.Data.List.Nodup
import UtilityCss.Proofs.OwnRules

/-!
# Order of arrival

The order in which utilities arrive leaves its mark on a cascade: in its lists of utilities, in the places of
its groups and in the spelling that opened each group. Printing erases it, so the sheet of an engine depends
on what is registered and on nothing else.
-/

namespace UtilityCss

namespace Printer
open Cascade Placement

variable {p : Printer} {used : Bool} {seeds : List (CascadeGroup Unit)} {ps : List Placement}

/-- The items of a group with its place among its siblings. -/
def placedItem (p : Printer) (used : Bool) (g : CascadeGroup Cascade) : PlacedItems :=
  ⟨(g.rank, g.condition), p.groupItems used ⟨g.screen, g.rank, g.condition, ()⟩ g.content.isEmpty
    (p.items used false g.content)⟩

theorem placedItems_eq_map (groups : List (CascadeGroup Cascade)) :
    p.placedItems used groups = groups.map (p.placedItem used) := by
  induction groups with
  | nil => rfl
  | cons group groups ih => exact congrArg (_ :: ·) ih

theorem inOrder_eq_of_perm {us vs : List Utility} (perm : us.Perm vs)
    (distinct : (us.map (·.token)).Nodup) : inOrder us = inOrder vs := by
  have both : (inOrder us).Perm (inOrder vs) :=
    (List.mergeSort_perm us _).trans (perm.trans (List.mergeSort_perm vs _).symm)
  refine List.Perm.eq_of_pairwise ?_ (pairwise_mergeSort_key us) (pairwise_mergeSort_key vs) both
  intro a b ha hb hab hba
  have keys : a.sortKey = b.sortKey := Rank.leWith_antisymm hab hba
  have ha : a ∈ us := List.mem_mergeSort.mp ha
  have hb : b ∈ us := perm.mem_iff.mpr (List.mem_mergeSort.mp hb)
  exact List.inj_on_of_nodup_map distinct ha hb (congrArg Prod.snd keys)

theorem groupsInOrder_eq {xs ys : List PlacedItems}
    (agree : ∀ κ, xs.filter (·.key.2 = κ) = ys.filter (·.key.2 = κ)) :
    groupsInOrder xs = groupsInOrder ys := by
  have narrow : ∀ (zs : List PlacedItems) k, zs.filter (·.key = k) =
      (zs.filter (·.key.2 = k.2)).filter (·.key.1 = k.1) := by
    intro zs k
    rw [List.filter_filter]
    refine List.filter_congr fun z _ => ?_
    rw [Bool.eq_iff_iff]
    simp [Prod.ext_iff]
  refine congrArg (List.flatMap _) (mergeSort_eq_of_filter fun k => ?_)
  rw [narrow, narrow, agree]

/-! ### Groups -/

/-- Behind the seeds there is one group for each condition that is asked for. -/
theorem groups_filter (κ : String) {groups : List (CascadeGroup Cascade)} (h : GroupsHold [] groups ps) :
    (under κ ps = [] ∧ groups.filter (·.condition = κ) = []) ∨
      (under κ ps ≠ [] ∧ ∃ content, content.Holds [] (under κ ps) ∧
        groups.filter (·.condition = κ) = [⟨none, Rank.least (ranks κ ps), κ, content⟩]) := by
  induction groups generalizing ps with
  | nil => exact .inl ⟨(under_of_bare h.2).1, rfl⟩
  | cons group groups ih =>
    obtain ⟨screen, rank, condition, content⟩ := group
    obtain ⟨⟨hscreen, asked, hrank⟩, held, rest⟩ := h
    dsimp only at hscreen asked hrank
    by_cases same : condition = κ
    · subst same
      rcases ih rest with ⟨-, none⟩ | ⟨again, -⟩
      · refine .inr ⟨asked, content, held, ?_⟩
        rw [List.filter_cons_of_pos (by simp), none, hscreen, hrank]
      · exact absurd under_besides_same again
    · have other : κ ≠ condition := Ne.symm same
      rw [List.filter_cons_of_neg (by simpa using same)]
      have later := ih rest
      rwa [under_besides other, ranks_besides other] at later

theorem starts_agree {seed : Option (CascadeGroup Unit)} {g h : CascadeGroup Unit} (hg : Starts seed g ps)
    (hh : Starts seed h ps) (same : g.condition = h.condition) : g = h := by
  obtain ⟨gscreen, grank, condition, _⟩ := g
  obtain ⟨hscreen, hrank, _, _⟩ := h
  dsimp only at same
  subst same
  cases seed with
  | none =>
    obtain ⟨gs, -, gr⟩ := hg
    obtain ⟨hs, -, hr⟩ := hh
    dsimp only at gs gr hs hr
    rw [gs, hs, gr, hr]
  | some s =>
    obtain ⟨gs, -, gr⟩ := hg
    obtain ⟨hs, -, hr⟩ := hh
    dsimp only at gs gr hs hr
    rw [gs, hs, gr, hr]

theorem seed_condition {s : CascadeGroup Unit} {g : CascadeGroup Unit} (h : Starts (some s) g ps) :
    g.condition = s.condition :=
  h.2.1

theorem tokens_under (κ : String) (ps : List Placement) :
    ((under κ ps).map (·.2.token)).Sublist (ps.map (·.2.token)) := by
  induction ps with
  | nil => exact .slnil
  | cons p ps ih =>
    obtain ⟨ws, u⟩ := p
    cases ws with
    | nil => exact ih.cons _
    | cons w ws =>
      by_cases same : w.condition = κ
      · rw [under_cons_same same]
        exact ih.cons_cons _
      · rw [under_cons_other same]
        exact ih.cons _

theorem tokens_bare (ps : List Placement) :
    ((bare ps).map (·.token)).Sublist (ps.map (·.2.token)) := by
  induction ps with
  | nil => exact .slnil
  | cons p ps ih =>
    obtain ⟨ws, u⟩ := p
    cases ws with
    | nil => exact ih.cons_cons _
    | cons w ws => exact ih.cons _

theorem placedItem_eq {g h : CascadeGroup Cascade} {seed : Option (CascadeGroup Unit)} {κ : String}
    (hg : Starts seed ⟨g.screen, g.rank, g.condition, ()⟩ ps)
    (hh : Starts seed ⟨h.screen, h.rank, h.condition, ()⟩ ps)
    (gcondition : g.condition = κ) (hcondition : h.condition = κ)
    (gheld : g.content.Holds [] (under κ ps)) (hheld : h.content.Holds [] (under κ ps))
    (inner : p.items used false g.content = p.items used false h.content) :
    p.placedItem used g = p.placedItem used h := by
  have group := starts_agree hg hh (gcondition.trans hcondition.symm)
  simp only [CascadeGroup.mk.injEq] at group
  obtain ⟨screen, rank, condition, -⟩ := group
  have isEmpty : g.content.isEmpty = h.content.isEmpty := by
    rw [Bool.eq_iff_iff, isEmpty_iff_of_holds gheld, isEmpty_iff_of_holds hheld]
  unfold placedItem
  rw [screen, rank, condition, isEmpty, inner]

theorem groups_agree {gs hs : List (CascadeGroup Cascade)}
    (inner : ∀ g ∈ gs, ∀ (d : Cascade) (ps : List Placement), g.content.Holds [] ps → d.Holds [] ps →
      (ps.map (·.2.token)).Nodup → p.items used false g.content = p.items used false d)
    (hg : GroupsHold seeds gs ps) (hh : GroupsHold seeds hs ps)
    (distinct : (ps.map (·.2.token)).Nodup) (κ : String) :
    (gs.map (p.placedItem used)).filter (·.key.2 = κ) = (hs.map (p.placedItem used)).filter (·.key.2 = κ) := by
  induction seeds generalizing gs hs ps with
  | nil =>
    simp only [List.filter_map]
    change (gs.filter (·.condition = κ)).map _ = (hs.filter (·.condition = κ)).map _
    rcases groups_filter κ hg with ⟨vacant, gnone⟩ | ⟨asked, c, cheld, gone⟩
    · rcases groups_filter κ hh with ⟨-, hnone⟩ | ⟨asked, -⟩
      · rw [gnone, hnone]
      · exact absurd vacant asked
    · rcases groups_filter κ hh with ⟨vacant, -⟩ | ⟨-, d, dheld, hone⟩
      · exact absurd vacant asked
      · rw [gone, hone]
        have member : (⟨none, Rank.least (ranks κ ps), κ, c⟩ : CascadeGroup Cascade) ∈ gs :=
          (List.mem_filter.mp (gone ▸ List.mem_singleton_self _)).1
        have same := inner _ member d _ cheld dheld (distinct.sublist (tokens_under κ ps))
        have start : Starts none ⟨none, Rank.least (ranks κ ps), κ, ()⟩ ps := ⟨rfl, asked, rfl⟩
        exact congrArg (fun x => [x]) (placedItem_eq start start rfl rfl cheld dheld same)
  | cons s seeds ih =>
    cases gs with
    | nil => exact absurd hg.1 (by simp)
    | cons g gs =>
      cases hs with
      | nil => exact absurd hh.1 (by simp)
      | cons h hs =>
        obtain ⟨gscreen, grank, gcondition, gcontent⟩ := g
        obtain ⟨hscreen, hrank, hcondition, hcontent⟩ := h
        obtain ⟨gstart, gheld, grest⟩ := hg
        obtain ⟨hstart, hheld, hrest⟩ := hh
        have gsame : gcondition = s.condition := seed_condition gstart
        have hsame : hcondition = s.condition := seed_condition hstart
        subst gsame hsame
        have same := inner _ List.mem_cons_self hcontent _ gheld hheld (distinct.sublist (tokens_under _ ps))
        have heads : p.placedItem used ⟨gscreen, grank, s.condition, gcontent⟩ =
            p.placedItem used ⟨hscreen, hrank, s.condition, hcontent⟩ :=
          placedItem_eq gstart hstart rfl rfl gheld hheld same
        have tails := ih (fun g hg => inner g (List.mem_cons_of_mem _ hg)) grest hrest
          (distinct.sublist (List.filter_sublist.map _))
        rw [List.map_cons, List.map_cons, heads, List.filter_cons, List.filter_cons, tails]

/-- Printing reads from a cascade what it holds, and not in which order that came. -/
theorem items_eq_of_holds {c d : Cascade} {atRoot : Bool} (hc : c.Holds seeds ps) (hd : d.Holds seeds ps)
    (distinct : (ps.map (·.2.token)).Nodup) : p.items used atRoot c = p.items used atRoot d := by
  induction c using Cascade.induct generalizing d seeds ps atRoot with
  | node us gs ih =>
    obtain ⟨vs, hs⟩ := d
    obtain ⟨uhere, ubelow⟩ := hc
    obtain ⟨vhere, vbelow⟩ := hd
    have tokens : (us.map (·.token)).Nodup :=
      (uhere.map _).nodup_iff.mpr (distinct.sublist (tokens_bare ps))
    unfold items
    rw [inOrder_eq_of_perm (uhere.trans vhere.symm) tokens, placedItems_eq_map, placedItems_eq_map]
    refine congrArg (_ ++ ·) (groupsInOrder_eq fun κ => ?_)
    exact groups_agree (fun g hg d ps hc hd distinct => ih g hg hc hd distinct) ubelow vbelow distinct κ

theorem sheet_eq_of_holds {c d : Cascade} (hc : c.Holds seeds ps) (hd : d.Holds seeds ps)
    (distinct : (ps.map (·.2.token)).Nodup) : p.sheet c = p.sheet d := by
  have containers : c.utilities.any (·.isContainer) = d.utilities.any (·.isContainer) := by
    obtain ⟨us, gs⟩ := c
    obtain ⟨vs, hs⟩ := d
    exact (hc.1.trans hd.1.symm).any_eq
  unfold sheet
  rw [containers]
  exact items_eq_of_holds hc hd distinct

end Printer

namespace Engine

variable {fresh e d : Engine} {blocklist : List String} {us vs : List Utility}
  {applied applied' : DefaultGroups}

/-- Engines that have the same tokens registered have the same utilities registered. -/
theorem registered_perm (he : Registered fresh blocklist us applied e)
    (hd : Registered fresh blocklist vs applied' d) (same : ∀ token, token ∈ e.seen ↔ token ∈ d.seen) :
    us.Perm vs := by
  apply (List.perm_ext_iff_of_nodup he.distinct.of_map hd.distinct.of_map).mpr
  have oneWay : ∀ {e d : Engine} {us vs : List Utility} {applied applied' : DefaultGroups},
      Registered fresh blocklist us applied e → Registered fresh blocklist vs applied' d →
      (∀ token, token ∈ e.seen → token ∈ d.seen) → ∀ u ∈ us, u ∈ vs := by
    intro e d us vs applied applied' he hd sub u hu
    have seen := sub u.token ((he.seen u.token).mpr (List.mem_map_of_mem hu))
    obtain ⟨v, hv, tokens⟩ := List.mem_map.mp ((hd.seen u.token).mp seen)
    have umeaning := he.meaning u hu
    have vmeaning := hd.meaning v hv
    rw [he.vocabulary] at umeaning
    rw [hd.vocabulary, tokens, umeaning] at vmeaning
    rwa [Option.some.inj vmeaning]
  intro u
  exact ⟨oneWay he hd (fun t => (same t).mp) u, oneWay hd he (fun t => (same t).mpr) u⟩

theorem header_eq_of_mem {p : Printer} {groups groups' : DefaultGroups} {names : List String}
    (same : ∀ g, g ∈ groups ↔ g ∈ groups') : p.header groups names = p.header groups' names := by
  have sorted : groups.sorted = groups'.sorted := by
    unfold DefaultGroups.sorted
    refine List.filter_congr fun g _ => ?_
    rw [Bool.eq_iff_iff, List.contains_iff_mem, List.contains_iff_mem, same]
  have isEmpty : groups.isEmpty = groups'.isEmpty := by
    rw [Bool.eq_iff_iff, List.isEmpty_iff, List.isEmpty_iff, List.eq_nil_iff_forall_not_mem,
      List.eq_nil_iff_forall_not_mem]
    simp only [same]
  unfold Printer.header
  rw [sorted, isEmpty]

theorem sheet_eq_of_registered (he : Registered fresh blocklist us applied e)
    (hd : Registered fresh blocklist vs applied' d) (perm : us.Perm vs)
    (groups : ∀ g, g ∈ applied ↔ g ∈ applied') : e.sheet = d.sheet := by
  have printers : e.printer = d.printer := by
    unfold printer
    rw [he.theme, he.shortcuts, hd.theme, hd.shortcuts]
  have sheets : e.printer.sheet e.cascade = e.printer.sheet d.cascade := by
    have held := Cascade.holds_perm hd.cascade (perm.symm.map Utility.placement)
    refine Printer.sheet_eq_of_holds he.cascade held ?_
    rw [List.map_map]
    exact he.distinct
  have headers : e.printer.header e.groups e.keyframes.toList =
      e.printer.header d.groups d.keyframes.toList := by
    have names : e.keyframes.toList = d.keyframes.toList := by
      apply Std.TreeSet.Equiv.toList_eq
      apply Std.TreeSet.Equiv.of_forall_mem_iff
      intro name
      rw [he.keyframes, hd.keyframes, he.theme, hd.theme]
      exact ⟨fun ⟨u, hu, h⟩ => ⟨u, perm.mem_iff.mp hu, h⟩, fun ⟨u, hu, h⟩ => ⟨u, perm.mem_iff.mpr hu, h⟩⟩
    rw [names]
    apply header_eq_of_mem
    intro g
    rw [he.groups, hd.groups, groups, he.shortcuts, hd.shortcuts]
    refine or_congr .rfl ?_
    exact ⟨fun ⟨u, hu, h⟩ => ⟨u, perm.mem_iff.mp hu, h⟩, fun ⟨u, hu, h⟩ => ⟨u, perm.mem_iff.mpr hu, h⟩⟩
  unfold sheet Printer.text
  rw [sheets, headers, printers]

/-- After any two histories of scans that register the same tokens, from settings that differ in their
safelist at most, the sheets are the same. -/
theorem sheet_eq_of_seen_eq {settings : Settings} {safelist safelist' : Theme → List String}
    {notices notices' : List Notice}
    (he : build { settings with safelist := safelist } = .ok (e, notices))
    (hd : build { settings with safelist := safelist' } = .ok (d, notices')) (scans scans' : List Scan)
    (same : ∀ token, token ∈ (scans.foldl scanned e).seen ↔ token ∈ (scans'.foldl scanned d).seen) :
    (scans.foldl scanned e).sheet = (scans'.foldl scanned d).sheet := by
  obtain ⟨fresh, _, eready, estart, -⟩ := build_registered he
  obtain ⟨fresh', _, dready, dstart, -⟩ := build_registered hd
  -- What precedes the safelist does not read it.
  have prepared : prepare { settings with safelist := safelist } =
      prepare { settings with safelist := safelist' } := rfl
  obtain ⟨rfl, -⟩ := Prod.mk.inj (Except.ok.inj (eready.symm.trans (prepared.trans dready)))
  obtain ⟨us, eend, -⟩ := scans_registered scans estart
  obtain ⟨vs, dend, -⟩ := scans_registered scans' dstart
  exact sheet_eq_of_registered eend dend (registered_perm eend dend same) (fun _ => .rfl)

/-- One engine has a token from its safelist and another from a text, the other one has both from a file that
was walked backwards and sees one again. -/
theorem sheet_eq_of_walked_back :
    ∃ e d : Engine, ∃ notices notices',
      build { Settings.own with safelist := fun _ => ["spun"] } = .ok (e, notices) ∧
      build { Settings.own with safelist := fun _ => [] } = .ok (d, notices') ∧
      ([Scan.ofText "<p class=\"flush\">"].foldl scanned e).sheet =
        ([Scan.ofFile ⟨List.reverse, fun _ _ => List.mem_reverse⟩ "a.html" "flush spun",
          .ofToken "flush"].foldl scanned d).sheet := by
  obtain ⟨fresh, notices, ready, own, -⟩ := prepare_own fun _ => ["spun"]
  obtain ⟨fresh', notices', ready', own', -⟩ := prepare_own fun _ => []
  obtain ⟨e, built⟩ := build_isOk ready fun t ht => accepts_own own (.inl (List.mem_singleton.mp ht))
  obtain ⟨d, built'⟩ := build_isOk ready' (by simp)
  refine ⟨e, d, notices, notices', built, built', sheet_eq_of_seen_eq built built' _ _ fun token => ?_⟩
  obtain ⟨_, us, again, start, seen⟩ := build_registered built
  obtain ⟨_, us', again', start', seen'⟩ := build_registered built'
  obtain ⟨rfl, -⟩ := Prod.mk.inj (Except.ok.inj (ready.symm.trans again))
  obtain ⟨rfl, -⟩ := Prod.mk.inj (Except.ok.inj (ready'.symm.trans again'))
  obtain ⟨-, -, scanned⟩ := scans_registered [Scan.ofText "<p class=\"flush\">"] start
  obtain ⟨-, -, scanned'⟩ := scans_registered
    [Scan.ofFile ⟨List.reverse, fun _ _ => List.mem_reverse⟩ "a.html" "flush spun", .ofToken "flush"] start'
  have tokens : Token.extract "<p class=\"flush\">" = ["flush"] := by decide
  have tokens' : Token.extract "flush spun" = ["flush", "spun"] := by decide
  rw [scanned, scanned', seen, seen']
  simp only [List.flatMap_cons, List.flatMap_nil, Scan.tokens, tokens, tokens', List.mem_cons,
    List.mem_append, List.not_mem_nil, or_false, false_or]
  constructor
  · rintro (rfl | ⟨rfl, -⟩)
    · exact ⟨.inl (.inr rfl), accepts_own own' (.inl rfl)⟩
    · exact ⟨.inr rfl, accepts_own own' (.inr rfl)⟩
  · rintro ⟨(rfl | rfl) | rfl, -⟩
    · exact .inr ⟨rfl, accepts_own own (.inr rfl)⟩
    · exact .inl rfl
    · exact .inr ⟨rfl, accepts_own own (.inr rfl)⟩

end Engine

end UtilityCss
