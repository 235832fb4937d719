import Mathlib.Data.Finset.Card
import Mathlib.Data.Finset.Filter
import UtilityCss.Proofs.Rescans

/-!
# Answers of memos

A memo may be asked for anything, again and again. It answers as its blocklist and its vocabulary do, whatever it was
asked before, and what it keeps follows from the tokens asked for: `readAll_answers`.
-/

namespace UtilityCss

namespace Memo

variable {blocklist asked : List String} {v : Vocabulary} {memo : Memo} {token : String} {u : Utility}

/-! ### What a memo keeps -/

theorem knows_of_knows_read {other : String} (known : (memo.read v other).2.Knows token) :
    memo.Knows token ∨ token = other := by
  by_cases same : token = other
  · exact .inr same
  left
  unfold read at known
  split at known
  · exact known
  split at known
  · exact known
  -- The answer goes into one of the two parts, under the token that was asked for.
  cases meaning : v.read? other with
  | some u => simpa [meaning, Knows, Std.TreeMap.getElem?_insert, Ne.symm same] using known
  | none => simpa [meaning, Knows, Ne.symm same] using known

theorem knows_readAll_iff : (memo.readAll v asked).Knows token ↔ memo.Knows token ∨ token ∈ asked := by
  refine ⟨fun known => ?_, fun known => known.elim (knows_readAll_of_knows asked) knows_readAll⟩
  induction asked generalizing memo with
  | nil => exact .inl known
  | cons other asked ih =>
    rcases ih known with early | later
    · exact (knows_of_knows_read early).imp_right fun same => by simp [same]
    · exact .inr (List.mem_cons_of_mem other later)

theorem knows_ofBlocklist_iff : (ofBlocklist blocklist).Knows token ↔ token ∈ blocklist := by
  simp [Knows, ofBlocklist]

theorem readAll_sound (sound : memo.Sound blocklist v) (asked : List String) :
    (memo.readAll v asked).Sound blocklist v := by
  induction asked generalizing memo with
  | nil => exact sound
  | cons token asked ih => exact ih (read_sound sound)

theorem refused_iff (sound : memo.Sound blocklist v) :
    token ∈ memo.refused ↔ memo.Knows token ∧ answer? blocklist v token = none := by
  refine ⟨fun refused => ⟨.inl refused, sound.refused token refused⟩, ?_⟩
  rintro ⟨refused | accepted, none⟩
  · exact refused
  · obtain ⟨u, accepted⟩ := Option.isSome_iff_exists.mp accepted
    cases none.symm.trans (sound.accepted token u accepted)

theorem accepted_iff (sound : memo.Sound blocklist v) :
    memo.accepted[token]? = some u ↔ memo.Knows token ∧ answer? blocklist v token = some u := by
  refine ⟨fun accepted => ⟨.inr (by rw [accepted]; rfl), sound.accepted token u accepted⟩, ?_⟩
  exact fun ⟨known, meaning⟩ => accepted_of_knows sound meaning known

/-! ### The number of accepted tokens -/

theorem mem_accepted_iff (sound : memo.Sound blocklist v) :
    token ∈ memo.accepted ↔ memo.Knows token ∧ (answer? blocklist v token).isSome = true := by
  rw [Std.TreeMap.mem_iff_isSome_getElem?, Option.isSome_iff_exists, Option.isSome_iff_exists]
  simp only [accepted_iff sound, exists_and_left]

theorem size_eq_card (memo : Memo) : memo.size = memo.accepted.keys.toFinset.card := by
  have distinct : memo.accepted.keys.Nodup :=
    memo.accepted.distinct_keys.imp fun differ same => differ (by rw [same]; exact Std.ReflCmp.compare_self)
  rw [List.toFinset_card_of_nodup distinct, Std.TreeMap.length_keys, size]

/-! ### Histories of questions -/

/-- Whatever a memo was asked for, the next question is answered by the blocklist and else by the vocabulary. What the
memo refuses is the blocklist and what was asked for and is no utility, what it has accepted is what was asked for and
is one, and its size is the number of different tokens among these. -/
theorem readAll_answers (blocklist : List String) (v : Vocabulary) (asked : List String) :
    (∀ token, (((ofBlocklist blocklist).readAll v asked).read v token).1 =
      if token ∈ blocklist then none else v.read? token) ∧
    (∀ token, ((ofBlocklist blocklist).readAll v asked).isRefused token = true ↔
      token ∈ blocklist ∨ token ∈ asked ∧ v.read? token = none) ∧
    (∀ token u, ((ofBlocklist blocklist).readAll v asked).accepted[token]? = some u ↔
      token ∈ asked ∧ token ∉ blocklist ∧ v.read? token = some u) ∧
    (∀ token, ¬(token ∈ ((ofBlocklist blocklist).readAll v asked).accepted ∧
      token ∈ ((ofBlocklist blocklist).readAll v asked).refused)) ∧
    ((ofBlocklist blocklist).readAll v asked).size =
      (asked.toFinset.filter fun token => token ∉ blocklist ∧ (v.read? token).isSome = true).card := by
  have sound : ((ofBlocklist blocklist).readAll v asked).Sound blocklist v :=
    readAll_sound ofBlocklist_sound asked
  have known : ∀ token, ((ofBlocklist blocklist).readAll v asked).Knows token ↔
      token ∈ blocklist ∨ token ∈ asked := fun token => by
    rw [knows_readAll_iff, knows_ofBlocklist_iff]
  refine ⟨fun token => read_fst sound, fun token => ?_, fun token u => ?_, ?_, ?_⟩
  · change token ∈ ((ofBlocklist blocklist).readAll v asked).refused ↔ _
    rw [refused_iff sound, known]
    by_cases blocked : token ∈ blocklist <;> simp [answer?, blocked]
  · rw [accepted_iff sound, known]
    by_cases blocked : token ∈ blocklist <;> simp [answer?, blocked]
  · rintro token ⟨accepted, refused⟩
    have meaning := ((mem_accepted_iff sound).mp accepted).2
    rw [((refused_iff sound).mp refused).2] at meaning
    cases meaning
  · rw [size_eq_card]
    congr 1
    ext token
    rw [List.mem_toFinset, Std.TreeMap.mem_keys, mem_accepted_iff sound, known, Finset.mem_filter, List.mem_toFinset]
    by_cases blocked : token ∈ blocklist <;> simp [answer?, blocked]

end Memo

end UtilityCss
