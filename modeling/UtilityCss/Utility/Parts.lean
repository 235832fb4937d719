import UtilityCss.Text.Cut

/-!
# Parts of a token

A token is cut at the colons outside brackets into its variants and what stands behind them. An important
mark ends the variants.
-/

namespace UtilityCss

/-- The variants of a token as they are written, whether it is marked important, and the rest. -/
structure TokenParts where
  variants : List (List Char)
  important : Bool
  body : List Char
  deriving DecidableEq, Repr

namespace TokenParts

/-- The bracket depth behind a character. A closing bracket without an opening one does not count. -/
def depthAfter (depth : Nat) (c : Char) : Nat :=
  if c = '[' then depth + 1 else if c = ']' then depth - 1 else depth

/-- The text before the first colon outside brackets and the text behind it, for a text that starts at a
bracket depth. -/
def cutVariant? (depth : Nat) : List Char → Option (List Char × List Char)
  | [] => none
  | c :: cs =>
    if c = ':' ∧ depth = 0 then some ([], cs)
    else (cutVariant? (depthAfter depth c) cs).map fun halves => (c :: halves.1, halves.2)

/-- The halves and the colon make up the text. -/
theorem eq_of_cutVariant? {depth : Nat} {cs a b : List Char} (h : cutVariant? depth cs = some (a, b)) :
    cs = a ++ ':' :: b := by
  induction cs generalizing depth a b with
  | nil => simp [cutVariant?] at h
  | cons c cs ih =>
    unfold cutVariant? at h
    split at h
    · rename_i hc
      simp only [Option.some.injEq, Prod.mk.injEq] at h
      simp [← h.1, ← h.2, hc.1]
    · obtain ⟨halves, hh, he⟩ := Option.map_eq_some_iff.1 h
      simp only [Prod.mk.injEq] at he
      rw [← he.1, ← he.2, List.cons_append, ← ih (a := halves.1) (b := halves.2) hh]

def ofToken (cs : List Char) : TokenParts :=
  match cs with
  | '!' :: rest => ⟨[], true, rest⟩
  | cs =>
    match _h : cutVariant? 0 cs with
    | some (variant, rest) =>
      let parts := ofToken rest
      { parts with variants := variant :: parts.variants }
    | none => ⟨[], false, cs⟩
termination_by cs.length
decreasing_by
  rw [eq_of_cutVariant? _h]
  simp only [List.length_append, List.length_cons]
  omega

variable {cs p t : List Char}

theorem ofToken_marked (cs : List Char) : ofToken ('!' :: cs) = ⟨[], true, cs⟩ := by
  rw [ofToken]

theorem ofToken_cut (unmarked : cs.head? ≠ some '!') (cut : cutVariant? 0 cs = some (p, t)) :
    ofToken cs = { ofToken t with variants := p :: (ofToken t).variants } := by
  rw [ofToken]
  · split
    · rename_i variant rest found
      obtain ⟨rfl, rfl⟩ := Prod.mk.inj (Option.some.inj (found.symm.trans cut))
      rfl
    · rename_i found
      rw [cut] at found
      cases found
  · rintro rest rfl
    exact unmarked rfl

theorem ofToken_uncut (unmarked : cs.head? ≠ some '!') (uncut : cutVariant? 0 cs = none) :
    ofToken cs = ⟨[], false, cs⟩ := by
  rw [ofToken]
  · split
    · rename_i found
      rw [uncut] at found
      cases found
    · rfl
  · rintro rest rfl
    exact unmarked rfl

end TokenParts

end UtilityCss
