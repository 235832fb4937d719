import UtilityCss.Utility
import UtilityCss.Variant.Table

/-!
# Cascades

The utilities that a sheet holds, nested by the conditions of their at-rules. A cascade only grows: an
insertion walks down the conditions of a utility, opens those that are missing and moves those that are
there to the earliest rank asked for.
-/

namespace UtilityCss

/-- The utilities under one condition. A group that is there for a screen of the theme names it. -/
structure CascadeGroup (γ : Type) where
  screen : Option String
  rank : Rank
  condition : String
  content : γ

/-- Utilities, and groups of utilities under conditions. -/
inductive Cascade
  | node (utilities : List Utility) (groups : List (CascadeGroup Cascade))

namespace Cascade

def empty : Cascade :=
  node [] []

def utilities : Cascade → List Utility
  | node utilities _ => utilities

def groups : Cascade → List (CascadeGroup Cascade)
  | node _ groups => groups

/-- A cascade with one empty group for each screen that has a variant. -/
def withScreens (screens : Screens) (variants : VariantTable) : Cascade :=
  node [] (screens.keys.filterMap fun name => do
    let wrapping ← (← variants.get? name).wrapping?
    return ⟨some name, wrapping.rank, wrapping.condition, empty⟩)

/-- Changes the group under a condition, or a new one behind the others. -/
def updateGroup (w : Wrapping) (change : Cascade → Cascade) :
    List (CascadeGroup Cascade) → List (CascadeGroup Cascade)
  | [] => [⟨none, w.rank, w.condition, change empty⟩]
  | g :: gs =>
    if g.condition = w.condition then
      { g with rank := g.rank.min w.rank, content := change g.content } :: gs
    else g :: updateGroup w change gs

def insertUnder (u : Utility) : List Wrapping → Cascade → Cascade
  | [], node utilities groups => node (u :: utilities) groups
  | w :: ws, node utilities groups => node utilities (updateGroup w (insertUnder u ws) groups)

def insert (c : Cascade) (u : Utility) : Cascade :=
  insertUnder u u.wrappings c

mutual

/-- Whether no utility is held, under any condition. -/
def isEmpty : Cascade → Bool
  | node utilities groups => utilities.isEmpty && groupsEmpty groups

def groupsEmpty : List (CascadeGroup Cascade) → Bool
  | [] => true
  | ⟨_, _, _, content⟩ :: groups => content.isEmpty && groupsEmpty groups

end

mutual

/-- Every utility with the conditions that it is held under, the outermost first. -/
def placed : Cascade → List (List String × Utility)
  | node utilities groups => utilities.map ([], ·) ++ placedInGroups groups

def placedInGroups : List (CascadeGroup Cascade) → List (List String × Utility)
  | [] => []
  | ⟨_, _, condition, content⟩ :: groups =>
    content.placed.map (fun p => (condition :: p.1, p.2)) ++ placedInGroups groups

end

end Cascade

end UtilityCss
