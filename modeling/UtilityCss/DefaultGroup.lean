import UtilityCss.Theme

/-!
# Default groups

Custom properties that some utilities expect on every element. A group is declared in the header of a
sheet once a utility needs it.
-/

namespace UtilityCss

inductive DefaultGroup
  | backdropFilter
  | filter
  | fontVariantNumeric
  | gradientColorStops
  | ringWidth
  | scrollSnapType
  | touchAction
  | transform
  deriving DecidableEq, Repr

namespace DefaultGroup

def all : List DefaultGroup :=
  [backdropFilter, filter, fontVariantNumeric, gradientColorStops, ringWidth, scrollSnapType, touchAction,
    transform]

theorem mem_all (g : DefaultGroup) : g ∈ all := by
  cases g <;> decide

def name : DefaultGroup → String
  | backdropFilter => "backdrop-filter"
  | filter => "filter"
  | fontVariantNumeric => "font-variant-numeric"
  | gradientColorStops => "gradient-color-stops"
  | ringWidth => "ring-width"
  | scrollSnapType => "scroll-snap-type"
  | touchAction => "touch-action"
  | transform => "transform"

def ofName? (name : String) : Option DefaultGroup :=
  all.find? (·.name = name)

/-- Properties that hold a space, so that they are valid and say nothing. -/
def blank (properties : List String) : List Declaration :=
  properties.map (⟨·, " "⟩)

/-- The text of a category's `DEFAULT` value. -/
def themeDefault (theme : Theme) (category fallback : String) : String :=
  ((theme.value? category "DEFAULT").map Value.primary).getD fallback

/-- The colour of a ring that names none: the theme's with its opacity. -/
def ringColor (theme : Theme) : String :=
  let opacity := themeDefault theme "ringOpacity" "0.5"
  Color.withAlphaOr (themeDefault theme "ringColor" "") opacity ("rgb(147 197 253 / " ++ opacity ++ ")")

def declarations (theme : Theme) : DefaultGroup → List Declaration
  | transform =>
    [⟨"--tw-translate-x", "0"⟩, ⟨"--tw-translate-y", "0"⟩, ⟨"--tw-rotate", "0"⟩, ⟨"--tw-skew-x", "0"⟩,
      ⟨"--tw-skew-y", "0"⟩, ⟨"--tw-scale-x", "1"⟩, ⟨"--tw-scale-y", "1"⟩]
  | gradientColorStops => blank ["--tw-gradient-from", "--tw-gradient-stops", "--tw-gradient-to"]
  | touchAction => blank ["--tw-pan-x", "--tw-pan-y", "--tw-pinch-zoom"]
  | scrollSnapType => [⟨"--tw-scroll-snap-strictness", "proximity"⟩]
  | fontVariantNumeric =>
    blank ["--tw-ordinal", "--tw-slashed-zero", "--tw-numeric-figure", "--tw-numeric-spacing",
      "--tw-numeric-fraction"]
  | ringWidth =>
    [⟨"--tw-ring-inset", " "⟩,
      ⟨"--tw-ring-offset-width", themeDefault theme "ringOffsetWidth" "0px"⟩,
      ⟨"--tw-ring-offset-color", themeDefault theme "ringOffsetColor" "#fff"⟩,
      ⟨"--tw-ring-color", ringColor theme⟩,
      ⟨"--tw-ring-offset-shadow", "0 0 #0000"⟩,
      ⟨"--tw-ring-shadow", "0 0 #0000"⟩]
  | filter =>
    blank ["--tw-blur", "--tw-brightness", "--tw-contrast", "--tw-grayscale", "--tw-hue-rotate",
      "--tw-invert", "--tw-saturate", "--tw-sepia", "--tw-drop-shadow"]
  | backdropFilter =>
    blank ["--tw-backdrop-blur", "--tw-backdrop-brightness", "--tw-backdrop-contrast",
      "--tw-backdrop-grayscale", "--tw-backdrop-hue-rotate", "--tw-backdrop-invert",
      "--tw-backdrop-opacity", "--tw-backdrop-saturate", "--tw-backdrop-sepia"]

end DefaultGroup

abbrev DefaultGroups := List DefaultGroup

namespace DefaultGroups

/-- Adds the groups that are not there yet. -/
def add (used new : DefaultGroups) : DefaultGroups :=
  used ++ (new.filter (!used.contains ·)).eraseDups

theorem mem_add {used new : DefaultGroups} {g : DefaultGroup} : g ∈ used.add new ↔ g ∈ used ∨ g ∈ new := by
  simp only [add, List.mem_append, List.mem_eraseDups, List.mem_filter, List.contains_eq_mem,
    Bool.not_eq_true', decide_eq_false_iff_not]
  by_cases h : g ∈ used <;> simp [h]

def sorted (used : DefaultGroups) : List DefaultGroup :=
  DefaultGroup.all.filter used.contains

theorem mem_sorted {used : DefaultGroups} {g : DefaultGroup} : g ∈ used.sorted ↔ g ∈ used := by
  simp [sorted, DefaultGroup.mem_all]

end DefaultGroups

end UtilityCss
