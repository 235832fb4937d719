import UtilityCss.Theme.Base
import UtilityCss.Theme.Config

/-!
# Derived categories

The categories of the base theme that are computed from colours, spacing, opacity, filters and screens.
-/

namespace UtilityCss.Base

/-- Categories put together, the later ones behind the earlier ones. -/
def joined (parts : List Category) : Category :=
  parts.foldl Table.extend ∅

def full : Category :=
  .ofTexts [("full", "100%")]

def auto : Category :=
  .ofTexts [("auto", "auto")]

def intrinsic : Category :=
  .ofTexts [("min", "min-content"), ("max", "max-content"), ("fit", "fit-content")]

def screenOf (length : String) : Category :=
  .ofTexts [("screen", length)]

def shares (denominators : List Nat) : Category :=
  .ofTexts (fractions denominators)

/-! ### Colours -/

def accentColor : Derivation := fun view => do
  return joined [← view.category "colors", auto]

/-- The colours, with a light gray where a border names none. -/
def borderColor : Derivation := fun view => do
  let colors ← view.category "colors"
  return colors.insert "DEFAULT" ((colors.get? "gray-200").getD (.plain "currentColor"))

def paint : Derivation := fun view => do
  return joined [.ofTexts [("none", "none")], ← view.category "colors"]

/-- The colours behind a blue where a ring names none. -/
def ringColor : Derivation := fun view => do
  let colors ← view.category "colors"
  return joined [.ofList [("DEFAULT", (colors.get? "blue-500").getD (.plain "#3b82f6"))], colors]

def ringOpacity : Derivation := fun view => do
  return joined [.ofTexts [("DEFAULT", "0.5")], ← view.category "opacity"]

/-! ### Sizes -/

def flexBasis : Derivation := fun view => do
  return joined [auto, ← view.category "spacing", shares [2, 3, 4, 5, 6, 12], full]

def height : Derivation := fun view => do
  return joined [auto, ← view.category "spacing", shares [2, 3, 4, 5, 6], full, screenOf "100vh", intrinsic]

def inset : Derivation := fun view => do
  return joined [auto, ← view.category "spacing", shares [2, 3, 4], full]

def margin : Derivation := fun view => do
  return joined [auto, ← view.category "spacing"]

def maxHeight : Derivation := fun view => do
  return joined
    [← view.category "spacing", .ofTexts [("none", "none")], full, screenOf "100vh", intrinsic]

/-- Widths of text and content, and the widths of the screens. -/
def maxWidth : Derivation := fun view =>
  return joined
    [.ofTexts
      [("none", "none"), ("0", "0rem"), ("xs", "20rem"), ("sm", "24rem"), ("md", "28rem"),
       ("lg", "32rem"), ("xl", "36rem"), ("2xl", "42rem"), ("3xl", "48rem"), ("4xl", "56rem"),
       ("5xl", "64rem"), ("6xl", "72rem"), ("7xl", "80rem")],
     full, intrinsic, .ofTexts [("prose", "65ch")],
     .ofTexts (view.screens.toList.filterMap fun (name, screen) =>
      (screen.min.or screen.max).map ("screen-" ++ name, ·))]

def size : Derivation := fun view => do
  return joined [auto, ← view.category "spacing", shares [2, 3, 4, 5, 6, 12], full, intrinsic]

def translate : Derivation := fun view => do
  return joined [← view.category "spacing", shares [2, 3, 4], full]

def width : Derivation := fun view => do
  return joined
    [auto, ← view.category "spacing", shares [2, 3, 4, 5, 6, 12], full, screenOf "100vw", intrinsic]

/-- The derived categories in the order in which they are computed. -/
def derived : List (String × Derivation) :=
  [("accentColor", accentColor),
   ("backdropBlur", (·.category "blur")),
   ("backdropBrightness", (·.category "brightness")),
   ("backdropContrast", (·.category "contrast")),
   ("backdropGrayscale", (·.category "grayscale")),
   ("backdropHueRotate", (·.category "hueRotate")),
   ("backdropInvert", (·.category "invert")),
   ("backdropOpacity", (·.category "opacity")),
   ("backdropSaturate", (·.category "saturate")),
   ("backdropSepia", (·.category "sepia")),
   ("backgroundColor", (·.category "colors")),
   ("backgroundOpacity", (·.category "opacity")),
   ("borderColor", borderColor),
   ("borderOpacity", (·.category "opacity")),
   ("boxShadowColor", (·.category "colors")),
   ("caretColor", (·.category "colors")),
   ("divideColor", borderColor),
   ("divideOpacity", (·.category "opacity")),
   ("divideWidth", (·.category "borderWidth")),
   ("fill", paint),
   ("flexBasis", flexBasis),
   ("gap", (·.category "spacing")),
   ("gradientColorStops", (·.category "colors")),
   ("height", height),
   ("inset", inset),
   ("margin", margin),
   ("maxHeight", maxHeight),
   ("maxWidth", maxWidth),
   ("outlineColor", (·.category "colors")),
   ("padding", (·.category "spacing")),
   ("placeholderColor", (·.category "colors")),
   ("placeholderOpacity", (·.category "opacity")),
   ("ringColor", ringColor),
   ("ringOffsetColor", (·.category "colors")),
   ("ringOpacity", ringOpacity),
   ("scrollMargin", (·.category "spacing")),
   ("scrollPadding", (·.category "spacing")),
   ("size", size),
   ("space", (·.category "spacing")),
   ("stroke", paint),
   ("textColor", (·.category "colors")),
   ("textDecorationColor", (·.category "colors")),
   ("textIndent", (·.category "spacing")),
   ("textOpacity", (·.category "opacity")),
   ("translate", translate),
   ("width", width)]

end UtilityCss.Base
