import UtilityCss.Decimal.Places
import UtilityCss.Theme.Palette
import UtilityCss.Theme.Screen

/-!
# Base theme

The screens, and the categories whose values do not depend on other categories. A configuration may
replace each of them or add to it.
-/

namespace UtilityCss.Base

def spacing : List (String × String) :=
  [("px", "1px"), ("0", "0px"), ("0.5", "0.125rem"), ("1", "0.25rem"), ("1.5", "0.375rem"), ("2", "0.5rem"),
   ("2.5", "0.625rem"), ("3", "0.75rem"), ("3.5", "0.875rem"), ("4", "1rem"), ("5", "1.25rem"),
   ("6", "1.5rem"), ("7", "1.75rem"), ("8", "2rem"), ("9", "2.25rem"), ("10", "2.5rem"), ("11", "2.75rem"),
   ("12", "3rem"), ("14", "3.5rem"), ("16", "4rem"), ("20", "5rem"), ("24", "6rem"), ("28", "7rem"),
   ("32", "8rem"), ("36", "9rem"), ("40", "10rem"), ("44", "11rem"), ("48", "12rem"), ("52", "13rem"),
   ("56", "14rem"), ("60", "15rem"), ("64", "16rem"), ("72", "18rem"), ("80", "20rem"), ("96", "24rem")]

def fontSizes : List (String × String × String) :=
  [("xs", "0.75rem", "1rem"), ("sm", "0.875rem", "1.25rem"), ("base", "1rem", "1.5rem"),
   ("lg", "1.125rem", "1.75rem"), ("xl", "1.25rem", "1.75rem"), ("2xl", "1.5rem", "2rem"),
   ("3xl", "1.875rem", "2.25rem"), ("4xl", "2.25rem", "2.5rem"), ("5xl", "3rem", "1"),
   ("6xl", "3.75rem", "1"), ("7xl", "4.5rem", "1"), ("8xl", "6rem", "1"), ("9xl", "8rem", "1")]

def boxShadows : List (String × String × String) :=
  [("sm", "0 1px 2px 0 var(--tw-shadow-color)", "rgb(0 0 0 / 0.05)"),
   ("DEFAULT", "0 1px 3px 0 var(--tw-shadow-color), 0 1px 2px -1px var(--tw-shadow-color)", "rgb(0 0 0 / 0.1)"),
   ("md", "0 4px 6px -1px var(--tw-shadow-color), 0 2px 4px -2px var(--tw-shadow-color)", "rgb(0 0 0 / 0.1)"),
   ("lg", "0 10px 15px -3px var(--tw-shadow-color), 0 4px 6px -4px var(--tw-shadow-color)", "rgb(0 0 0 / 0.1)"),
   ("xl", "0 20px 25px -5px var(--tw-shadow-color), 0 8px 10px -6px var(--tw-shadow-color)", "rgb(0 0 0 / 0.1)"),
   ("2xl", "0 25px 50px -12px var(--tw-shadow-color)", "rgb(0 0 0 / 0.25)"),
   ("inner", "inset 0 2px 4px 0 var(--tw-shadow-color)", "rgb(0 0 0 / 0.05)")]

/-- The nine places of a box. -/
def positions : List (String × String) :=
  [("bottom", "bottom"), ("center", "center"), ("left", "left"), ("left-bottom", "left bottom"),
   ("left-top", "left top"), ("right", "right"), ("right-bottom", "right bottom"),
   ("right-top", "right top"), ("top", "top")]

def keyframes : List (String × String) :=
  [("spin", "to \x7b transform: rotate(360deg); \x7d"),
   ("ping", "75%, 100% \x7b transform: scale(2); opacity: 0; \x7d"),
   ("pulse", "50% \x7b opacity: .5; \x7d"),
   ("bounce", "0%, 100% \x7b transform: translateY(-25%); animation-timing-function: cubic-bezier(0.8,0,1,1); \x7d\n  50% \x7b transform: none; animation-timing-function: cubic-bezier(0,0,0.2,1); \x7d")]

def fontFamilies : List (String × String) :=
  [("sans", "ui-sans-serif, system-ui, sans-serif, \"Apple Color Emoji\", \"Segoe UI Emoji\", \"Segoe UI Symbol\", \"Noto Color Emoji\""),
   ("serif", "ui-serif, Georgia, Cambria, \"Times New Roman\", Times, serif"),
   ("mono", "ui-monospace, SFMono-Regular, Menlo, Monaco, Consolas, \"Liberation Mono\", \"Courier New\", monospace")]

/-! ### Scales -/

/-- The numbers from one to `max`, each under its own name. -/
def numbered (max : Nat) : List (String × String) :=
  (List.range' 1 max).map fun n => (toString n, toString n)

/-- A share of the whole in percent, with at most six decimals. -/
def percent (num den : Nat) : String :=
  String.ofList (Decimal.trimmed (num * 100) den 6) ++ "%"

/-- The proper fractions with the denominators given. -/
def fractions (denominators : List Nat) : List (String × String) :=
  denominators.flatMap fun den =>
    (List.range' 1 (den - 1)).map fun num => (toString num ++ "/" ++ toString den, percent num den)

def gridSpans (max : Nat) : Category :=
  .ofTexts ([("auto", "auto")] ++
    (List.range' 1 max).map (fun n =>
      ("span-" ++ toString n, "span " ++ toString n ++ " / span " ++ toString n)) ++
    [("span-full", "1 / -1")])

def gridLines (max : Nat) : Category :=
  .ofTexts (("auto", "auto") :: numbered max)

def gridTracksOf (max : Nat) : Category :=
  .ofTexts (("none", "none") :: (List.range' 1 max).map fun n =>
    (toString n, "repeat(" ++ toString n ++ ", minmax(0, 1fr))"))

/-- The sizes of a track that is not named. -/
def gridTracks : List (String × String) :=
  [("auto", "auto"), ("min", "min-content"), ("max", "max-content"), ("fr", "minmax(0, 1fr)")]

def times : List (String × String) :=
  ("0", "0s") :: [75, 100, 150, 200, 300, 500, 700, 1000].map fun n =>
    (toString n, toString n ++ "ms")

def offsets : List (String × String) :=
  [("0", "0px"), ("1", "1px"), ("2", "2px"), ("4", "4px"), ("8", "8px")]

def layers : List (String × String) :=
  [0, 10, 20, 30, 40, 50].map fun n => (toString n, toString n)

/-- Every fifth percent of a gradient. -/
def gradientPositions : List (String × String) :=
  (List.range 21).map fun step => (toString (step * 5) ++ "%", toString (step * 5) ++ "%")

def gradients : List (String × String) :=
  ("none", "none") ::
    [("t", "top"), ("tr", "top right"), ("r", "right"), ("br", "bottom right"), ("b", "bottom"),
      ("bl", "bottom left"), ("l", "left"), ("tl", "top left")].map fun (key, direction) =>
      ("gradient-to-" ++ key, "linear-gradient(to " ++ direction ++ ", var(--tw-gradient-stops))")

def columns : Category :=
  .ofTexts ([("auto", "auto")] ++ numbered 12 ++
    [("3xs", "16rem"), ("2xs", "18rem"), ("xs", "20rem"), ("sm", "24rem"), ("md", "28rem"),
      ("lg", "32rem"), ("xl", "36rem"), ("2xl", "42rem"), ("3xl", "48rem"), ("4xl", "56rem"),
      ("5xl", "64rem"), ("6xl", "72rem"), ("7xl", "80rem")])

def boxShadow : Category :=
  (Table.ofList (boxShadows.map fun (key, value, color) => (key, .shadow value color))).insert
    "none" (.plain "none")

def dropShadow : Category :=
  .ofList
    [("sm", .plain "0 1px 1px rgb(0 0 0 / 0.05)"),
     ("DEFAULT", .pair "0 1px 2px rgb(0 0 0 / 0.1)" "0 1px 1px rgb(0 0 0 / 0.06)"),
     ("md", .pair "0 4px 3px rgb(0 0 0 / 0.07)" "0 2px 2px rgb(0 0 0 / 0.06)"),
     ("lg", .pair "0 10px 8px rgb(0 0 0 / 0.04)" "0 4px 3px rgb(0 0 0 / 0.1)"),
     ("xl", .pair "0 20px 13px rgb(0 0 0 / 0.03)" "0 8px 5px rgb(0 0 0 / 0.08)"),
     ("2xl", .plain "0 25px 25px rgb(0 0 0 / 0.15)"),
     ("none", .plain "0 0 #0000")]

/-! ### Categories -/

/-- The categories that stand on their own, in order. -/
def categories : List (String × Category) :=
  [("colors", colors),
   ("columns", columns),
   ("spacing", .ofTexts spacing),
   ("animation", .ofTexts
      [("none", "none"), ("spin", "spin 1s linear infinite"),
     ("ping", "ping 1s cubic-bezier(0, 0, 0.2, 1) infinite"),
     ("pulse", "pulse 2s cubic-bezier(0.4, 0, 0.6, 1) infinite"), ("bounce", "bounce 1s infinite")]),
   ("aria", .ofTexts
      [("busy", "busy=\"true\""), ("checked", "checked=\"true\""), ("disabled", "disabled=\"true\""),
     ("expanded", "expanded=\"true\""), ("hidden", "hidden=\"true\""), ("pressed", "pressed=\"true\""),
     ("readonly", "readonly=\"true\""), ("required", "required=\"true\""),
     ("selected", "selected=\"true\"")]),
   ("aspectRatio", .ofTexts
      [("auto", "auto"), ("square", "1 / 1"), ("video", "16 / 9")]),
   ("backgroundImage", .ofTexts gradients),
   ("backgroundPosition", .ofTexts positions),
   ("backgroundSize", .ofTexts
      [("auto", "auto"), ("cover", "cover"), ("contain", "contain")]),
   ("blur", .ofTexts
      [("0", "0"), ("none", "0"), ("sm", "4px"), ("DEFAULT", "8px"), ("md", "12px"), ("lg", "16px"),
     ("xl", "24px"), ("2xl", "40px"), ("3xl", "64px")]),
   ("borderRadius", .ofTexts
      [("none", "0px"), ("sm", "0.125rem"), ("DEFAULT", "0.25rem"), ("md", "0.375rem"), ("lg", "0.5rem"),
     ("xl", "0.75rem"), ("2xl", "1rem"), ("3xl", "1.5rem"), ("full", "9999px")]),
   ("borderWidth", .ofTexts
      [("DEFAULT", "1px"), ("0", "0px"), ("2", "2px"), ("4", "4px"), ("8", "8px")]),
   ("boxShadow", boxShadow),
   ("brightness", .ofTexts
      [("0", "0"), ("50", ".5"), ("75", ".75"), ("90", ".9"), ("95", ".95"), ("100", "1"), ("105", "1.05"),
     ("110", "1.1"), ("125", "1.25"), ("150", "1.5"), ("200", "2")]),
   ("content", .ofTexts
      [("none", "none")]),
   ("contrast", .ofTexts
      [("0", "0"), ("50", ".5"), ("75", ".75"), ("100", "1"), ("125", "1.25"), ("150", "1.5"), ("200", "2")]),
   ("data", ∅),
   ("dropShadow", dropShadow),
   ("flex", .ofTexts
      [("1", "1 1 0%"), ("auto", "1 1 auto"), ("initial", "0 1 auto"), ("none", "none")]),
   ("flexGrow", .ofTexts
      [("0", "0"), ("DEFAULT", "1")]),
   ("flexShrink", .ofTexts
      [("0", "0"), ("DEFAULT", "1")]),
   ("fontFamily", .ofTexts fontFamilies),
   ("fontSize", .ofList (fontSizes.map fun (key, size, lineHeight) => (key, .pair size lineHeight))),
   ("fontWeight", .ofTexts
      [("thin", "100"), ("extralight", "200"), ("light", "300"), ("normal", "400"), ("medium", "500"),
     ("semibold", "600"), ("bold", "700"), ("extrabold", "800"), ("black", "900")]),
   ("gradientColorStopPositions", .ofTexts gradientPositions),
   ("grayscale", .ofTexts
      [("0", "0"), ("DEFAULT", "100%")]),
   ("gridAutoColumns", .ofTexts gridTracks),
   ("gridAutoRows", .ofTexts gridTracks),
   ("gridColumn", gridSpans 12),
   ("gridColumnEnd", gridLines 13),
   ("gridColumnStart", gridLines 13),
   ("gridRow", gridSpans 6),
   ("gridRowEnd", gridLines 7),
   ("gridRowStart", gridLines 7),
   ("gridTemplateColumns", gridTracksOf 12),
   ("gridTemplateRows", gridTracksOf 6),
   ("hueRotate", .ofTexts
      [("0", "0deg"), ("15", "15deg"), ("30", "30deg"), ("60", "60deg"), ("90", "90deg"), ("180", "180deg")]),
   ("invert", .ofTexts
      [("0", "0"), ("DEFAULT", "100%")]),
   ("keyframes", .ofTexts keyframes),
   ("letterSpacing", .ofTexts
      [("tighter", "-0.05em"), ("tight", "-0.025em"), ("normal", "0em"), ("wide", "0.025em"),
     ("wider", "0.05em"), ("widest", "0.1em")]),
   ("lineClamp", .ofTexts (numbered 6)),
   ("lineHeight", .ofTexts
      [("none", "1"), ("tight", "1.25"), ("snug", "1.375"), ("normal", "1.5"), ("relaxed", "1.625"),
     ("loose", "2"), ("3", ".75rem"), ("4", "1rem"), ("5", "1.25rem"), ("6", "1.5rem"), ("7", "1.75rem"),
     ("8", "2rem"), ("9", "2.25rem"), ("10", "2.5rem")]),
   ("listStyleType", .ofTexts
      [("none", "none"), ("disc", "disc"), ("decimal", "decimal")]),
   ("listStyleImage", .ofTexts
      [("none", "none")]),
   ("minHeight", .ofTexts
      [("0", "0px"), ("full", "100%"), ("screen", "100vh"), ("min", "min-content"), ("max", "max-content"),
     ("fit", "fit-content")]),
   ("minWidth", .ofTexts
      [("0", "0px"), ("full", "100%"), ("min", "min-content"), ("max", "max-content"), ("fit", "fit-content")]),
   ("objectPosition", .ofTexts positions),
   ("opacity", .ofTexts
      [("0", "0"), ("5", "0.05"), ("10", "0.1"), ("15", "0.15"), ("20", "0.2"), ("25", "0.25"), ("30", "0.3"),
     ("35", "0.35"), ("40", "0.4"), ("45", "0.45"), ("50", "0.5"), ("55", "0.55"), ("60", "0.6"),
     ("65", "0.65"), ("70", "0.7"), ("75", "0.75"), ("80", "0.8"), ("85", "0.85"), ("90", "0.9"),
     ("95", "0.95"), ("100", "1")]),
   ("order", .ofTexts ([("first", "-9999"), ("last", "9999"), ("none", "0")] ++ numbered 12)),
   ("outlineOffset", .ofTexts offsets),
   ("outlineWidth", .ofTexts offsets),
   ("ringOffsetWidth", .ofTexts offsets),
   ("ringWidth", .ofTexts (("DEFAULT", "3px") :: offsets)),
   ("rotate", .ofTexts
      [("0", "0deg"), ("1", "1deg"), ("2", "2deg"), ("3", "3deg"), ("6", "6deg"), ("12", "12deg"),
     ("45", "45deg"), ("90", "90deg"), ("180", "180deg")]),
   ("saturate", .ofTexts
      [("0", "0"), ("50", ".5"), ("100", "1"), ("150", "1.5"), ("200", "2")]),
   ("scale", .ofTexts
      [("0", "0"), ("50", ".5"), ("75", ".75"), ("90", ".9"), ("95", ".95"), ("100", "1"), ("105", "1.05"),
     ("110", "1.1"), ("125", "1.25"), ("150", "1.5")]),
   ("sepia", .ofTexts
      [("0", "0"), ("DEFAULT", "100%")]),
   ("skew", .ofTexts
      [("0", "0deg"), ("1", "1deg"), ("2", "2deg"), ("3", "3deg"), ("6", "6deg"), ("12", "12deg")]),
   ("strokeWidth", .ofTexts
      [("0", "0"), ("1", "1"), ("2", "2")]),
   ("supports", ∅),
   ("textDecorationThickness", .ofTexts ([("auto", "auto"), ("from-font", "from-font")] ++ offsets)),
   ("textUnderlineOffset", .ofTexts (("auto", "auto") :: offsets)),
   ("transformOrigin", .ofTexts
      [("center", "center"), ("top", "top"), ("top-right", "top right"), ("right", "right"),
     ("bottom-right", "bottom right"), ("bottom", "bottom"), ("bottom-left", "bottom left"),
     ("left", "left"), ("top-left", "top left")]),
   ("transitionDelay", .ofTexts times),
   ("transitionDuration", .ofTexts (("DEFAULT", "150ms") :: times)),
   ("transitionProperty", .ofTexts
      [("none", "none"), ("all", "all"),
     ("DEFAULT", "color, background-color, border-color, text-decoration-color, fill, stroke, opacity, box-shadow, transform, filter, backdrop-filter"),
     ("colors", "color, background-color, border-color, text-decoration-color, fill, stroke"),
     ("opacity", "opacity"), ("shadow", "box-shadow"), ("transform", "transform")]),
   ("transitionTimingFunction", .ofTexts
      [("DEFAULT", "cubic-bezier(0.4, 0, 0.2, 1)"), ("linear", "linear"),
     ("in", "cubic-bezier(0.4, 0, 1, 1)"), ("out", "cubic-bezier(0, 0, 0.2, 1)"),
     ("in-out", "cubic-bezier(0.4, 0, 0.2, 1)")]),
   ("verticalAlign", .ofTexts
      [("baseline", "baseline"), ("top", "top"), ("middle", "middle"), ("bottom", "bottom"),
     ("text-top", "text-top"), ("text-bottom", "text-bottom"), ("sub", "sub"), ("super", "super")]),
   ("willChange", .ofTexts
      [("auto", "auto"), ("scroll", "scroll-position"), ("contents", "contents"), ("transform", "transform")]),
   ("zIndex", .ofTexts (layers ++ [("auto", "auto")]))]

/-- The categories that stand on their own, by name. -/
def plain : Table Category :=
  .ofList categories

def screens : Screens :=
  .ofList ([("sm", "640px"), ("md", "768px"), ("lg", "1024px"), ("xl", "1280px"), ("2xl", "1536px")].map
    fun (name, min) => (name, ⟨some min, none⟩))

end UtilityCss.Base
