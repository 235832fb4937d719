import UtilityCss.Catalog.Family

/-!
# Effect families

Opacity, blending, shadows, outlines, rings, filters and transitions.
-/

namespace UtilityCss.Catalog

def blendModes : List String :=
  ["normal", "multiply", "screen", "overlay", "darken", "lighten", "color-dodge", "color-burn",
    "hard-light", "soft-light", "difference", "exclusion", "hue", "saturation", "color", "luminosity"]

/-- A shadow with its colour in a custom property, or a plain shadow. -/
def shadowDeclarations : Value → List Declaration
  | .shadow value color => [⟨"--tw-shadow-color", color⟩, ⟨"box-shadow", value⟩]
  | value => [⟨"box-shadow", value.primary⟩]

def ringDeclarations (width : String) : List Declaration :=
  [⟨"--tw-ring-offset-shadow",
      "var(--tw-ring-inset) 0 0 0 var(--tw-ring-offset-width) var(--tw-ring-offset-color)"⟩,
    ⟨"--tw-ring-shadow",
      "var(--tw-ring-inset) 0 0 0 calc(" ++ width ++ " + var(--tw-ring-offset-width)) var(--tw-ring-color)"⟩,
    ⟨"box-shadow", "var(--tw-ring-offset-shadow), var(--tw-ring-shadow)"⟩]

/-! ### Filters -/

def filterValue : String :=
  "var(--tw-blur) var(--tw-brightness) var(--tw-contrast) var(--tw-grayscale) var(--tw-hue-rotate) " ++
    "var(--tw-invert) var(--tw-saturate) var(--tw-sepia) var(--tw-drop-shadow)"

def backdropFilterValue : String :=
  "var(--tw-backdrop-blur) var(--tw-backdrop-brightness) var(--tw-backdrop-contrast) " ++
    "var(--tw-backdrop-grayscale) var(--tw-backdrop-hue-rotate) var(--tw-backdrop-invert) " ++
    "var(--tw-backdrop-opacity) var(--tw-backdrop-saturate) var(--tw-backdrop-sepia)"

/-- A call of a filter function, nothing for an empty argument. -/
def filterCall (function argument : String) : String :=
  if argument.isEmpty then "" else function ++ "(" ++ argument ++ ")"

/-- A filter, put into its custom property. -/
def filterRule (function : String) (values : Category) : Rule :=
  (Rule.keyed function values fun value =>
    [⟨"--tw-" ++ function, filterCall function value.primary⟩, ⟨"filter", filterValue⟩]).withGroup .filter

def backdropRule (function : String) (values : Category) : Rule :=
  (Rule.keyed ("backdrop-" ++ function) values fun value =>
    [⟨"--tw-backdrop-" ++ function, filterCall function value.primary⟩,
      ⟨"-webkit-backdrop-filter", backdropFilterValue⟩,
      ⟨"backdrop-filter", backdropFilterValue⟩]).withGroup .backdropFilter

/-- A shadow that follows the shape of an element, in one or more layers. -/
def dropShadow (value : Value) : String :=
  let layers := match value with
    | .pair first second => [first, second]
    | .list items => items
    | other => [other.primary]
  " ".intercalate (layers.map fun layer => "drop-shadow(" ++ layer ++ ")")

/-! ### Transitions -/

/-- A transition of some properties, with the timing and the duration that the theme names. -/
def transitionDeclarations (timing duration : Option String) (value : String) : List Declaration :=
  if value = "none" then [⟨"transition-property", value⟩]
  else
    ⟨"transition-property", value⟩ ::
      (timing.toList.map (⟨"transition-timing-function", ·⟩) ++
        duration.toList.map (⟨"transition-duration", ·⟩))

def effects (t : String → Category) (ringOpacity : Bool) : List Family :=
  let themeDefault (category : String) : Option String := ((t category).get? "DEFAULT").map Value.primary
  [⟨"opacity", [property "opacity" (t "opacity") "opacity"]⟩,
   ⟨"backgroundBlendMode", keywords "bg-blend-" "background-blend-mode" blendModes⟩,
   ⟨"mixBlendMode",
    keywords "mix-blend-" "mix-blend-mode" (blendModes ++ ["plus-darker", "plus-lighter"])⟩,
   ⟨"boxShadow", [.keyed "shadow" (t "boxShadow") shadowDeclarations]⟩,
   ⟨"boxShadowColor",
    [((property "shadow" (t "boxShadowColor") "--tw-shadow-color").withBrackets
      .colorOnly).withModifier (.alpha (t "opacity"))]⟩,
   ⟨"outlineStyle",
    statics
      [("outline-none", [("outline", "2px solid transparent"), ("outline-offset", "2px")]),
       ("outline", [("outline-style", "solid")])] ++
      keywords "outline-" "outline-style" ["dashed", "dotted", "double"]⟩,
   ⟨"outlineWidth", [property "outline" (t "outlineWidth") "outline-width"]⟩,
   ⟨"outlineOffset",
    [(property "outline-offset" (t "outlineOffset") "outline-offset").withNegative]⟩,
   ⟨"outlineColor",
    [((property "outline" (t "outlineColor") "outline-color").withBrackets .colorOnly).withModifier
      (.alpha (t "opacity"))]⟩,
   ⟨"ringWidth",
    [(Rule.keyed "ring" (t "ringWidth") fun value => ringDeclarations value.primary).withGroup .ringWidth,
      single "ring-inset" "--tw-ring-inset" "inset"]⟩,
   ⟨"ringColor",
    [alphaIf ringOpacity (t "ringOpacity")
      ((alphaColor "ring" (t "ringColor") "--tw-ring-opacity" "--tw-ring-color"
        ringOpacity).withFilterDefault.withBrackets .colorOnly)]⟩,
   ⟨"ringOpacity",
    [(property "ring-opacity" (t "ringOpacity") "--tw-ring-opacity").withFilterDefault]⟩,
   ⟨"ringOffsetWidth", [property "ring-offset" (t "ringOffsetWidth") "--tw-ring-offset-width"]⟩,
   ⟨"ringOffsetColor",
    [((property "ring-offset" (t "ringOffsetColor") "--tw-ring-offset-color").withBrackets
      .colorOnly).withModifier (.alpha (t "opacity"))]⟩,
   ⟨"blur", [filterRule "blur" (t "blur")]⟩,
   ⟨"brightness", [filterRule "brightness" (t "brightness")]⟩,
   ⟨"contrast", [filterRule "contrast" (t "contrast")]⟩,
   ⟨"dropShadow",
    [(Rule.keyed "drop-shadow" (t "dropShadow") fun value =>
      [⟨"--tw-drop-shadow", dropShadow value⟩, ⟨"filter", filterValue⟩]).withGroup .filter]⟩,
   ⟨"grayscale", [filterRule "grayscale" (t "grayscale")]⟩,
   ⟨"hueRotate", [filterRule "hue-rotate" (t "hueRotate")]⟩,
   ⟨"invert", [filterRule "invert" (t "invert")]⟩,
   ⟨"saturate", [filterRule "saturate" (t "saturate")]⟩,
   ⟨"sepia", [filterRule "sepia" (t "sepia")]⟩,
   ⟨"filter", [single "filter-none" "filter" "none"]⟩,
   ⟨"backdropBlur", [backdropRule "blur" (t "backdropBlur")]⟩,
   ⟨"backdropBrightness", [backdropRule "brightness" (t "backdropBrightness")]⟩,
   ⟨"backdropContrast", [backdropRule "contrast" (t "backdropContrast")]⟩,
   ⟨"backdropGrayscale", [backdropRule "grayscale" (t "backdropGrayscale")]⟩,
   ⟨"backdropHueRotate", [backdropRule "hue-rotate" (t "backdropHueRotate")]⟩,
   ⟨"backdropInvert", [backdropRule "invert" (t "backdropInvert")]⟩,
   ⟨"backdropOpacity", [backdropRule "opacity" (t "backdropOpacity")]⟩,
   ⟨"backdropSaturate", [backdropRule "saturate" (t "backdropSaturate")]⟩,
   ⟨"backdropSepia", [backdropRule "sepia" (t "backdropSepia")]⟩,
   ⟨"backdropFilter",
    [.fixed "backdrop-filter-none" [⟨"-webkit-backdrop-filter", "none"⟩, ⟨"backdrop-filter", "none"⟩]]⟩,
   ⟨"transitionProperty",
    [.keyed "transition" (t "transitionProperty") fun value =>
      transitionDeclarations (themeDefault "transitionTimingFunction") (themeDefault "transitionDuration")
        value.primary]⟩,
   ⟨"transitionDelay", [property "delay" (t "transitionDelay") "transition-delay"]⟩,
   ⟨"transitionDuration",
    [(property "duration" (t "transitionDuration") "transition-duration").withFilterDefault]⟩,
   ⟨"transitionTimingFunction",
    [(property "ease" (t "transitionTimingFunction") "transition-timing-function").withFilterDefault]⟩,
   ⟨"willChange", [property "will-change" (t "willChange") "will-change"]⟩,
   ⟨"content", [property "content" (t "content") "content"]⟩,
   ⟨"forcedColorAdjust", keywords "forced-color-adjust-" "forced-color-adjust" ["auto", "none"]⟩]

end UtilityCss.Catalog
