import UtilityCss.Catalog.Family

/-!
# Typography families

Padding, text alignment, fonts, text colours and decoration.
-/

namespace UtilityCss.Catalog

/-- A font stack: the parts of its value with commas between them. -/
def fontStack : Value → String
  | .pair first second => first ++ ", " ++ second
  | .list items => ", ".intercalate items
  | value => value.primary

/-- A font size, with the line height that comes with it. -/
def fontSizeDeclarations : Value → List Declaration
  | .pair size lineHeight => [⟨"font-size", size⟩, ⟨"line-height", lineHeight⟩]
  | value => [⟨"font-size", value.primary⟩]

def numericValue : String :=
  "var(--tw-ordinal) var(--tw-slashed-zero) var(--tw-numeric-figure) var(--tw-numeric-spacing) " ++
    "var(--tw-numeric-fraction)"

def numericFigures : List (String × String) :=
  [("--tw-ordinal", "ordinal"), ("--tw-slashed-zero", "slashed-zero"),
    ("--tw-numeric-figure", "lining-nums"), ("--tw-numeric-figure", "oldstyle-nums"),
    ("--tw-numeric-spacing", "proportional-nums"), ("--tw-numeric-spacing", "tabular-nums"),
    ("--tw-numeric-fraction", "diagonal-fractions"), ("--tw-numeric-fraction", "stacked-fractions")]

def typography (t : String → Category) (textOpacity placeholderOpacity : Bool) : List Family :=
  [⟨"padding",
    [Rule.withOmitHyphen (.directed "p" sideDirections (t "padding") (onSides "padding"))]⟩,
   ⟨"textAlign", keywords "text-" "text-align" ["left", "center", "right", "justify"]⟩,
   ⟨"textIndent", [(property "indent" (t "textIndent") "text-indent").withNegative]⟩,
   ⟨"verticalAlign", [property "align" (t "verticalAlign") "vertical-align"]⟩,
   ⟨"fontFamily",
    [Rule.withBrackets (.keyed "font" (t "fontFamily") fun value => [⟨"font-family", fontStack value⟩])
      .refused]⟩,
   ⟨"fontSize", [Rule.withModifier (.keyed "text" (t "fontSize") fontSizeDeclarations) .lineHeight]⟩,
   ⟨"fontWeight", [property "font" (t "fontWeight") "font-weight"]⟩,
   ⟨"textTransform",
    keywordsWith "" "text-transform" (except [("normal-case", "none")])
      ["uppercase", "lowercase", "capitalize", "normal-case"]⟩,
   ⟨"fontStyle",
    [single "italic" "font-style" "italic", single "not-italic" "font-style" "normal"]⟩,
   ⟨"fontVariantNumeric",
    single "normal-nums" "font-variant-numeric" "normal" ::
      numericFigures.map fun (target, figure) =>
        Rule.withGroup (.fixed figure [⟨target, figure⟩, ⟨"font-variant-numeric", numericValue⟩])
          .fontVariantNumeric⟩,
   ⟨"lineHeight", [property "leading" (t "lineHeight") "line-height"]⟩,
   ⟨"letterSpacing", [(property "tracking" (t "letterSpacing") "letter-spacing").withNegative]⟩,
   ⟨"textColor",
    [alphaIf textOpacity (t "textOpacity")
      ((alphaColor "text" (t "textColor") "--tw-text-opacity" "color" textOpacity).withBrackets
        .colorOnly)]⟩,
   ⟨"textOpacity", [property "text-opacity" (t "textOpacity") "--tw-text-opacity"]⟩,
   ⟨"textDecoration",
    keywordsWith "" "text-decoration-line" (except [("no-underline", "none")])
      ["underline", "overline", "line-through", "no-underline"]⟩,
   ⟨"textDecorationColor",
    [((property "decoration" (t "textDecorationColor") "text-decoration-color").withBrackets
      .colorOnly).withModifier (.alpha (t "opacity"))]⟩,
   ⟨"textDecorationStyle",
    keywords "decoration-" "text-decoration-style" ["solid", "double", "dotted", "dashed", "wavy"]⟩,
   ⟨"textDecorationThickness",
    [property "decoration" (t "textDecorationThickness") "text-decoration-thickness"]⟩,
   ⟨"textUnderlineOffset",
    [property "underline-offset" (t "textUnderlineOffset") "text-underline-offset"]⟩,
   ⟨"fontSmoothing",
    statics
      [("antialiased",
        [("-webkit-font-smoothing", "antialiased"), ("-moz-osx-font-smoothing", "grayscale")]),
       ("subpixel-antialiased",
        [("-webkit-font-smoothing", "auto"), ("-moz-osx-font-smoothing", "auto")])]⟩,
   ⟨"placeholderColor",
    [alphaIf placeholderOpacity (t "placeholderOpacity")
      ((alphaColor "placeholder" (t "placeholderColor") "--tw-placeholder-opacity" "color"
        placeholderOpacity).withSelectorChange placeholderText)]⟩,
   ⟨"placeholderOpacity",
    [(property "placeholder-opacity" (t "placeholderOpacity") "--tw-placeholder-opacity").withSelectorChange
      placeholderText]⟩,
   ⟨"caretColor",
    [(property "caret" (t "caretColor") "caret-color").withModifier (.alpha (t "opacity"))]⟩,
   ⟨"accentColor",
    [(property "accent" (t "accentColor") "accent-color").withModifier (.alpha (t "opacity"))]⟩]

end UtilityCss.Catalog
