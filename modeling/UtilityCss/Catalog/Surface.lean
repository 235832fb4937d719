import UtilityCss.Catalog.Family

/-!
# Surface families

Borders, backgrounds, gradients, strokes and replaced content.
-/

namespace UtilityCss.Catalog

def corners : String → List String
  | "t" => ["border-top-left-radius", "border-top-right-radius"]
  | "r" => ["border-top-right-radius", "border-bottom-right-radius"]
  | "b" => ["border-bottom-right-radius", "border-bottom-left-radius"]
  | "l" => ["border-top-left-radius", "border-bottom-left-radius"]
  | "tr" => ["border-top-right-radius"]
  | "br" => ["border-bottom-right-radius"]
  | "bl" => ["border-bottom-left-radius"]
  | "tl" => ["border-top-left-radius"]
  | _ => ["border-radius"]

/-- The colour that a gradient fades to: the same without opacity, or a clear white. -/
def transparentTo (value : String) : String :=
  Color.withAlphaOr value "0" "rgb(255 255 255 / 0)"

def gradientStop (t : String → Category) (stem : String) (declare : String → List Declaration) : Rule :=
  (Rule.keyed stem (t "gradientColorStops") fun value => declare value.primary).withBrackets .colorOnly
    |>.withModifier (.alpha (t "opacity")) |>.withGroup .gradientColorStops

def fromStop (value : String) : List Declaration :=
  [⟨"--tw-gradient-from", value ++ " var(--tw-gradient-from-position)"⟩,
    ⟨"--tw-gradient-to", transparentTo value ++ " var(--tw-gradient-to-position)"⟩,
    ⟨"--tw-gradient-stops", "var(--tw-gradient-from), var(--tw-gradient-to)"⟩]

def viaStop (value : String) : List Declaration :=
  [⟨"--tw-gradient-to", transparentTo value ++ " var(--tw-gradient-to-position)"⟩,
    ⟨"--tw-gradient-stops",
      "var(--tw-gradient-from), " ++ value ++ " var(--tw-gradient-via-position), var(--tw-gradient-to)"⟩]

def toStop (value : String) : List Declaration :=
  [⟨"--tw-gradient-to", value ++ " var(--tw-gradient-to-position)"⟩]

def borderColors (t : String → Category) (borderOpacity : Bool) : Rule :=
  alphaIf borderOpacity (t "borderOpacity")
    ((Rule.directed "border" sideDirections (t "borderColor") fun direction value =>
      Color.declarations value "--tw-border-opacity" borderOpacity
        ((sides direction).map fun side => "border" ++ side ++ "-color")).withFilterDefault.withBrackets
      .colorOnly)

def surface (t : String → Category) (borderOpacity backgroundOpacity : Bool) : List Family :=
  [⟨"borderRadius",
    [.directed "rounded" ["t", "r", "l", "b", "tr", "br", "bl", "tl"] (t "borderRadius")
      fun direction value => (corners direction).map (⟨·, value⟩)]⟩,
   ⟨"borderWidth",
    [.directed "border" sideDirections (t "borderWidth") fun direction value =>
      (sides direction).map fun side => ⟨"border" ++ side ++ "-width", value⟩]⟩,
   ⟨"borderStyle",
    keywords "border-" "border-style" ["solid", "dashed", "dotted", "double", "hidden", "none"]⟩,
   ⟨"borderColor", [borderColors t borderOpacity]⟩,
   ⟨"borderOpacity", [property "border-opacity" (t "borderOpacity") "--tw-border-opacity"]⟩,
   ⟨"backgroundColor",
    [alphaIf backgroundOpacity (t "backgroundOpacity")
      ((alphaColor "bg" (t "backgroundColor") "--tw-bg-opacity" "background-color"
        backgroundOpacity).withBrackets .colorOnly)]⟩,
   ⟨"backgroundOpacity", [property "bg-opacity" (t "backgroundOpacity") "--tw-bg-opacity"]⟩,
   ⟨"backgroundImage",
    [(property "bg" (t "backgroundImage") "background-image").withBrackets .refused]⟩,
   ⟨"gradientColorStops",
    [gradientStop t "from" fromStop,
      property "from" (t "gradientColorStopPositions") "--tw-gradient-from-position",
      gradientStop t "via" viaStop,
      property "via" (t "gradientColorStopPositions") "--tw-gradient-via-position",
      gradientStop t "to" toStop,
      property "to" (t "gradientColorStopPositions") "--tw-gradient-to-position"]⟩,
   ⟨"boxDecorationBreak", keywords "box-decoration-" "box-decoration-break" ["slice", "clone"]⟩,
   ⟨"backgroundSize", [property "bg" (t "backgroundSize") "background-size"]⟩,
   ⟨"backgroundAttachment", keywords "bg-" "background-attachment" ["fixed", "local", "scroll"]⟩,
   ⟨"backgroundClip", keywords "bg-clip-" "background-clip" ["border", "padding", "content", "text"]⟩,
   ⟨"backgroundPosition",
    [(property "bg" (t "backgroundPosition") "background-position").withBrackets .refused]⟩,
   ⟨"backgroundRepeat",
    keywords "bg-" "background-repeat" ["repeat", "no-repeat", "repeat-x", "repeat-y"] ++
      keywords "bg-repeat-" "background-repeat" ["round", "space"]⟩,
   ⟨"backgroundOrigin",
    keywordsWith "bg-origin-" "background-origin" (· ++ "-box") ["border", "padding", "content"]⟩,
   ⟨"fill", [(property "fill" (t "fill") "fill").withModifier (.alpha (t "opacity"))]⟩,
   ⟨"stroke",
    [((property "stroke" (t "stroke") "stroke").withBrackets .colorOnly).withModifier
      (.alpha (t "opacity"))]⟩,
   ⟨"strokeWidth", [property "stroke" (t "strokeWidth") "stroke-width"]⟩,
   ⟨"objectFit",
    keywords "object-" "object-fit" ["contain", "cover", "fill", "none", "scale-down"]⟩,
   ⟨"objectPosition", [property "object" (t "objectPosition") "object-position"]⟩]

end UtilityCss.Catalog
