import UtilityCss.Catalog.Family

/-!
# Arrangement families

Lists, columns, grids, flexible boxes, the space between elements, and what overflows.
-/

namespace UtilityCss.Catalog

def breaks : List String :=
  ["auto", "avoid", "all", "avoid-page", "page", "left", "right", "column"]

def overflows : List String :=
  ["auto", "hidden", "clip", "visible", "scroll"]

def overscrolls : List String :=
  ["none", "contain", "auto"]

/-- Every hyphen as a space. -/
def unhyphenated (keyword : String) : String :=
  String.ofList (Text.exchange '-' ' ' keyword.toList)

/-- Space between the children of an element: the margin on one side of all but the first. -/
def spaceBetween (stem onX onY : String) (values : Category) : Rule :=
  let rule : Rule := .directed stem ["x", "y"] values fun direction value =>
    [⟨if direction = "x" then onX else onY, value⟩]
  rule.withNegative.withMandatory.withSelectorChange laterChildren

def arrangement (t : String → Category) (divideOpacity : Bool) : List Family :=
  [⟨"listStylePosition", keywords "list-" "list-style-position" ["inside", "outside"]⟩,
   ⟨"listStyleType", [property "list" (t "listStyleType") "list-style-type"]⟩,
   ⟨"listStyleImage", [property "list-image" (t "listStyleImage") "list-style-image"]⟩,
   ⟨"appearance", keywords "appearance-" "appearance" ["none", "auto"]⟩,
   ⟨"columns", [property "columns" (t "columns") "columns"]⟩,
   ⟨"breakBefore", keywords "break-before-" "break-before" breaks⟩,
   ⟨"breakInside",
    keywords "break-inside-" "break-inside" ["auto", "avoid", "avoid-page", "avoid-column"]⟩,
   ⟨"breakAfter", keywords "break-after-" "break-after" breaks⟩,
   ⟨"gridAutoColumns", [property "auto-cols" (t "gridAutoColumns") "grid-auto-columns"]⟩,
   ⟨"gridAutoFlow",
    keywordsWith "grid-flow-" "grid-auto-flow" unhyphenated ["row", "column", "row-dense", "column-dense"]⟩,
   ⟨"gridAutoRows", [property "auto-rows" (t "gridAutoRows") "grid-auto-rows"]⟩,
   ⟨"gridTemplateColumns", [property "grid-cols" (t "gridTemplateColumns") "grid-template-columns"]⟩,
   ⟨"gridTemplateRows", [property "grid-rows" (t "gridTemplateRows") "grid-template-rows"]⟩,
   ⟨"flexDirection",
    statics
      [("flex-row", [("flex-direction", "row")]),
       ("flex-row-reverse", [("display", "flex"), ("flex-direction", "row-reverse")]),
       ("flex-col", [("display", "flex"), ("flex-direction", "column")]),
       ("flex-col-reverse", [("display", "flex"), ("flex-direction", "column-reverse")])]⟩,
   ⟨"flexWrap",
    statics
      [("flex-wrap", [("display", "flex"), ("flex-wrap", "wrap")]),
       ("flex-wrap-reverse", [("display", "flex"), ("flex-wrap", "wrap-reverse")]),
       ("flex-nowrap", [("flex-wrap", "nowrap")])]⟩,
   ⟨"placeContent",
    keywordsWith "place-content-" "place-content" spaceKeyword
      ["center", "start", "end", "between", "around", "evenly", "baseline", "stretch"]⟩,
   ⟨"placeItems",
    keywords "place-items-" "place-items" ["start", "end", "center", "baseline", "stretch"]⟩,
   ⟨"alignContent",
    keywordsWith "content-" "align-content" (fun word => spaceKeyword (flexKeyword word))
      ["normal", "start", "end", "center", "between", "around", "evenly", "baseline", "stretch"]⟩,
   ⟨"alignItems",
    keywordsWith "items-" "align-items" flexKeyword ["start", "end", "center", "baseline", "stretch"]⟩,
   ⟨"justifyContent",
    keywordsWith "justify-" "justify-content" (fun word => spaceKeyword (flexKeyword word))
      ["normal", "start", "end", "center", "between", "around", "evenly", "stretch"]⟩,
   ⟨"justifyItems", keywords "justify-items-" "justify-items" ["start", "end", "center", "stretch"]⟩,
   ⟨"gap",
    [property "gap" (t "gap") "gap", property "gap-x" (t "gap") "column-gap",
      property "gap-y" (t "gap") "row-gap"]⟩,
   ⟨"space",
    [spaceBetween "space" "margin-left" "margin-top" (t "space"),
      spaceBetween "space-reverse" "margin-right" "margin-bottom" (t "space")]⟩,
   ⟨"margin",
    [Rule.withOmitHyphen (Rule.withNegative
      (.directed "m" sideDirections (t "margin") (onSides "margin")))]⟩,
   ⟨"divideWidth",
    [("divide-x", "border-left-width"), ("divide-y", "border-top-width"),
      ("divide-reverse-x", "border-right-width"), ("divide-reverse-y", "border-bottom-width")].map
      fun (stem, target) => (property stem (t "divideWidth") target).withSelectorChange laterChildren⟩,
   ⟨"divideStyle",
    (keywords "divide-" "border-style" ["solid", "dashed", "dotted", "double", "none"]).map
      (·.withSelectorChange laterChildren)⟩,
   ⟨"divideColor",
    [alphaIf divideOpacity (t "divideOpacity")
      (((alphaColor "divide" (t "divideColor") "--tw-divide-opacity" "border-color"
        divideOpacity).withSelectorChange laterChildren).withBrackets .colorOnly)]⟩,
   ⟨"divideOpacity",
    [(property "divide" (t "divideOpacity") "--tw-divide-opacity").withSelectorChange laterChildren]⟩,
   ⟨"placeSelf",
    keywords "place-self-" "place-self" ["auto", "start", "end", "center", "stretch"]⟩,
   ⟨"alignSelf",
    keywordsWith "self-" "align-self" flexKeyword
      ["auto", "start", "end", "center", "stretch", "baseline"]⟩,
   ⟨"justifySelf",
    keywords "justify-self-" "justify-self" ["auto", "start", "end", "center", "stretch"]⟩,
   ⟨"overflow",
    keywords "overflow-" "overflow" overflows ++ keywords "overflow-x-" "overflow-x" overflows ++
      keywords "overflow-y-" "overflow-y" overflows⟩,
   ⟨"overscrollBehavior",
    keywords "overscroll-" "overscroll-behavior" overscrolls ++
      keywords "overscroll-x-" "overscroll-behavior-x" overscrolls ++
      keywords "overscroll-y-" "overscroll-behavior-y" overscrolls⟩,
   ⟨"scrollBehavior", keywords "scroll-" "scroll-behavior" ["auto", "smooth"]⟩,
   ⟨"textOverflow",
    statics
      [("truncate", [("overflow", "hidden"), ("text-overflow", "ellipsis"), ("white-space", "nowrap")]),
       ("text-ellipsis", [("text-overflow", "ellipsis")]),
       ("text-clip", [("text-overflow", "clip")])]⟩,
   ⟨"hyphens", keywords "hyphens-" "hyphens" ["none", "manual", "auto"]⟩,
   ⟨"whitespace",
    keywords "whitespace-" "white-space"
      ["normal", "nowrap", "pre", "pre-line", "pre-wrap", "break-spaces"]⟩,
   ⟨"textWrap",
    keywords "text-" "text-wrap" ["wrap", "nowrap", "balance"]⟩,
   ⟨"wordBreak",
    statics
      [("break-normal", [("overflow-wrap", "normal"), ("word-break", "normal")]),
       ("break-words", [("overflow-wrap", "break-word")]),
       ("break-all", [("word-break", "break-all")]),
       ("break-keep", [("word-break", "keep-all")])]⟩]

end UtilityCss.Catalog
