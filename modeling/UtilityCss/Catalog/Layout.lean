import UtilityCss.Catalog.Family

/-!
# Layout families

Containers, visibility, position, grid placement, display and sizes.
-/

namespace UtilityCss.Catalog

/-- What hides an element from view and leaves it to screen readers, and what takes that back. -/
def screenReaderRules : List Rule :=
  statics
    [("sr-only",
      [("position", "absolute"), ("width", "1px"), ("height", "1px"), ("padding", "0"), ("margin", "-1px"),
        ("overflow", "hidden"), ("clip", "rect(0, 0, 0, 0)"), ("white-space", "nowrap"),
        ("border-width", "0")]),
     ("not-sr-only",
      [("position", "static"), ("width", "auto"), ("height", "auto"), ("padding", "0"), ("margin", "0"),
        ("overflow", "visible"), ("clip", "auto"), ("white-space", "normal")])]

def insetSides : String → List String
  | "x" => ["left", "right"]
  | "y" => ["top", "bottom"]
  | "tr" => ["top", "right"]
  | "br" => ["bottom", "right"]
  | "bl" => ["bottom", "left"]
  | "tl" => ["top", "left"]
  | _ => ["inset"]

def displays : List String :=
  ["block", "inline-block", "inline", "flex", "inline-flex", "table", "inline-table", "table-caption",
    "table-cell", "table-column", "table-column-group", "table-footer-group", "table-header-group",
    "table-row-group", "table-row", "flow-root", "grid", "inline-grid", "contents", "list-item", "hidden"]

def layout (t : String → Category) : List Family :=
  [⟨"container", [Rule.withContainer (.fixed "container" [])]⟩,
   ⟨"accessibility", screenReaderRules⟩,
   ⟨"pointerEvents", keywords "pointer-events-" "pointer-events" ["auto", "none"]⟩,
   ⟨"visibility",
    [single "visible" "visibility" "visible", single "invisible" "visibility" "hidden",
      single "collapse" "visibility" "collapse"]⟩,
   ⟨"position", keywords "" "position" ["static", "fixed", "absolute", "relative", "sticky"]⟩,
   ⟨"inset",
    [Rule.withNegative (.directed "inset" ["x", "y", "tr", "br", "bl", "tl"] (t "inset")
        fun direction value => (insetSides direction).map (⟨·, value⟩)),
      (property "top" (t "inset") "top").withNegative,
      (property "right" (t "inset") "right").withNegative,
      (property "bottom" (t "inset") "bottom").withNegative,
      (property "left" (t "inset") "left").withNegative]⟩,
   ⟨"isolation", [single "isolate" "isolation" "isolate", single "isolation-auto" "isolation" "auto"]⟩,
   ⟨"zIndex", [(property "z" (t "zIndex") "z-index").withNegative]⟩,
   ⟨"order", [(property "order" (t "order") "order").withNegative]⟩,
   ⟨"gridColumn", [property "col" (t "gridColumn") "grid-column"]⟩,
   ⟨"gridColumnStart", [(property "col-start" (t "gridColumnStart") "grid-column-start").withNegative]⟩,
   ⟨"gridColumnEnd", [(property "col-end" (t "gridColumnEnd") "grid-column-end").withNegative]⟩,
   ⟨"gridRow", [property "row" (t "gridRow") "grid-row"]⟩,
   ⟨"gridRowStart", [(property "row-start" (t "gridRowStart") "grid-row-start").withNegative]⟩,
   ⟨"gridRowEnd", [(property "row-end" (t "gridRowEnd") "grid-row-end").withNegative]⟩,
   ⟨"float",
    keywordsWith "float-" "float" (except [("start", "inline-start"), ("end", "inline-end")])
      ["start", "end", "right", "left", "none"]⟩,
   ⟨"clear",
    keywordsWith "clear-" "clear" (except [("start", "inline-start"), ("end", "inline-end")])
      ["start", "end", "left", "right", "both", "none"]⟩,
   ⟨"boxSizing", keywords "box-" "box-sizing" ["border-box", "content-box"]⟩,
   ⟨"lineClamp",
    [.keyed "line-clamp" (t "lineClamp") fun value =>
        [⟨"overflow", "hidden"⟩, ⟨"display", "-webkit-box"⟩, ⟨"-webkit-box-orient", "vertical"⟩,
          ⟨"-webkit-line-clamp", value.primary⟩],
      .fixed "line-clamp-none"
        [⟨"overflow", "visible"⟩, ⟨"display", "block"⟩, ⟨"-webkit-box-orient", "horizontal"⟩,
          ⟨"-webkit-line-clamp", "none"⟩]]⟩,
   ⟨"display", keywordsWith "" "display" (except [("hidden", "none")]) displays⟩,
   ⟨"aspectRatio", [property "aspect" (t "aspectRatio") "aspect-ratio"]⟩,
   ⟨"size",
    [.keyed "size" (t "size") fun value => [⟨"width", value.primary⟩, ⟨"height", value.primary⟩]]⟩,
   ⟨"height", [property "h" (t "height") "height"]⟩,
   ⟨"minHeight", [property "min-h" (t "minHeight") "min-height"]⟩,
   ⟨"maxHeight", [property "max-h" (t "maxHeight") "max-height"]⟩,
   ⟨"width", [property "w" (t "width") "width"]⟩,
   ⟨"minWidth", [property "min-w" (t "minWidth") "min-width"]⟩,
   ⟨"maxWidth", [property "max-w" (t "maxWidth") "max-width"]⟩,
   ⟨"flex", [property "flex" (t "flex") "flex"]⟩,
   ⟨"flexShrink", [property "shrink" (t "flexShrink") "flex-shrink"]⟩,
   ⟨"flexGrow", [property "grow" (t "flexGrow") "flex-grow"]⟩,
   ⟨"flexBasis", [property "basis" (t "flexBasis") "flex-basis"]⟩,
   ⟨"tableLayout", keywords "table-" "table-layout" ["auto", "fixed"]⟩,
   ⟨"captionSide", keywords "caption-" "caption-side" ["top", "bottom"]⟩,
   ⟨"borderCollapse", keywords "border-" "border-collapse" ["collapse", "separate"]⟩]

end UtilityCss.Catalog
