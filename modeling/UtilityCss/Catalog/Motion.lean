import UtilityCss.Catalog.Family

/-!
# Motion families

Transforms, animations, cursors, touch and scrolling.
-/

namespace UtilityCss.Catalog

/-- The transforms that read rotation, skew and scale from custom properties. -/
def turnSkewScale : String :=
  "rotate(var(--tw-rotate)) skewX(var(--tw-skew-x)) skewY(var(--tw-skew-y)) " ++
    "scaleX(var(--tw-scale-x)) scaleY(var(--tw-scale-y))"

def transformValue : String :=
  "translate(var(--tw-translate-x), var(--tw-translate-y)) " ++ turnSkewScale

def layeredTransformValue : String :=
  "translate3d(var(--tw-translate-x), var(--tw-translate-y), 0) " ++ turnSkewScale

def touchActionValue : String :=
  "var(--tw-pan-x) var(--tw-pan-y) var(--tw-pinch-zoom)"

def cursors : List String :=
  ["auto", "default", "pointer", "wait", "text", "move", "help", "not-allowed", "none", "context-menu",
    "progress", "cell", "crosshair", "vertical-text", "alias", "copy", "no-drop", "grab", "grabbing",
    "all-scroll", "col-resize", "row-resize", "n-resize", "e-resize", "s-resize", "w-resize", "ne-resize",
    "nw-resize", "se-resize", "sw-resize", "ew-resize", "ns-resize", "nesw-resize", "nwse-resize",
    "zoom-in", "zoom-out"]

/-- A transform of one axis, named for its direction. -/
def axisTransform (stem : String) (values : Category) : Rule :=
  .directed stem ["x", "y"] values fun direction value =>
    [⟨"--tw-" ++ stem ++ "-" ++ direction, value⟩, ⟨"transform", transformValue⟩]

def scaleAxes : String → List String
  | "all" => ["x", "y"]
  | direction => [direction]

def gesture (name allowed : String) : Rule :=
  Rule.withGroup (.fixed ("touch-" ++ name) [⟨allowed, name⟩, ⟨"touch-action", touchActionValue⟩])
    .touchAction

def snapAxis (axis : String) : Rule :=
  (single ("snap-" ++ axis) "scroll-snap-type" (axis ++ " var(--tw-scroll-snap-strictness)")).withGroup
    .scrollSnapType

def motion (t : String → Category) : List Family :=
  [⟨"transformOrigin", [property "origin" (t "transformOrigin") "transform-origin"]⟩,
   ⟨"translate",
    [(axisTransform "translate" (t "translate")).withNegative.withMandatory.withGroup .transform]⟩,
   ⟨"rotate",
    [Rule.withGroup (Rule.withNegative (.keyed "rotate" (t "rotate") fun value =>
        [⟨"--tw-rotate", value.primary⟩, ⟨"transform", transformValue⟩])) .transform]⟩,
   ⟨"skew", [(axisTransform "skew" (t "skew")).withNegative.withMandatory.withGroup .transform]⟩,
   ⟨"scale",
    [Rule.withGroup (Rule.withNegative (.directed "scale" ["x", "y"] (t "scale") fun direction value =>
        (scaleAxes direction).map (fun axis => ⟨"--tw-scale-" ++ axis, value⟩) ++
          [⟨"transform", transformValue⟩])) .transform]⟩,
   ⟨"transform",
    [single "transform-gpu" "transform" layeredTransformValue, single "transform-none" "transform" "none"]⟩,
   ⟨"animation", [(property "animate" (t "animation") "animation").withKeyframes]⟩,
   ⟨"cursor", keywords "cursor-" "cursor" cursors⟩,
   ⟨"touchAction",
    [single "touch-auto" "touch-action" "auto", single "touch-none" "touch-action" "none",
      gesture "pan-x" "--tw-pan-x", gesture "pan-left" "--tw-pan-x", gesture "pan-right" "--tw-pan-x",
      gesture "pan-y" "--tw-pan-y", gesture "pan-up" "--tw-pan-y", gesture "pan-down" "--tw-pan-y",
      gesture "pinch-zoom" "--tw-pinch-zoom",
      single "touch-manipulation" "touch-action" "manipulation"]⟩,
   ⟨"userSelect", keywords "select-" "user-select" ["auto", "all", "text", "none"]⟩,
   ⟨"resize",
    [single "resize-x" "resize" "horizontal", single "resize-y" "resize" "vertical",
      single "resize" "resize" "both", single "resize-none" "resize" "none"]⟩,
   ⟨"scrollSnapType",
    [single "snap-none" "scroll-snap-type" "none", snapAxis "x", snapAxis "y", snapAxis "both",
      single "snap-mandatory" "--tw-scroll-snap-strictness" "mandatory",
      single "snap-proximity" "--tw-scroll-snap-strictness" "proximity"]⟩,
   ⟨"scrollSnapAlign", keywords "snap-" "scroll-snap-align" ["start", "end", "center", "align-none"]⟩,
   ⟨"scrollSnapStop", keywords "snap-" "scroll-snap-stop" ["normal", "always"]⟩,
   ⟨"scrollMargin",
    [Rule.withOmitHyphen (Rule.withNegative
      (.directed "scroll-m" sideDirections (t "scrollMargin") (onSides "scroll-margin")))]⟩,
   ⟨"scrollPadding",
    [Rule.withOmitHyphen
      (.directed "scroll-p" sideDirections (t "scrollPadding") (onSides "scroll-padding"))]⟩]

end UtilityCss.Catalog
