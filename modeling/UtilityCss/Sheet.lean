import UtilityCss.Declaration

/-!
# Sheets

A sheet is a list of blocks, of selectors that share the block behind them, and of at-rules with a sheet in
them. It is printed line by line, each level of at-rules two spaces further in.
-/

namespace UtilityCss

inductive SheetItem
  /-- A selector whose block comes with a later selector. -/
  | shared (selector : String)
  | block (selector : String) (lines : List String)
  /-- An at-rule, with a line in front of its items if it has one. -/
  | atRule (condition : String) (first : Option String) (items : List SheetItem)

namespace SheetItem

def blockLines (indent selector : String) (lines : List String) : List String :=
  (indent ++ selector ++ " \x7b") :: (lines.map (indent ++ "  " ++ ·) ++ [indent ++ "\x7d"])

mutual

/-- The printed lines of an item. The line in front of the items of an at-rule stands as it is. -/
def lines (indent : String) : SheetItem → List String
  | shared selector => [indent ++ selector ++ ","]
  | block selector body => blockLines indent selector body
  | atRule condition first items =>
    (indent ++ condition ++ " \x7b") :: (first.toList ++ linesOfAll (indent ++ "  ") items ++
      [indent ++ "\x7d"])

def linesOfAll (indent : String) : List SheetItem → List String
  | [] => []
  | item :: items => item.lines indent ++ linesOfAll indent items

end

end SheetItem

/-- Lines as a text, each ended by a line break. -/
def textOfLines (lines : List String) : String :=
  String.join (lines.map (· ++ "\n"))

def blockText (selector : String) (lines : List String) (indent : String) : String :=
  textOfLines (SheetItem.blockLines indent selector lines)

def sheetText (items : List SheetItem) : String :=
  textOfLines (SheetItem.linesOfAll "" items)

end UtilityCss
