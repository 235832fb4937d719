/-!
# Declarations

A declaration gives one CSS property a value. Declarations are printed one a line.
-/

namespace UtilityCss

structure Declaration where
  property : String
  value : String
  deriving DecidableEq, Repr

namespace Declaration

/-- The declaration as it stands in a block. -/
def line (d : Declaration) : String :=
  d.property ++ ": " ++ d.value ++ ";"

/-- The declaration with the mark that wins over plain declarations. -/
def important (d : Declaration) : Declaration :=
  { d with value := d.value ++ " !important" }

@[simp] theorem important_property (d : Declaration) : d.important.property = d.property := rfl

end Declaration

def declarationLines (declarations : List Declaration) : List String :=
  declarations.map Declaration.line

end UtilityCss
