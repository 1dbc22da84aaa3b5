import Fixity.Binary64.Shortest
import Fixity.Program.Basic

/-! # Canonical source

Every operation stands in parentheses, so the source reads back whatever the precedences are. -/

namespace Fixity

namespace Expr

mutual

/-- The canonical source of an expression. -/
def source : Expr → String
  | literal value => value.toText
  | var name => name
  | binary symbol left right => "(" ++ left.source ++ " " ++ symbol ++ " " ++ right.source ++ ")"
  | call callee arguments => callee ++ "(" ++ ", ".intercalate (sources arguments) ++ ")"

def sources : List Expr → List String
  | [] => []
  | e :: es => e.source :: sources es

end

end Expr

def Prototype.source (prototype : Prototype) : String :=
  prototype.name ++ "(" ++ ", ".intercalate prototype.parameters ++ ")"

/-- A bare name stands in parentheses: with a group behind it, it would read back as a call. -/
def Expr.statementSource : Expr → String
  | .var name => "(" ++ name ++ ")"
  | e => e.source

def Declaration.source : Declaration → String
  | external prototype => "extern " ++ prototype.source
  | definition prototype body =>
    if prototype.isAnonymous then body.statementSource
    else "defn " ++ prototype.source ++ " \x7b " ++ body.source ++ " \x7d"

/-- The canonical source of a program, one declaration on a line. -/
def Program.source (program : Program) : String :=
  String.join (program.map fun declaration => declaration.source ++ "\n")

end Fixity
