import Fixity.Binary64.Shortest
import Fixity.Program.Basic

/-! # Outlines

An outline shows one node on a line, indented by the depth of the node. -/

namespace Fixity

/-- The lines collected so far, and the depth of the next one. -/
structure Outliner where
  depth : Nat := 0
  text : String := ""
deriving DecidableEq, Repr

namespace Outliner

/-- The mark of `depth` levels at the start of a line. -/
def indentation (depth : Nat) : String := String.join (List.replicate depth "|  ")

def line (content : String) (outliner : Outliner) : Outliner :=
  { outliner with text := outliner.text ++ indentation outliner.depth ++ content ++ "\n" }

def blank (outliner : Outliner) : Outliner := { outliner with text := outliner.text ++ "\n" }

/-- Visits one level deeper and comes back. -/
def nested (visit : Outliner → Outliner) (outliner : Outliner) : Outliner :=
  let inner := visit { outliner with depth := outliner.depth + 1 }
  { inner with depth := inner.depth - 1 }

mutual

/-- Visits an expression, the parts of it one level deeper. -/
def visitExpr : Expr → Outliner → Outliner
  | .literal value, outliner => outliner.line s!"DOUBLE: {value.toText}"
  | .var name, outliner => outliner.line s!"VARIABLE: {name}"
  | .binary symbol left right, outliner =>
    (outliner.line s!"BINOP: {symbol}").nested fun inner => visitExpr right (visitExpr left inner)
  | .call callee arguments, outliner =>
    (outliner.line "CALL:").nested fun inner =>
      ((inner.line s!"FUNCTION: {callee}").line "ARGUMENTS:").nested (visitArguments 1 arguments)

/-- Visits arguments, numbered from `number`. -/
def visitArguments (number : Nat) : List Expr → Outliner → Outliner
  | [], outliner => outliner
  | argument :: rest, outliner =>
    visitArguments (number + 1) rest
      ((outliner.line s!"ARG {number}:").nested (visitExpr argument))

end

def visitPrototype (prototype : Prototype) (outliner : Outliner) : Outliner :=
  (outliner.line s!"FUNCTION NAME: {prototype.name}").line
    ("FUNCTION ARGS: " ++ " ".intercalate prototype.parameters)

/-- Visits a declaration; an empty line sets it off from the next. -/
def visitDeclaration : Declaration → Outliner → Outliner
  | .external prototype, outliner =>
    ((outliner.line "EXTERN:").nested (visitPrototype prototype)).blank
  | .definition prototype body, outliner =>
    ((outliner.line "DEFN:").nested fun inner =>
      ((visitPrototype prototype inner).line "BODY:").nested (visitExpr body)).blank

def visit (program : Program) (outliner : Outliner) : Outliner :=
  program.foldl (fun outliner declaration => outliner.visitDeclaration declaration) outliner

/-- The text collected so far, and the outliner without it. -/
def take (outliner : Outliner) : String × Outliner := (outliner.text, { outliner with text := "" })

end Outliner

def Program.outline (program : Program) : String := (Outliner.visit program {}).text

end Fixity
