import Fixity.Binary64.Basic

/-! # Programs

A bare expression is the body of a definition without a name of its own. -/

namespace Fixity

/-- An expression. Parentheses leave no trace in it. -/
inductive Expr where
  | literal (value : Binary64)
  | var (name : String)
  | binary (symbol : String) (left right : Expr)
  | call (callee : String) (arguments : List Expr)

namespace Expr

mutual

/-- Whether two expressions have the same shape, the same names and equal numbers. -/
def agrees : Expr → Expr → Bool
  | literal x, literal y => x.agrees y
  | var x, var y => x == y
  | binary s l r, binary t m q => s == t && l.agrees m && r.agrees q
  | call f xs, call g ys => f == g && allAgree xs ys
  | _, _ => false

def allAgree : List Expr → List Expr → Bool
  | [], [] => true
  | x :: xs, y :: ys => x.agrees y && allAgree xs ys
  | _, _ => false

end

end Expr

/-- The name of a function and those of its parameters. -/
structure Prototype where
  name : String
  parameters : List String
deriving DecidableEq, Repr

namespace Prototype

/-- The prototype of a bare expression. -/
def anonymous : Prototype := ⟨"__ANON__", []⟩

def isAnonymous (prototype : Prototype) : Bool := prototype == anonymous

end Prototype

/-- A function known by its prototype alone, or one with a body. -/
inductive Declaration where
  | external (prototype : Prototype)
  | definition (prototype : Prototype) (body : Expr)

namespace Declaration

def prototype : Declaration → Prototype
  | external prototype => prototype
  | definition prototype _ => prototype

/-- Whether two declarations are of one kind with the same prototype and agreeing bodies. -/
def agrees : Declaration → Declaration → Bool
  | external p, external q => p == q
  | definition p e, definition q f => p == q && e.agrees f
  | _, _ => false

end Declaration

abbrev Program := List Declaration

def Program.agrees : Program → Program → Bool
  | [], [] => true
  | d :: ds, e :: es => Declaration.agrees d e && Program.agrees ds es
  | _, _ => false

end Fixity
