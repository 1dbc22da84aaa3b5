import Fixity.Program.Basic

/-! # What canonical source costs

The cost of an expression is the number of expressions that are open at once in its canonical
source. -/

namespace Fixity

namespace Expr

mutual

def cost : Expr → Nat
  | literal _ | var _ => 1
  | binary _ left right => max (1 + left.cost) (2 + right.cost)
  | call _ arguments => 1 + greatestCost arguments

def greatestCost : List Expr → Nat
  | [] => 0
  | e :: es => max e.cost (greatestCost es)

end

mutual

/-- The operator symbols that occur in an expression. -/
def symbols : Expr → List String
  | literal _ | var _ => []
  | binary symbol left right => symbol :: left.symbols ++ right.symbols
  | call _ arguments => symbolsOfAll arguments

def symbolsOfAll : List Expr → List String
  | [] => []
  | e :: es => e.symbols ++ symbolsOfAll es

end

/-- The cost of a statement. A bare name costs its parentheses, too. -/
def statementCost : Expr → Nat
  | var _ => 2
  | e => e.cost

theorem statementCost_le_iff {e : Expr} {limit : Nat} (h : 2 ≤ limit) :
    e.statementCost ≤ limit ↔ e.cost ≤ limit := by
  cases e with
  | var name =>
      have hvar : (var name).cost = 1 := by rw [cost]
      rw [statementCost, hvar]
      omega
  | _ => rfl

end Expr

namespace Declaration

def body? : Declaration → Option Expr
  | external _ => none
  | definition _ body => some body

def symbols : Declaration → List String
  | external _ => []
  | definition _ body => body.symbols

/-- How deep the canonical source of a declaration is nested. -/
def cost : Declaration → Nat
  | external _ => 0
  | definition prototype body => if prototype.isAnonymous then body.statementCost else body.cost

end Declaration

namespace Program

def bodies (program : Program) : List Expr := program.filterMap Declaration.body?

/-- The operator symbols that occur in a program. -/
def symbols (program : Program) : List String := program.flatMap Declaration.symbols

/-- How deep the canonical source of a program is nested. -/
def cost : Program → Nat
  | [] => 0
  | declaration :: rest => max declaration.cost (cost rest)

theorem cost_le_iff {program : Program} {limit : Nat} (h : 2 ≤ limit) :
    program.cost ≤ limit ↔ ∀ body ∈ program.bodies, body.cost ≤ limit := by
  induction program with
  | nil => simp [cost, bodies]
  | cons declaration rest ih =>
      rw [cost, Nat.max_le, ih]
      cases declaration with
      | external prototype => simp [Declaration.cost, bodies, Declaration.body?]
      | definition prototype body =>
          have hbody :
              Declaration.cost (.definition prototype body) ≤ limit ↔ body.cost ≤ limit := by
            rw [Declaration.cost]
            split
            · exact Expr.statementCost_le_iff h
            · rfl
          rw [hbody]
          simp [bodies, Declaration.body?]

end Program

end Fixity
