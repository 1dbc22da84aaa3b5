import Fixity.Parse.Outcome

/-! # Where an expression ends

When an expression ends, the operators that wait take it, and what is left is the construct that it
stands in. -/

namespace Fixity

namespace Surroundings

/-- What is left of the surroundings once no operator waits any more. -/
def base : Surroundings → Surroundings
  | operand _ _ outer => outer.base
  | surroundings => surroundings

/-- The expression that the waiting operators make of an operand. -/
def whole (e : Expr) : Surroundings → Expr
  | operand left op outer => outer.whole (.binary op.symbol left e)
  | _ => e

/-- The least precedence of an operator that the innermost waiting operator leaves to its right
operand. -/
def floor : Surroundings → Nat
  | operand _ op _ => op.rightFloor
  | _ => 0

@[simp] theorem base_operand (left : Expr) (op : Operator) (outer : Surroundings) :
    (operand left op outer).base = outer.base := rfl

@[simp] theorem whole_operand (e left : Expr) (op : Operator) (outer : Surroundings) :
    (operand left op outer).whole e = outer.whole (.binary op.symbol left e) := rfl

theorem base_ne_operand (surroundings : Surroundings) (left : Expr) (op : Operator)
    (outer : Surroundings) : surroundings.base ≠ operand left op outer := by
  induction surroundings with
  | operand _ _ _ ih => simpa using ih
  | _ => simp [base]

@[simp] theorem base_base (surroundings : Surroundings) :
    surroundings.base.base = surroundings.base := by
  induction surroundings with
  | operand _ _ _ ih => simpa using ih
  | _ => rfl

/-- Folding leaves the construct alone that the expression stands in. -/
@[simp] theorem fold_base (precedence : Nat) (e : Expr) (surroundings : Surroundings) :
    (surroundings.fold precedence e).2.base = surroundings.base := by
  induction surroundings generalizing e with
  | operand left op outer ih =>
      rw [fold]
      split
      · exact ih _
      · rfl
  | _ => rfl

/-- The text's end sees the whole expression and what it stands in. -/
theorem complete?_eq (e : Expr) (surroundings : Surroundings) :
    surroundings.complete? e = surroundings.base.complete? (surroundings.whole e) := by
  induction surroundings generalizing e with
  | operand left op outer ih => simpa [complete?] using ih _
  | _ => rfl

end Surroundings

theorem Grammar.readAfterExpr_eq (grammar : Grammar) (token : Token) (e : Expr)
    (surroundings : Surroundings) :
    grammar.readAfterExpr token e surroundings =
      grammar.readAfterExpr token (surroundings.whole e) surroundings.base := by
  induction surroundings generalizing e with
  | operand left op outer ih => simpa [readAfterExpr] using ih _
  | _ => rfl

/-! ## Where an expression begins -/

/-- A token that can begin an expression. -/
def Token.beginsOperand (token : Token) : Prop :=
  token.isSymbol "(" ∨ token.kind = .identifier ∨ token.kind = .number

/-- What is known where an expression can begin: the declaration that ends there, and the
surroundings that the expression will have. -/
structure Opening where
  completed : Option Declaration := none
  surroundings : Surroundings

/-- What can begin directly behind an expression: another statement or another argument. -/
def Surroundings.opening? (e : Expr) (surroundings : Surroundings) : Option Opening :=
  match surroundings.base with
  | .statement => some ⟨some (.definition .anonymous (surroundings.whole e)), .statement⟩
  | .argument callee latestFirst outer =>
      some ⟨none, .argument callee (surroundings.whole e :: latestFirst) outer⟩
  | _ => none

/-- Where the next token can begin an expression, the expression's surroundings. -/
def Reading.opening? : Reading → Option Opening
  | ready => some ⟨none, .statement⟩
  | operand surroundings => some ⟨none, surroundings⟩
  | argument callee latestFirst outer => some ⟨none, .argument callee latestFirst outer⟩
  | afterName name surroundings => surroundings.opening? (.var name)
  | afterOperand e surroundings => surroundings.opening? e
  | _ => none

def HeadKind.wordKind : HeadKind → TokenKind
  | external => .external
  | definition => .definition

end Fixity
