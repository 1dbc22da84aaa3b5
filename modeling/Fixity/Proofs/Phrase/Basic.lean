import Fixity.Operator.Basic
import Fixity.Program.Basic

/-! # Phrases

A phrase is an expression that has kept its groups. Its chains are trees of binary nodes. -/

namespace Fixity

/-- An expression with its groups. -/
inductive Phrase where
  | literal (value : Binary64)
  | var (name : String)
  | call (callee : String) (arguments : List Phrase)
  | group (inner : Phrase)
  | binary (op : Operator) (left right : Phrase)

/-- A member of a chain. -/
inductive Link where
  | operand (phrase : Phrase)
  | operator (op : Operator)

namespace Phrase

mutual

/-- The expression that is left when the groups are forgotten. -/
def expr : Phrase → Expr
  | literal value => .literal value
  | var name => .var name
  | call callee arguments => .call callee (exprs arguments)
  | group inner => inner.expr
  | binary op left right => .binary op.symbol left.expr right.expr

def exprs : List Phrase → List Expr
  | [] => []
  | phrase :: rest => phrase.expr :: exprs rest

end

theorem exprs_eq_map (phrases : List Phrase) : exprs phrases = phrases.map expr := by
  induction phrases with
  | nil => rfl
  | cons phrase rest ih => rw [exprs, ih, List.map_cons]

/-- An operand is any phrase but an operation. -/
def IsOperand : Phrase → Prop
  | binary .. => False
  | _ => True

/-- A chain is made of operands and of the operators between them. -/
@[elab_as_elim]
theorem chainInduction {motive : Phrase → Prop}
    (operand : ∀ phrase : Phrase, phrase.IsOperand → motive phrase)
    (binary : ∀ op left right, motive left → motive right → motive (.binary op left right)) :
    ∀ phrase, motive phrase
  | .literal _ | .var _ | .call .. | .group _ => operand _ trivial
  | .binary op left right =>
      binary op left right (chainInduction operand binary left)
        (chainInduction operand binary right)

/-! ## Chains and spines -/

/-- The operands and operators of a chain, in the order in which they are written. -/
def chain : Phrase → List Link
  | binary op left right => left.chain ++ .operator op :: right.chain
  | phrase => [.operand phrase]

/-- The operators on the way from the root down to the first operand of the chain. -/
def leftSpine : Phrase → List Operator
  | binary op left _ => op :: left.leftSpine
  | _ => []

/-- The operators on the way from the root down to the last operand of the chain. -/
def rightSpine : Phrase → List Operator
  | binary op _ right => op :: right.rightSpine
  | _ => []

/-- The shape that precedences give to a chain: at every node, the operators on the left spine of
the right operand bind tightly enough to stand there, and no operator on the right spine of the left
operand would have taken the node's operator into its own right operand. -/
def Grouped : Phrase → Prop
  | binary op left right =>
      (∀ q ∈ right.leftSpine, op.rightFloor ≤ q.precedence) ∧
      (∀ p ∈ left.rightSpine, op.precedence < p.rightFloor) ∧ left.Grouped ∧ right.Grouped
  | _ => True

theorem chain_of_isOperand {phrase : Phrase} (h : phrase.IsOperand) :
    phrase.chain = [.operand phrase] := by
  cases phrase <;> first | rfl | exact h.elim

theorem leftSpine_of_isOperand {phrase : Phrase} (h : phrase.IsOperand) :
    phrase.leftSpine = [] := by
  cases phrase <;> first | rfl | exact h.elim

theorem rightSpine_of_isOperand {phrase : Phrase} (h : phrase.IsOperand) :
    phrase.rightSpine = [] := by
  cases phrase <;> first | rfl | exact h.elim

theorem chain_ne_nil (phrase : Phrase) : phrase.chain ≠ [] := by
  cases phrase <;> simp [chain]

/-! ## The chains inside of a phrase -/

mutual

/-- The expressions that are written inside of the operands of a phrase. -/
def inner : Phrase → List Phrase
  | literal _ | var _ => []
  | call _ arguments => innerOfAll arguments
  | group content => content :: content.inner
  | binary _ left right => left.inner ++ right.inner

def innerOfAll : List Phrase → List Phrase
  | [] => []
  | phrase :: rest => phrase :: phrase.inner ++ innerOfAll rest

end

/-- All expressions that a phrase is written with, itself among them. Each is a chain of its own. -/
def expressions (phrase : Phrase) : List Phrase := phrase :: phrase.inner

/-- Every chain of the phrase has the shape that precedences give to it. -/
def FullyGrouped (phrase : Phrase) : Prop := ∀ chain ∈ phrase.expressions, chain.Grouped

end Phrase

end Fixity
