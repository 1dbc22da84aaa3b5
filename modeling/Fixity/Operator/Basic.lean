/-! # Operators

An operator has a symbol, a precedence and an associativity; a table has at most one operator for a
symbol. -/

namespace Fixity

/-- The side on which operators of one precedence are grouped. -/
inductive Associativity where
  | left
  | right
deriving DecidableEq, Repr

def Associativity.name : Associativity → String
  | left => "left"
  | right => "right"

/-- How a symbol takes part in expressions. -/
structure Operator where
  symbol : String
  precedence : Nat
  associativity : Associativity
deriving DecidableEq, Repr

/-- The least precedence with which an operator further right belongs to the right operand. A left
associative operator leaves its own precedence out, so that equals are grouped to the left. -/
def Operator.rightFloor (op : Operator) : Nat :=
  match op.associativity with
  | .left => op.precedence + 1
  | .right => op.precedence

/-! ## Tables -/

/-- The operators by symbol. -/
structure OperatorTable where
  entries : List Operator
  ascending : entries.Pairwise fun a b => a.symbol < b.symbol
deriving DecidableEq

/-- A symbol that a table has no operator for. -/
structure UnknownOperator where
  symbol : String
deriving DecidableEq, Repr

def UnknownOperator.message (error : UnknownOperator) : String :=
  s!"unknown operator {error.symbol}"

namespace OperatorTable

def empty : OperatorTable := ⟨[], .nil⟩

def get? (table : OperatorTable) (symbol : String) : Option Operator :=
  table.entries.find? fun op => op.symbol == symbol

def lookup (table : OperatorTable) (symbol : String) : Except UnknownOperator Operator :=
  match table.get? symbol with
  | some op => .ok op
  | none => .error ⟨symbol⟩

/-- The operator that has the symbol of another one, which would take its place. -/
def replaced? (table : OperatorTable) (op : Operator) : Option Operator :=
  table.entries.find? fun other => !(other.symbol < op.symbol) && !(op.symbol < other.symbol)

/-- Puts an operator into the place of its symbol, instead of the one that had it. -/
def insert (table : OperatorTable) (op : Operator) : OperatorTable where
  entries :=
    table.entries.filter (fun other => other.symbol < op.symbol) ++
      op :: table.entries.filter (fun other => op.symbol < other.symbol)
  ascending := by
    refine List.pairwise_append.mpr ⟨table.ascending.filter _, ?_, ?_⟩
    · refine List.pairwise_cons.mpr ⟨?_, table.ascending.filter _⟩
      intro other hother
      simpa using (List.mem_filter.mp hother).2
    · intro lower hlower upper hupper
      have hl : lower.symbol < op.symbol := by simpa using (List.mem_filter.mp hlower).2
      rcases List.mem_cons.mp hupper with rfl | hupper
      · exact hl
      · exact String.lt_trans hl (by simpa using (List.mem_filter.mp hupper).2)

/-- The table that comes of inserting operators in order. -/
def ofList (ops : List Operator) : OperatorTable := ops.foldl insert empty

/-- Comparison, sums and products to the left, and powers to the right. -/
def standard : OperatorTable :=
  ofList [⟨"<", 10, .left⟩, ⟨"+", 20, .left⟩, ⟨"-", 20, .left⟩, ⟨"*", 40, .left⟩, ⟨"^", 50, .right⟩]

def size (table : OperatorTable) : Nat := table.entries.length

/-- The entries from the loosest to the tightest, those of one precedence in the order of their
symbols: the sort keeps the order of what it does not tell apart. -/
def listing (table : OperatorTable) : List Operator :=
  table.entries.mergeSort fun a b => a.precedence ≤ b.precedence

end OperatorTable

end Fixity
