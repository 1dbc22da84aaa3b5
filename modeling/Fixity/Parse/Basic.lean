import Fixity.Operator.Basic
import Fixity.Token.Scan

/-! # Grammars and parse errors

Grammars differ in their operators and in how deep expressions may be nested. -/

namespace Fixity

/-- The operators, and how many expressions may be unfinished at once. -/
structure Grammar where
  operators : OperatorTable := .standard
  nestingLimit : Option Nat := some 256
deriving DecidableEq

namespace Grammar

/-- Registers an operator for all later texts. -/
def register (grammar : Grammar) (op : Operator) : Grammar :=
  { grammar with operators := grammar.operators.insert op }

def reset (grammar : Grammar) : Grammar := { grammar with operators := .standard }

end Grammar

/-! ## Errors -/

/-- What the grammar allows at a place where a token was refused. -/
inductive Expectation where
  | functionName
  | expression
  | symbol (text : String)
deriving DecidableEq, Repr

def Expectation.describe : Expectation → String
  | functionName => "function name"
  | expression => "an expression"
  | symbol text => s!"`{text}`"

inductive ParseError where
  | scan (error : ScanError)
  | unexpected (token : Token) (expected : Expectation)
  | unknownOperator (token : Token)
  | malformedNumber (token : Token)
  | numberOutOfRange (token : Token)
  | tooDeep (token : Token)
deriving DecidableEq, Repr

namespace ParseError

/-- The token that was refused; a text without tokens has none. -/
def token? : ParseError → Option Token
  | scan _ => none
  | unexpected token _ | unknownOperator token | malformedNumber token | numberOutOfRange token
  | tooDeep token => some token

/-- The reason that lies behind an error and has a message of its own. -/
def cause? : ParseError → Option String
  | malformedNumber _ => some "invalid float literal"
  | _ => none

def message : ParseError → String
  | scan error => error.message
  | unexpected token expected => s!"expected {expected.describe} (found {token.describe})"
  | unknownOperator token => s!"unknown operator {token.describe}"
  | malformedNumber token => s!"invalid number {token.describe}: invalid float literal"
  | numberOutOfRange token => s!"number {token.describe} is out of range"
  | tooDeep token => s!"expression nested too deeply (at {token.describe})"

end ParseError

end Fixity
