import Fixity.Operator.Basic
import Fixity.Token.Scan

/-! # Operator specifications

An operator is specified as `SYMBOL:PRECEDENCE` or `SYMBOL:PRECEDENCE:ASSOCIATIVITY`. -/

namespace Fixity

/-- What is wrong with a specification, with the offending part. -/
inductive SpecError where
  | malformed (spec : String)
  | invalidSymbol (symbol : String)
  | invalidPrecedence (precedence : String)
  | invalidAssociativity (associativity : String)
deriving DecidableEq, Repr

def SpecError.message : SpecError → String
  | malformed spec => s!"expected SYMBOL:PRECEDENCE[:left|right], found `{spec}`"
  | invalidSymbol symbol => s!"`{symbol}` contains characters that can't form an operator"
  | invalidPrecedence precedence => s!"invalid precedence `{precedence}`"
  | invalidAssociativity associativity => s!"invalid associativity `{associativity}`"

namespace Spec

/-- The parts of a text between the occurrences of a separator. -/
def fields (separator : Char) : List Char → List (List Char)
  | [] => [[]]
  | c :: rest =>
    if c = separator then [] :: fields separator rest
    else (fields separator rest).modifyHead (c :: ·)

def isSymbol (text : List Char) : Bool := !text.isEmpty && text.all isOperatorChar

def maxPrecedence : Nat := 4294967295

/-- Reads digits, with or without a plus in front of them. -/
def precedence? (text : List Char) : Option Nat :=
  let digits := if text.head? = some '+' then text.drop 1 else text
  if digits.isEmpty || !digits.all Char.isDigit || maxPrecedence < digitsValue digits then none
  else some (digitsValue digits)

/-- Reads the name or the initial of a side, in any case. -/
def associativity? (text : List Char) : Option Associativity :=
  let lower := String.ofList (text.map Char.toLower)
  if lower = "left" || lower = "l" then some .left
  else if lower = "right" || lower = "r" then some .right
  else none

end Spec

/-- Reads the parts of a specification; the first that is wrong is reported. -/
def Operator.ofFields (symbol precedence associativity : List Char) : Except SpecError Operator :=
  if !Spec.isSymbol symbol then .error (.invalidSymbol (.ofList symbol))
  else match Spec.precedence? precedence with
    | none => .error (.invalidPrecedence (.ofList precedence))
    | some level =>
      match Spec.associativity? associativity with
      | none => .error (.invalidAssociativity (.ofList associativity))
      | some side => .ok ⟨.ofList symbol, level, side⟩

def Operator.ofSpec (spec : String) : Except SpecError Operator :=
  match Spec.fields ':' spec.toList with
  | [symbol, precedence] => ofFields symbol precedence ['l', 'e', 'f', 't']
  | [symbol, precedence, associativity] => ofFields symbol precedence associativity
  | _ => .error (.malformed spec)

end Fixity
