import Fixity.Binary64.Basic
import Fixity.Parse.Basic
import Fixity.Program.Basic

/-! # Reading declarations token by token

A reading is what a parser remembers of the tokens in front of it. A token moves it on or is
refused. -/

namespace Fixity

/-- What an expression stands in, from the inside out. -/
inductive Surroundings where
  | statement
  | body (prototype : Prototype)
  | group (outer : Surroundings)
  | argument (callee : String) (latestFirst : List Expr) (outer : Surroundings)
  | operand (left : Expr) (op : Operator) (outer : Surroundings)

/-- How many unfinished expressions surround an expression. -/
def Surroundings.depth : Surroundings → Nat
  | statement | body _ => 0
  | group outer | argument _ _ outer | operand _ _ outer => outer.depth + 1

/-- What a prototype is read for. -/
inductive HeadKind where
  | external
  | definition
deriving DecidableEq, Repr

/-- The place in a declaration that a parser has reached. -/
inductive Reading where
  | ready
  | functionName (head : HeadKind)
  | parameterList (head : HeadKind) (name : String)
  | parameter (head : HeadKind) (name : String) (latestFirst : List String)
  | afterParameter (head : HeadKind) (name : String) (latestFirst : List String)
  | bodyStart (prototype : Prototype)
  | operand (surroundings : Surroundings)
  | afterName (name : String) (surroundings : Surroundings)
  | afterOperand (e : Expr) (surroundings : Surroundings)
  | argument (callee : String) (latestFirst : List Expr) (outer : Surroundings)

/-- The reading behind a token, and the declaration that the token completes. -/
structure Advance where
  completed : Option Declaration := none
  reading : Reading

/-- Gives an operand to the operators waiting for it, from the inside out, up to the first that
leaves an operator of this precedence to its right operand. -/
def Surroundings.fold (precedence : Nat) (e : Expr) : Surroundings → Expr × Surroundings
  | operand left op outer =>
    if precedence < op.rightFloor then fold precedence (.binary op.symbol left e) outer
    else (e, operand left op outer)
  | surroundings => (e, surroundings)

namespace Grammar

/-- Whether an expression in these surroundings would be nested deeper than is allowed. -/
def exceeds (grammar : Grammar) (surroundings : Surroundings) : Bool :=
  grammar.nestingLimit.any fun limit => limit ≤ surroundings.depth

def readNumber (token : Token) (surroundings : Surroundings) : Except ParseError Reading :=
  match Binary64.ofNumeral token.text with
  | .ok value => .ok (.afterOperand (.literal value) surroundings)
  | .error .malformed => .error (.malformedNumber token)
  | .error .outOfRange => .error (.numberOutOfRange token)

/-- Reads the first token of an expression. -/
def readOperand (grammar : Grammar) (surroundings : Surroundings) (token : Token) :
    Except ParseError Reading :=
  if grammar.exceeds surroundings then .error (.tooDeep token)
  else if token.isSymbol "(" then .ok (.operand (.group surroundings))
  else match token.kind with
    | .identifier => .ok (.afterName token.text surroundings)
    | .number => readNumber token surroundings
    | _ => .error (.unexpected token .expression)

/-- Reads the first token of a declaration. -/
def readStart (grammar : Grammar) (token : Token) : Except ParseError Reading :=
  match token.kind with
  | .definition => .ok (.functionName .definition)
  | .external => .ok (.functionName .external)
  | _ => grammar.readOperand .statement token

/-- Reads a parameter or the end of the list. -/
def readParameter (head : HeadKind) (name : String) (latestFirst : List String) (token : Token) :
    Except ParseError Advance :=
  if token.kind = .identifier then
    .ok { reading := .afterParameter head name (token.text :: latestFirst) }
  else if token.isSymbol ")" then
    let prototype := ⟨name, latestFirst.reverse⟩
    match head with
    | .external => .ok { completed := some (.external prototype), reading := .ready }
    | .definition => .ok { reading := .bodyStart prototype }
  else .error (.unexpected token (.symbol ")"))

/-- Reads an argument's first token or the end of the call. -/
def readArgument (grammar : Grammar) (callee : String) (latestFirst : List Expr)
    (outer : Surroundings) (token : Token) : Except ParseError Reading :=
  if token.isSymbol ")" then .ok (.afterOperand (.call callee latestFirst.reverse) outer)
  else grammar.readOperand (.argument callee latestFirst outer) token

/-- Reads a token that is no operator behind an operand: it ends the expression, which takes up all
operators that are waiting, and belongs to what surrounds it. -/
def readAfterExpr (grammar : Grammar) (token : Token) :
    Expr → Surroundings → Except ParseError Advance
  | e, .operand left op outer => grammar.readAfterExpr token (.binary op.symbol left e) outer
  | e, .statement =>
    (grammar.readStart token).map fun reading =>
      { completed := some (.definition .anonymous e), reading }
  | e, .body prototype =>
    if token.isSymbol "\x7d" then
      .ok { completed := some (.definition prototype e), reading := .ready }
    else .error (.unexpected token (.symbol "\x7d"))
  | e, .group outer =>
    if token.isSymbol ")" then .ok { reading := .afterOperand e outer }
    else .error (.unexpected token (.symbol ")"))
  | e, .argument callee latestFirst outer =>
    if token.isSymbol "," then .ok { reading := .argument callee (e :: latestFirst) outer }
    else (grammar.readArgument callee (e :: latestFirst) outer token).map ({ reading := · })

/-- Reads the token behind an operand: an operator, or the end of the expression. -/
def readAfterOperand (grammar : Grammar) (e : Expr) (surroundings : Surroundings) (token : Token) :
    Except ParseError Advance :=
  if token.kind = .operator then
    match grammar.operators.get? token.text with
    | none => .error (.unknownOperator token)
    | some op =>
      let (left, outer) := surroundings.fold op.precedence e
      .ok { reading := .operand (.operand left op outer) }
  else grammar.readAfterExpr token e surroundings

def read (grammar : Grammar) (reading : Reading) (token : Token) : Except ParseError Advance :=
  match reading with
  | .ready => (grammar.readStart token).map ({ reading := · })
  | .functionName head =>
    if token.kind = .identifier then .ok { reading := .parameterList head token.text }
    else .error (.unexpected token .functionName)
  | .parameterList head name =>
    if token.isSymbol "(" then .ok { reading := .parameter head name [] }
    else .error (.unexpected token (.symbol "("))
  | .parameter head name latestFirst => readParameter head name latestFirst token
  | .afterParameter head name latestFirst =>
    if token.isSymbol "," then .ok { reading := .parameter head name latestFirst }
    else readParameter head name latestFirst token
  | .bodyStart prototype =>
    if token.isSymbol "\x7b" then .ok { reading := .operand (.body prototype) }
    else .error (.unexpected token (.symbol "\x7b"))
  | .operand surroundings => (grammar.readOperand surroundings token).map ({ reading := · })
  | .afterName name surroundings =>
    if token.isSymbol "(" then .ok { reading := .argument name [] surroundings }
    else grammar.readAfterOperand (.var name) surroundings token
  | .afterOperand e surroundings => grammar.readAfterOperand e surroundings token
  | .argument callee latestFirst outer =>
    (grammar.readArgument callee latestFirst outer token).map ({ reading := · })

end Grammar

end Fixity
