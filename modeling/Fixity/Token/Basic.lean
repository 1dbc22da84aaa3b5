/-! # Tokens

Tokens agree when their kinds and texts do; positions only serve messages. -/

namespace Fixity

/-- A place in a text; lines and columns count characters from one. -/
structure Position where
  line : Nat := 1
  column : Nat := 1
deriving DecidableEq, Repr

/-- The place behind a character that stands at this one. -/
def Position.after (here : Position) (c : Char) : Position :=
  if c = '\n' then ⟨here.line + 1, 1⟩ else ⟨here.line, here.column + 1⟩

def Position.toText (here : Position) : String := s!"{here.line}:{here.column}"

/-- The classes that the grammar tells tokens apart by. -/
inductive TokenKind where
  | definition
  | external
  | identifier
  | operator
  | reserved
  | number
  | stop
deriving DecidableEq, Repr

def TokenKind.name : TokenKind → String
  | definition => "DEFN"
  | external => "EXTERN"
  | identifier => "IDENTIFIER"
  | operator => "OPERATOR"
  | reserved => "RESERVED_SYMBOL"
  | number => "NUMBER"
  | stop => "END"

/-- A word is an identifier unless it opens a declaration. -/
def TokenKind.ofWord (word : String) : TokenKind :=
  if word = "defn" then definition else if word = "extern" then external else identifier

/-- A piece of a text, or the stop behind the last one. -/
structure Token where
  kind : TokenKind
  text : String
  position : Position
deriving DecidableEq, Repr

namespace Token

/-- Whether two tokens have the same kind and text, wherever they stand. -/
def agrees (a b : Token) : Bool := a.kind == b.kind && a.text == b.text

/-- Whether the token is this reserved symbol. -/
def isSymbol (token : Token) (symbol : String) : Bool :=
  token.kind == .reserved && token.text == symbol

def toText (token : Token) : String :=
  s!"{token.kind.name} ({token.position.toText}): {token.text}"

/-- How a message refers to a token; the stop has no text of its own. -/
def describe (token : Token) : String :=
  if token.kind = .stop then s!"end of input at {token.position.toText}"
  else s!"`{token.text}` at {token.position.toText}"

end Token

end Fixity
