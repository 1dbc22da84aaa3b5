import Fixity.Parse.Reading

/-! # Parsing texts

A text that ends inside a declaration needs more input; a refused token rejects it for good. -/

namespace Fixity

/-- What becomes of a text. -/
inductive Outcome where
  | parsed (program : Program)
  | needsMoreInput
  | rejected (error : ParseError)

def Outcome.isParsed : Outcome → Bool
  | parsed _ => true
  | _ => false

def Outcome.needsMore : Outcome → Bool
  | needsMoreInput => true
  | _ => false

/-- The declarations that some tokens completed, and how far the next one has come. -/
structure Progress where
  latestFirst : List Declaration := []
  reading : Reading := .ready

/-- The declaration that the text's end completes. Only a bare expression ends there. -/
def Surroundings.complete? : Expr → Surroundings → Option Declaration
  | e, operand left op outer => outer.complete? (.binary op.symbol left e)
  | e, statement => some (.definition .anonymous e)
  | _, _ => none

namespace Grammar

def advance (grammar : Grammar) (progress : Progress) (token : Token) :
    Except ParseError Progress :=
  (grammar.read progress.reading token).map fun step =>
    { latestFirst := step.completed.toList ++ progress.latestFirst, reading := step.reading }

/-- The outcome of a text that ends with an operand. -/
def finishExpr (progress : Progress) (e : Expr) (surroundings : Surroundings) : Outcome :=
  match surroundings.complete? e with
  | some declaration => .parsed (declaration :: progress.latestFirst).reverse
  | none => .needsMoreInput

/-- The outcome of a text whose tokens have all been read. -/
def finish (grammar : Grammar) (progress : Progress) (stop : Token) : Outcome :=
  match progress.reading with
  | .ready => .parsed progress.latestFirst.reverse
  | .operand surroundings =>
    if grammar.exceeds surroundings then .rejected (.tooDeep stop) else .needsMoreInput
  | .afterName name surroundings => finishExpr progress (.var name) surroundings
  | .afterOperand e surroundings => finishExpr progress e surroundings
  | _ => .needsMoreInput

def parseScan (grammar : Grammar) (scan : Scan) : Outcome :=
  match scan.words.foldlM grammar.advance {} with
  | .ok progress => grammar.finish progress scan.stop
  | .error error => .rejected error

def parse (grammar : Grammar) (text : String) : Outcome :=
  match scan text with
  | .ok scan => grammar.parseScan scan
  | .error error => .rejected (.scan error)

end Grammar

end Fixity
