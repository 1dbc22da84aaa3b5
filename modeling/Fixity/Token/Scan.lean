import Fixity.Token.Basic
import Fixity.Text

/-! # Scanning

A scanner walks over a text once, with at most one unfinished lexeme. A NUL outside of comments ends
the text. -/

namespace Fixity

open Unicode (isWhiteSpace isAlphabetic isAlphanumeric)

def isOperatorChar (c : Char) : Bool :=
  ['<', '>', '+', '-', '*', '!', '@', '$', '%', '^', '&', '|'].contains c

def isReservedChar (c : Char) : Bool := ['(', ')', '{', '}', ',', ';', ':'].contains c

/-- The classes of lexemes that take more than one character. -/
inductive LexemeClass where
  | word
  | number
  | operator
deriving DecidableEq, Repr

namespace LexemeClass

/-- The class of lexemes that a character begins. -/
def begunBy? (c : Char) : Option LexemeClass :=
  if isAlphabetic c then some word
  else if c.isDigit then some number
  else if isOperatorChar c then some operator
  else none

/-- Whether a character continues a lexeme of the class. -/
def continuedBy : LexemeClass → Char → Bool
  | word, c => isAlphanumeric c
  | number, c => c.isDigit || c == '.'
  | operator, c => isOperatorChar c

def kind : LexemeClass → String → TokenKind
  | word, text => .ofWord text
  | number, _ => .number
  | operator, _ => .operator

end LexemeClass

/-- What a scanner is inside of between two characters. -/
inductive Unfinished where
  | nothing
  | comment
  | lexeme (lexemeClass : LexemeClass) (start : Position) (latestFirst : List Char)
deriving DecidableEq, Repr

/-- A scanner in front of the character at `position`. -/
structure Scanner where
  position : Position := {}
  unfinished : Unfinished := .nothing
  latestFirst : List Token := []
deriving DecidableEq, Repr

/-- The tokens of a text and the stop behind them. -/
structure Scan where
  words : List Token
  stop : Token
deriving DecidableEq, Repr

/-- All tokens, the stop last. -/
def Scan.tokens (scan : Scan) : List Token := scan.words ++ [scan.stop]

/-- A character that begins no token, with what follows it, and where it stands. -/
structure ScanError where
  symbol : String
  position : Position
deriving DecidableEq, Repr

def ScanError.message (error : ScanError) : String :=
  s!"unrecognized symbol '{error.symbol}' at {error.position.toText}"

/-- What a character does to a scanner. -/
inductive ScanStep where
  | proceed (scanner : Scanner)
  | stop
  | unrecognized

namespace Scanner

/-- Turns the unfinished lexeme, if there is one, into a token. -/
def close (scanner : Scanner) : Scanner :=
  match scanner.unfinished with
  | .lexeme lexemeClass start latestFirst =>
    let text := String.ofList latestFirst.reverse
    { scanner with
      unfinished := .nothing
      latestFirst := ⟨lexemeClass.kind text, text, start⟩ :: scanner.latestFirst }
  | _ => { scanner with unfinished := .nothing }

/-- Ends the scan in front of the current character. -/
def finish (scanner : Scanner) : Scan where
  words := scanner.close.latestFirst.reverse
  stop := ⟨.stop, "", scanner.position⟩

/-- Passes over a character that leaves the scanner inside of `unfinished`. -/
def pass (scanner : Scanner) (c : Char) (unfinished : Unfinished) : ScanStep :=
  .proceed { scanner with position := scanner.position.after c, unfinished }

/-- Reads a character that continues nothing. -/
def begin (scanner : Scanner) (c : Char) : ScanStep :=
  if isWhiteSpace c then scanner.pass c .nothing
  else match LexemeClass.begunBy? c with
    | some lexemeClass => scanner.pass c (.lexeme lexemeClass scanner.position [c])
    | none =>
      if c = '#' then scanner.pass c .comment
      else if c = '\x00' then .stop
      else if isReservedChar c then
        let token := ⟨.reserved, .ofList [c], scanner.position⟩
        { scanner with latestFirst := token :: scanner.latestFirst }.pass c .nothing
      else .unrecognized

/-- Reads one character. A comment runs up to the end of its line. -/
def next (scanner : Scanner) (c : Char) : ScanStep :=
  match scanner.unfinished with
  | .nothing => scanner.begin c
  | .comment => if c = '\n' || c = '\r' then scanner.begin c else scanner.pass c .comment
  | .lexeme lexemeClass start latestFirst =>
    if lexemeClass.continuedBy c then
      scanner.pass c (.lexeme lexemeClass start (c :: latestFirst))
    else scanner.close.begin c

/-- The part of a text that an error quotes: up to white space, three characters at most. -/
def quoted (text : List Char) : String :=
  .ofList ((text.take 3).takeWhile fun c => !isWhiteSpace c)

/-- Reads a text to its end or to the first character that has no place in it. -/
def run (scanner : Scanner) : List Char → Except ScanError Scan
  | [] => .ok scanner.finish
  | c :: rest =>
    match scanner.next c with
    | .proceed scanner => scanner.run rest
    | .stop => .ok scanner.finish
    | .unrecognized => .error ⟨quoted (c :: rest), scanner.position⟩

end Scanner

def scan (text : String) : Except ScanError Scan := Scanner.run {} text.toList

def Scan.listing (scan : Scan) : String :=
  String.join (scan.tokens.map fun token => token.toText ++ "\n")

end Fixity
