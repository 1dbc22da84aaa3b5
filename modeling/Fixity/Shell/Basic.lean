import Fixity.Parse.Outcome
import Fixity.Program.Outline
import Fixity.Program.Source

/-! # The shell

A shell parses each new line together with the unfinished text in front of it. -/

namespace Fixity

/-- A shell between two lines. -/
structure Shell where
  grammar : Grammar := {}
  pending : String := ""
  showTokens : Bool := false
  showSource : Bool := false
deriving DecidableEq

namespace Shell

/-- Asks for a new text, or for more of the pending one. -/
def prompt (shell : Shell) : String := if shell.pending = "" then "guppy> " else "  ...> "

def append (shell : Shell) (line : String) : Shell :=
  { shell with pending := shell.pending ++ line ++ "\n" }

def outcome (shell : Shell) : Outcome := shell.grammar.parse shell.pending

/-- Keeps the pending text only if its outcome asks for more. -/
def settle (shell : Shell) (outcome : Outcome) : Shell :=
  if outcome.needsMore then shell else { shell with pending := "" }

def feed (shell : Shell) (line : String) : Outcome × Shell :=
  let read := shell.append line
  (read.outcome, read.settle read.outcome)

/-- The tokens of the pending text, if they are shown. -/
def tokenReport (shell : Shell) : String :=
  if shell.showTokens then
    match scan shell.pending with
    | .ok scan => scan.listing
    | .error error => s!"error: {error.message}\n"
  else ""

/-- What is written about the outcome of the pending text. -/
def report (shell : Shell) : Outcome → String
  | .parsed program =>
    shell.tokenReport ++ if shell.showSource then program.source else program.outline
  | .needsMoreInput => ""
  | .rejected error => s!"error: {error.message}\n"

end Shell

end Fixity
