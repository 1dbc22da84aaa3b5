import Fixity.CommandLine.Arguments
import Fixity.Operator.Spec
import Fixity.Shell.Session

/-! # Executing a command line

What a run writes and the code it exits with, from its arguments, files and input. -/

namespace Fixity.CommandLine

/-! ## Failures -/

/-- What failed, and why, the outermost cause first. -/
structure Failure where
  context : String
  causes : List String := []
deriving DecidableEq, Repr

namespace Failure

/-- Writes `width` blanks in front of every line but the first. -/
def hang (width : Nat) (text : String) : String :=
  .ofList (text.toList.flatMap fun c =>
    if c = '\n' then '\n' :: List.replicate width ' ' else [c])

/-- The causes of a chain with their numbers. -/
def numbered (number : Nat) : List String → String
  | [] => ""
  | cause :: rest =>
    let label := toString number
    let padding := String.ofList (List.replicate (5 - label.length) ' ')
    "\n" ++ padding ++ label ++ ": " ++ hang 7 cause ++ numbered (number + 1) rest

/-- The part of a report about the causes. -/
def causeReport : List String → String
  | [] => ""
  | [cause] => "\n\nCaused by:\n    " ++ hang 4 cause
  | causes => "\n\nCaused by:" ++ numbered 0 causes

def report (failure : Failure) : String :=
  "Error: " ++ failure.context ++ causeReport failure.causes ++ "\n"

end Failure

/-! ## Runs -/

def helpText : String :=
  "guppy 0.1.0
parses guppy source and prints its syntax tree

USAGE:
    guppy [FLAGS] [OPTIONS] [--] [FILE]

FLAGS:
    -h, --help       Prints help information
    -s, --source     print canonical source instead of the tree
    -t, --tokens     print the token stream before the tree
    -V, --version    Prints version information

OPTIONS:
    -o, --operator <SYM:PREC[:left|right]>...    register or override a binary operator

ARGS:
    <FILE>    source file to parse, starts an interactive shell when omitted
"

def versionText : String := "guppy 0.1.0\n"

/-- Why a file could not be read as text. -/
inductive FileError where
  | system (reason : String) (code : Nat)
  | notText
deriving DecidableEq, Repr

def FileError.message : FileError → String
  | system reason code => s!"{reason} (os error {code})"
  | notText => "stream did not contain valid UTF-8"

/-- What a run leaves behind. A refused command line has no output of its own. -/
inductive Result where
  | refused
  | finished (exitCode : Nat) (output : ByteArray) (errors : String)

/-- The result of writing `output`, and of a failure behind it. -/
def Result.ofText (output : String) (failure : Option Failure) : Result :=
  match failure with
  | none => finished 0 output.toUTF8 ""
  | some failure => finished 1 output.toUTF8 failure.report

def insertSpec (table : OperatorTable) (spec : String) : Except Failure OperatorTable :=
  match Operator.ofSpec spec with
  | .ok op => .ok (table.insert op)
  | .error error => .error ⟨s!"invalid operator `{spec}`", [error.message]⟩

/-- The standard operators and the specified ones; the first wrong specification fails. -/
def operatorTable (specs : List String) : Except Failure OperatorTable :=
  specs.foldlM insertSpec .standard

/-- The failure of a file that is no program. -/
def rejection (path : String) (error : ParseError) : Failure :=
  ⟨s!"failed to parse {path}", error.message :: error.cause?.toList⟩

/-- The tree of a file's content, or why there is none. -/
def treeReport (settings : Settings) (grammar : Grammar) (path content : String) :
    String × Option Failure :=
  match grammar.parse content with
  | .parsed program =>
    ("AST:\n" ++ if settings.showSource then program.source else program.outline, none)
  | .needsMoreInput => ("", some ⟨s!"{path} ends in the middle of a statement", []⟩)
  | .rejected error => ("", some (rejection path error))

/-- What is written about a file's content. -/
def fileReport (settings : Settings) (grammar : Grammar) (path content : String) :
    String × Option Failure :=
  let source := "Source:\n" ++ Unicode.trimEnd content ++ "\n\n"
  let (tree, failure) := treeReport settings grammar path content
  if settings.showTokens then
    match scan content with
    | .ok scan => (source ++ "Tokens:\n" ++ scan.listing ++ "\n" ++ tree, failure)
    | .error error => (source ++ "Tokens:\n", some ⟨s!"failed to lex {path}", [error.message]⟩)
  else (source ++ tree, failure)

/-- The shell of a run without a file. -/
def Settings.shell (settings : Settings) (grammar : Grammar) : Shell where
  grammar := grammar
  showTokens := settings.showTokens
  showSource := settings.showSource

def Result.ofSession (session : Session) : Result :=
  match session.failure with
  | none => finished 0 session.sink.written ""
  | some failure => finished 1 session.sink.written (Failure.report ⟨failure.message, []⟩)

def runSettings (settings : Settings) (readFile : String → Except FileError String)
    (input : List UInt8) : Result :=
  match operatorTable settings.operators with
  | .error failure => .ofText "" failure
  | .ok operators =>
    let grammar : Grammar := { operators }
    match settings.file with
    | none => .ofSession ((settings.shell grammar).run {} (inputLines input))
    | some path =>
      match readFile path with
      | .error error => .ofText "" (some ⟨s!"failed to read {path}", [error.message]⟩)
      | .ok content =>
        let (output, failure) := fileReport settings grammar path content
        .ofText output failure

def execute (arguments : List String) (readFile : String → Except FileError String)
    (input : List UInt8) : Result :=
  match Request.ofArguments arguments with
  | .refused => .refused
  | .help => .ofText helpText none
  | .version => .ofText versionText none
  | .run settings => runSettings settings readFile input

end Fixity.CommandLine
