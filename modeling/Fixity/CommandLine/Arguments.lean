/-! # Command line arguments

Flags and options may stand anywhere up to an argument of two dashes; behind it everything is a
file. -/

namespace Fixity.CommandLine

/-- What the arguments ask for. -/
structure Settings where
  showTokens : Bool := false
  showSource : Bool := false
  operators : List String := []
  file : Option String := none
deriving DecidableEq, Repr

/-- What a command line comes to. -/
inductive Request where
  | help
  | version
  | run (settings : Settings)
  | refused
deriving DecidableEq, Repr

/-- The arguments read so far. -/
structure Given where
  tokens : Nat := 0
  source : Nat := 0
  operatorOption : Bool := false
  latestFirst : List String := []
  file : Option String := none
  awaitsOperator : Bool := false
  filesOnly : Bool := false
deriving DecidableEq, Repr

/-- What an argument leads to: more reading, or an answer without it. -/
inductive Reaction where
  | next (given : Given)
  | answer (request : Request)
deriving DecidableEq, Repr

namespace Given

/-- Takes the file, which may be given only once. -/
def takeFile (given : Given) (path : String) : Reaction :=
  if given.file.isSome then .answer .refused else .next { given with file := some path }

/-- Takes the value of an operator option. -/
def takeOperator (given : Given) (value : List Char) : Reaction :=
  .next { given with
    operatorOption := true, awaitsOperator := false
    latestFirst := .ofList value :: given.latestFirst }

/-- Takes an operator option whose value has not come yet. -/
def takeOperatorOption (given : Given) : Reaction :=
  .next { given with operatorOption := true, awaitsOperator := true }

/-- Takes a value written behind its option. -/
def takeAttached (given : Given) (value : List Char) : Reaction :=
  given.takeOperator (value.dropWhile (· == '='))

def takeTokens (given : Given) : Given :=
  { given with tokens := given.tokens + 1, awaitsOperator := false }

def takeSource (given : Given) : Given :=
  { given with source := given.source + 1, awaitsOperator := false }

/-- Reads a long flag, given without its dashes. A flag ignores a value that is attached to it. -/
def readLong (given : Given) (text : List Char) : Reaction :=
  let name := String.ofList (text.takeWhile (· != '='))
  if name = "tokens" then .next given.takeTokens
  else if name = "source" then .next given.takeSource
  else if name = "help" then .answer .help
  else if name = "version" then .answer .version
  else if name = "operator" then
    if text.contains '=' then given.takeAttached ((text.dropWhile (· != '=')).drop 1)
    else given.takeOperatorOption
  else .answer .refused

/-- Reads short flags. An operator option takes all that is left as its value; if nothing is left,
its value is still to come. -/
def readShort (given : Given) : List Char → Reaction
  | [] => .next given
  | c :: rest =>
    if c = 't' then given.takeTokens.readShort rest
    else if c = 's' then given.takeSource.readShort rest
    else if c = 'h' then .answer .help
    else if c = 'V' then .answer .version
    else if c = 'o' then
      if rest.isEmpty then given.takeOperatorOption else given.takeAttached rest
    else .answer .refused

def read (given : Given) (argument : String) : Reaction :=
  if given.filesOnly then given.takeFile argument
  else match argument.toList with
    | ['-', '-'] => .next { given with filesOnly := true }
    | '-' :: '-' :: rest => given.readLong (rest.dropWhile (· == '-'))
    | '-' :: c :: rest => given.readShort (c :: rest)
    | value => if given.awaitsOperator then given.takeOperator value else given.takeFile argument

/-- The request of all arguments together. A flag stands for itself once, and an option that is used
has a value somewhere. -/
def request (given : Given) : Request :=
  if 1 < given.tokens || 1 < given.source then .refused
  else if given.operatorOption && given.latestFirst.isEmpty then .refused
  else
    .run {
      showTokens := given.tokens == 1
      showSource := given.source == 1
      operators := given.latestFirst.reverse
      file := given.file }

def readAll (given : Given) : List String → Request
  | [] => given.request
  | argument :: rest =>
    match given.read argument with
    | .next given => given.readAll rest
    | .answer request => request

end Given

/-- What some arguments ask for. -/
def Request.ofArguments (arguments : List String) : Request := Given.readAll {} arguments

end Fixity.CommandLine
