import Fixity.Shell.Basic

/-! # Sessions

A session runs a shell over an input until it is told to quit, the input ends or something fails. -/

namespace Fixity

/-! ## Lines of input -/

def newline : UInt8 := 10

def carriageReturn : UInt8 := 13

/-- The lines of some bytes with their ends, behind the part of a line that came before them. -/
def rawLinesFrom (latestFirst : List UInt8) : List UInt8 → List (List UInt8)
  | [] => if latestFirst.isEmpty then [] else [latestFirst.reverse]
  | byte :: rest =>
    if byte = newline then (byte :: latestFirst).reverse :: rawLinesFrom [] rest
    else rawLinesFrom (byte :: latestFirst) rest

/-- A line without its end. -/
def chomp (raw : List UInt8) : List UInt8 :=
  match raw.reverse with
  | [] => []
  | last :: before =>
    if last = newline then
      (if before.head? = some carriageReturn then before.drop 1 else before).reverse
    else raw

/-- The text of a line; bytes that are not UTF-8 have none. -/
def lineText? (raw : List UInt8) : Option String := String.fromUTF8? (chomp raw).toByteArray

/-- The texts of the lines of an input. -/
def inputLines (bytes : List UInt8) : List (Option String) := (rawLinesFrom [] bytes).map lineText?

/-! ## Output -/

/-- What has been written, and how many bytes may follow if there is a limit. -/
structure Sink where
  written : ByteArray := .empty
  room : Option Nat := none

/-- Writes a text, or as much of it as there is room for. -/
def Sink.write (sink : Sink) (text : String) : Except Sink Sink :=
  match sink.room with
  | none => .ok { sink with written := sink.written ++ text.toUTF8 }
  | some room =>
    if text.utf8ByteSize ≤ room then
      .ok ⟨sink.written ++ text.toUTF8, some (room - text.utf8ByteSize)⟩
    else .error ⟨sink.written ++ text.toUTF8.extract 0 room, some 0⟩

inductive SessionFailure where
  | sinkFull
  | inputNotText
deriving DecidableEq, Repr

def SessionFailure.message : SessionFailure → String
  | sinkFull => "sink is full"
  | inputNotText => "stream did not contain valid UTF-8"

/-- How a session ended. -/
structure Session where
  sink : Sink
  failure : Option SessionFailure
  shell : Shell

namespace Shell

/-- The line that ends a session, whatever white space is around it. -/
def isQuit (line : String) : Bool := Unicode.trim line = ":q"

/-- Ends a session that has nothing more to read. -/
def leave (shell : Shell) (sink : Sink) : Session :=
  match sink.write "\n" with
  | .ok sink => ⟨sink, none, shell⟩
  | .error sink => ⟨sink, some .sinkFull, shell⟩

/-- What a shell does about a line: it leaves, it cannot read it, or it has read it and settles once
the report is written. -/
inductive Turn where
  | leave
  | unreadable
  | report (text : String) (read settled : Shell)

/-- The turn of a shell that is given a line. -/
def turn (shell : Shell) : Option String → Turn
  | none => .unreadable
  | some line =>
    if isQuit line then .leave
    else
      let read := shell.append line
      .report (read.report read.outcome) read (read.settle read.outcome)

/-- Runs a session over the lines of an input. -/
def run (shell : Shell) (sink : Sink) (lines : List (Option String)) : Session :=
  match sink.write shell.prompt with
  | .error sink => ⟨sink, some .sinkFull, shell⟩
  | .ok sink =>
    match lines with
    | [] => shell.leave sink
    | line :: rest =>
      match shell.turn line with
      | .leave => shell.leave sink
      | .unreadable => ⟨sink, some .inputNotText, shell⟩
      | .report text read settled =>
        match sink.write text with
        | .ok sink => run settled sink rest
        | .error sink => ⟨sink, some .sinkFull, read⟩

end Shell

end Fixity
