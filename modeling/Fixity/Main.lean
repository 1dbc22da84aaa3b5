import Fixity.CommandLine.Execute

/-! # The program

Files and the standard streams, around what a command line means. -/

namespace Fixity.CommandLine

/-- The failure with a code, which some calls give with its sign turned. -/
def FileError.ofCode (code : UInt32) (reason : String) : FileError :=
  let number := min code.toNat (0 - code).toNat
  match number with
  | 2 => .system "No such file or directory" number
  | 13 => .system "Permission denied" number
  | 20 => .system "Not a directory" number
  | 21 => .system "Is a directory" number
  | 36 => .system "File name too long" number
  | _ => .system reason number

/-- The reason that the system gives for a failure. -/
def FileError.ofSystem : IO.Error → FileError
  | .noFileOrDirectory _ code reason | .permissionDenied _ code reason
  | .inappropriateType _ code reason | .invalidArgument _ code reason
  | .resourceExhausted _ code reason | .noSuchThing _ code reason
  | .otherError code reason => .ofCode code reason
  | error => .system (toString error) 0

def readText (path : String) : IO (Except FileError String) := do
  try
    match String.fromUTF8? (← IO.FS.readBinFile path) with
    | some content => return .ok content
    | none => return .error .notText
  catch error => return .error (.ofSystem error)

/-- Reads up to the end of a line or of the input. -/
partial def readLine (input : IO.FS.Stream) (latestFirst : List UInt8) : IO (List UInt8) := do
  match (← input.read 1).toList with
  | [] => return latestFirst.reverse
  | byte :: _ =>
    if byte = newline then return (byte :: latestFirst).reverse
    else readLine input (byte :: latestFirst)

/-- Writes what a run leaves behind. -/
def Result.deliver : Result → IO UInt32
  | refused => do
    (← IO.getStderr).putStr ("error: these arguments cannot be used\n\n" ++ helpText)
    return 1
  | finished code output errors => do
    (← IO.getStdout).write output
    (← IO.getStderr).putStr errors
    return .ofNat code

/-- Takes turns with whoever types the lines. -/
partial def converse (shell : Shell) (input output : IO.FS.Stream) : IO UInt32 := do
  output.putStr shell.prompt
  output.flush
  match ← readLine input [] with
  | [] => Result.deliver (.ofSession (shell.leave {}))
  | raw =>
    match shell.turn (lineText? raw) with
    | .leave => Result.deliver (.ofSession (shell.leave {}))
    | .unreadable => Result.deliver (.ofSession ⟨{}, some .inputNotText, shell⟩)
    | .report text _ settled =>
      output.putStr text
      converse settled input output

end Fixity.CommandLine

open Fixity.CommandLine in
def main (arguments : List String) : IO UInt32 := do
  match Request.ofArguments arguments with
  | .run settings =>
    match settings.file, operatorTable settings.operators with
    | none, .ok operators =>
      converse (settings.shell { operators }) (← IO.getStdin) (← IO.getStdout)
    | path, _ =>
      let content ← readText (path.getD "")
      (execute arguments (fun _ => content) []).deliver
  | _ => (execute arguments (fun _ => .error .notText) []).deliver
