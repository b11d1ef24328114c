/-
**The program.**

Reads the arguments, the file and the standard input, and writes what the library says. Evaluation
has so much fuel that no program can use it up.
-/

import Lox.Command
import Std.Time.DateTime.Timestamp

namespace Lox.Program

/-- Fuel that no program can use up. -/
def fuel : Nat :=
  twoTo 62

/-- A clock that starts at the present time and goes on by a millisecond whenever it is asked. -/
def clock : IO (Nat → Float) := do
  let now ← Std.Time.Timestamp.now
  return fun tick => Float.ofInt (now.toMillisecondsSinceUnixEpoch.val + tick) / 1000

/-- Why a file cannot be read. -/
def fileError : IO.Error → FileError
  | .noFileOrDirectory .. => .missing
  | .permissionDenied .. => .forbidden
  | .inappropriateType .. => .notAFile
  | error => .unreadable (toString error)

/-- The bytes of a file, or why there are none. -/
def content (file : String) : IO (Except FileError (List UInt8)) := do
  try
    let bytes ← IO.FS.readBinFile file
    return .ok bytes.data.toList
  catch error =>
    return .error (fileError error)

/-- Writes a report, and gives its exit code. -/
def write (report? : Option Report) : IO UInt32 := do
  match report? with
  | none => return 1
  | some report =>
    let output ← IO.getStdout
    let errors ← IO.getStderr
    output.putStr report.output
    output.flush
    errors.putStr report.errors
    return UInt32.ofNat report.exitCode

/-- The next line of the standard input with its line end; empty at the end of the input. -/
partial def readLine (input : IO.FS.Stream) (line : ByteArray) : IO ByteArray := do
  let bytes ← input.read 1
  if bytes.isEmpty then return line
  let line := line ++ bytes
  if bytes.data.contains Byte.newline then return line
  readLine input line

/-- Answers lines until the input ends, or until one is not text. -/
partial def prompt (session : Session) : IO UInt32 := do
  let output ← IO.getStdout
  output.putStr Prompt.mark
  output.flush
  let line ← readLine (← IO.getStdin) .empty
  if line.isEmpty then
    output.putStr "\n"
    return 0
  match Utf8.decode? line.data.toList with
  | .error _ =>
    (← IO.getStderr).putStr Prompt.unreadable
    return 1
  | .ok source =>
    match Prompt.respond fuel source session with
    | none => return 1
    | some response =>
      output.putStr response.output
      output.flush
      (← IO.getStderr).putStr response.errors
      prompt response.session

end Lox.Program

/-- Runs the command that the arguments ask for. -/
def main (arguments : List String) : IO UInt32 := do
  match Lox.Invocation.ofArguments? arguments with
  | none =>
    IO.eprintln
      "Usage: lox [--log] (tokenize [--json] | parse | evaluate | run) FILE, or lox [--log] repl"
    return 2
  | some invocation =>
    if invocation.log then
      IO.FS.writeFile "app.log" ""
    let clock ← Lox.Program.clock
    match invocation.command with
    | .onFile task file =>
      Lox.Program.write (task.report Lox.Program.fuel clock file (← Lox.Program.content file))
    | .prompt => Lox.Program.prompt (.start clock)
