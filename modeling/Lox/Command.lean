/-
**The command line.**

* `Task`, `Command`, `Invocation` — what can be asked for: to list the tokens of a file, to show its
  syntax tree, to evaluate it as an expression, to run it as a program, or to run lines one after
  the other as they come in.
* `Report` — what a command writes and the code it ends with.
* `Task.report` — a task on what a file holds.
* `Prompt.respond`, `Prompt.transcript` — one line at the prompt, and all lines of an input.
-/

import Lox.Session
import Lox.Text.Utf8
import Lox.Token.Listing
import Lox.Tree.Text

namespace Lox

/-! ### Commands -/

/-- What can be done with a file. -/
inductive Task where
  /-- List its tokens, as plain text or as JSON. -/
  | tokenize (json : Bool)
  /-- Show its syntax tree. -/
  | parse
  /-- Evaluate it as an expression and show the value. -/
  | evaluate
  /-- Run it as a program. -/
  | run
deriving DecidableEq, Repr

/-- What can be asked for. -/
inductive Command where
  | onFile (task : Task) (file : String)
  /-- Run lines as they come in. -/
  | prompt
deriving DecidableEq, Repr

/-- A command, and whether a log file is asked for. -/
structure Invocation where
  command : Command
  log : Bool
deriving DecidableEq, Repr

/-- A task on a file, unless the name of the file looks like an option. -/
def Command.ofFile? (task : Task) (file : String) : Option Command :=
  if file.startsWith "-" && file != "-" then none else some (.onFile task file)

/-- The command that arguments ask for, the option for the log file left out. -/
def Command.ofArguments? : List String → Option Command
  | ["tokenize", "--json", file] => ofFile? (.tokenize true) file
  | ["tokenize", file, "--json"] => ofFile? (.tokenize true) file
  | ["tokenize", file] => ofFile? (.tokenize false) file
  | ["parse", file] => ofFile? .parse file
  | ["evaluate", file] => ofFile? .evaluate file
  | ["run", file] => ofFile? .run file
  | ["repl"] => some .prompt
  | _ => none

/-- What the arguments of the command line ask for. The option for the log file can stand
anywhere. -/
def Invocation.ofArguments? (arguments : List String) : Option Invocation :=
  (Command.ofArguments? (arguments.filter (· != "--log"))).map fun command =>
    ⟨command, arguments.contains "--log"⟩

/-! ### Reports -/

/-- What a command writes and the code it ends with. -/
structure Report where
  exitCode : Nat
  output : String
  errors : String
deriving DecidableEq, Repr

/-- Why there is no source text in a file. -/
inductive FileError where
  | missing
  | forbidden
  /-- It is a directory, or something else without bytes of its own. -/
  | notAFile
  /-- It cannot be read for another reason. -/
  | unreadable (reason : String)
  /-- What it holds is not UTF-8. -/
  | illFormed (place : Utf8.IllFormed)
deriving DecidableEq, Repr

/-- The reason, in words. -/
def FileError.message : FileError → String
  | .missing => "No such file or directory (os error 2)"
  | .forbidden => "Permission denied (os error 13)"
  | .notAFile => "No such device (os error 19)"
  | .unreadable reason => reason
  | .illFormed place => place.message

/-- The source text that bytes are. -/
def sourceText (bytes : List UInt8) : Except FileError String :=
  (Utf8.decode? bytes).mapError .illFormed

/-- Texts as lines. -/
def unlines (lines : List String) : String :=
  String.join (lines.map (· ++ "\n"))

/-! ### Tasks on a file -/

namespace Task

/-- The report of a run over a session: what it printed, then the value or the failure as a line. -/
def reportRun {α : Type} (show? : α → Option String) : Outcome Session Failure α → Option Report
  | .done value session =>
    some ⟨0, session.machine.output ++ unlines (show? value).toList, ""⟩
  | .failed failure session =>
    some ⟨failure.exitCode, session.machine.output, unlines [failure.text]⟩
  | .outOfFuel => none

/-- What a task makes of a source text; nothing if the fuel does not suffice. -/
def reportOn (fuel : Nat) (clock : Nat → Float) (source : String) : Task → Option Report
  | .tokenize json =>
    let bytes := Utf8.encode source
    let diagnostics := diagnosticsOf bytes
    some ⟨if diagnostics.isEmpty then 0 else 65,
      unlines ((tokensOf bytes).map fun token => if json then token.json else token.listed),
      unlines (diagnostics.map Diagnostic.text)⟩
  | .parse =>
    match (readProgram source 0).1 with
    | .ok program => some ⟨0, unlines [programText program], ""⟩
    | .error diagnostics =>
      some ⟨(Failure.static diagnostics).exitCode, "", unlines [reportText diagnostics]⟩
  | .evaluate =>
    reportRun (fun value => some value.text) (Session.evaluate fuel source (.start clock))
  | .run => reportRun (fun _ => none) (Session.run fuel source (.start clock))

/-- What a task makes of a file with this content; nothing if the fuel does not suffice. -/
def report (task : Task) (fuel : Nat) (clock : Nat → Float) (file : String)
    (content : Except FileError (List UInt8)) : Option Report :=
  match content.bind sourceText with
  | .ok source => task.reportOn fuel clock source
  | .error error => some ⟨74, "", unlines ["Failed to read " ++ file, error.message]⟩

end Task

/-! ### The prompt -/

namespace Prompt

/-- What is written before each line is read. -/
def mark : String :=
  "> "

/-- The answer to a line: what it writes, and the session for the next line. -/
structure Response where
  output : String
  errors : String
  session : Session

/-- What is written when a line is not UTF-8, which ends the input. -/
def unreadable : String :=
  "Error: Failed to read from stdin\n\nCaused by:\n    stream did not contain valid UTF-8\n"

/-- The answer to a line of source text. An error ends the line and not the session. -/
def respond (fuel : Nat) (source : String) (session : Session) : Option Response :=
  match Session.run fuel source session with
  | .done _ later => some ⟨later.machine.output, "", later.withoutOutput⟩
  | .failed failure later =>
    some ⟨later.machine.output, unlines [failure.text], later.withoutOutput⟩
  | .outOfFuel => none

/-- The lines of an input, each with its line end; the last one may have none. -/
def splitLines : List UInt8 → List (List UInt8)
  | [] => []
  | byte :: rest =>
    if byte == Byte.newline then [byte] :: splitLines rest
    else
      match splitLines rest with
      | [] => [[byte]]
      | line :: others => (byte :: line) :: others

/-- All that is written for lines that come in one after the other, up to the end of the input. -/
def transcript (fuel : Nat) (session : Session) : List (List UInt8) → Option Report
  | [] => some ⟨0, mark ++ "\n", ""⟩
  | line :: rest =>
    match Utf8.decode? line with
    | .error _ => some ⟨1, mark, unreadable⟩
    | .ok source => do
      let response ← respond fuel source session
      let report ← transcript fuel response.session rest
      return ⟨report.exitCode, mark ++ response.output ++ report.output,
        response.errors ++ report.errors⟩

end Prompt

end Lox
