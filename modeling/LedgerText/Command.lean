import LedgerText.Arguments
import LedgerText.Parse.Run
import LedgerText.Report
import LedgerText.Written

/-!
# The check command

Parses a ledger and tells what is wrong with it. What is printed goes to the
output and what is reported to the error output where the two would mix; the
exit status tells whether there were errors.
-/

namespace LedgerText

/-- What is stored under a path. -/
inductive Stored where
  | nothing
  /-- Something that cannot be read, for the reason given. -/
  | unreadable (reason : String)
  | bytes (data : ByteArray)

/-- A directory, which is not read like a file. -/
def Stored.directory : Stored := .unreadable "Is a directory (os error 21)"

/-- What a command leaves behind. -/
structure Outcome where
  exitStatus : Nat
  output : String
  errorOutput : String
  deriving DecidableEq, Repr

namespace Outcome

/-- A command that could not begin. -/
def failure (reason : String) : Outcome :=
  { exitStatus := 2, output := "", errorOutput := "error: " ++ reason ++ "\n" }

end Outcome

/-- The text that is stored under a path, or the reason why there is none. -/
def Stored.text (path : String) : Stored → Except String String
  | .nothing => .error ("file not found: " ++ path)
  | .unreadable reason => .error ("failed to read " ++ path ++ ": " ++ reason)
  | .bytes data =>
      match String.fromUTF8? data with
      | some source => .ok source
      | none => .error ("failed to read " ++ path ++ ": stream did not contain valid UTF-8")

namespace Arguments

variable {σ : Type}

/-- Whether a parse was ended by an error. -/
def aborted (s : Parse.State σ) : Bool := s.phase = .aborted

/-- The outcome of a parse for a program. -/
def json (a : Arguments) (s : Parse.State σ) : Json :=
  .object
    [("diagnostics", ParseError.diagnostics a.file s.errors),
     ("error_count", .nat (ParseError.count s.errors)),
     ("directive_count", .nat s.directives.length),
     ("aborted", .bool (aborted s))]

/-- The directives of a parse as ledger text. -/
def ledger (a : Arguments) (s : Parse.State σ) : String :=
  Directive.writtenAll { amountColumn := a.column } (s.directives.map Spanned.value)

/-- The line that is printed before a parse. -/
def opening (a : Arguments) : String :=
  if a.verbose ∧ !a.quiet then "Parsing " ++ a.file ++ "...\n" else ""

/-- The lines on how far a parse went. -/
def progress (a : Arguments) (s : Parse.State σ) : String :=
  if a.verbose then
    "Parsed " ++ toString s.directives.length ++ " directives\n" ++
      (if aborted s then "aborted\n" else "")
  else
    ""

/-- The outcome of a parse in words. -/
def report (a : Arguments) (style : Style) (source : String) (s : Parse.State σ) : String :=
  if a.quiet then
    ""
  else
    ParseError.headlines a.file source.toList s.errors ++ a.progress s ++
      (Summary.ofErrors s.errors).toText style

/-- Zero if a parse found no error, and one otherwise. -/
def exitStatus (s : Parse.State σ) : Nat :=
  if 0 < ParseError.count s.errors ∨ aborted s then 1 else 0

/-- Checks a ledger. -/
def checkText (a : Arguments) (style : Style) (source : String) : Outcome :=
  let s := Parse.text source a.parseOptions
  let report := a.report style source s
  match a.format, a.print with
  | .json, _ =>
      { exitStatus := exitStatus s
        output := (a.json s).pretty "" ++ "\n"
        errorOutput := a.opening }
  | .text, true =>
      { exitStatus := exitStatus s
        output := a.ledger s
        errorOutput := a.opening ++ report }
  | .text, false =>
      { exitStatus := exitStatus s
        output := report
        errorOutput := a.opening }

/-- Checks the ledger that is stored under the path of the arguments. -/
def check (a : Arguments) (style : Style) (stored : Stored) : Outcome :=
  match stored.text a.file with
  | .ok source => a.checkText style source
  | .error reason => .failure reason

end Arguments

end LedgerText
