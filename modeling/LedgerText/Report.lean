import LedgerText.Json
import LedgerText.ParseError
import LedgerText.Place.Offset

/-!
# Reports

What a reader is told about the errors of a text: two lines for each, with the
message and the place, and one line at the end that counts them. Programs get
the same in JSON.
-/

namespace LedgerText

/-! ## Headlines -/

namespace ParseError

/-- The lines that report an error: its code and message, and where it is in a file. -/
def headline (file : String) (source : List Char) (e : ParseError) : String :=
  let place := Lines.locate (e.span.charRange source).start source
  "[" ++ e.code ++ "] " ++ (if e.problem.isError then "Error" else "Advice") ++ ": " ++
    e.message ++ "\n" ++ "at " ++ file ++ ":" ++ toString place.line ++ ":" ++
    toString place.column ++ "\n"

/-- Reports errors in the order in which they were found. -/
def headlines (file : String) (source : List Char) (errors : List ParseError) : String :=
  String.join (errors.map (headline file source))

/-! ## Diagnostics -/

/-- The report of an error for a program. -/
def diagnostic (file : String) (e : ParseError) : Json :=
  .object
    [("file", .text file),
     ("line", .nat e.span.start.line), ("column", .nat e.span.start.column),
     ("end_line", .nat e.span.stop.line), ("end_column", .nat e.span.stop.column),
     ("severity", .text (if e.problem.isError then "error" else "note")),
     ("code", .text e.code), ("message", .text e.message), ("label", .text e.problem.label)]

/-- The reports of errors for a program. -/
def diagnostics (file : String) (errors : List ParseError) : Json :=
  .list (errors.map (diagnostic file))

end ParseError

/-! ## Summaries -/

/-- How many errors there are, and how many notes beside them. -/
structure Summary where
  errors : Nat
  notes : Nat
  deriving DecidableEq, Repr

/-- Whether the sign in front of a summary has a colour, for a terminal. -/
inductive Style where
  | plain | coloured
  deriving DecidableEq, Repr

namespace Summary

/-- Counts reports. -/
def ofErrors (errors : List ParseError) : Summary :=
  ⟨ParseError.count errors, errors.length - ParseError.count errors⟩

/-- A number and what it counts. -/
def counted (n : Nat) (noun : String) : String :=
  toString n ++ " " ++ noun ++ (if n = 1 then "" else "s")

/-- Writes a sign, between the codes that switch its colour on and off. -/
def sign (style : Style) (colour sign : String) : String :=
  match style with
  | .plain => sign
  | .coloured => "\x1b[" ++ colour ++ "m" ++ sign ++ "\x1b[0m"

/-- Writes a summary: a green check mark, a red cross or a yellow warning sign, and the counts. -/
def toText (style : Style) (s : Summary) : String :=
  if s.errors = 0 ∧ s.notes = 0 then
    sign style "32" "\u2713" ++ " No errors found\n"
  else if s.errors = 0 then
    sign style "33" "\u26a0" ++ " " ++ counted s.notes "note" ++ "\n"
  else if s.notes = 0 then
    sign style "31" "\u2717" ++ " " ++ counted s.errors "error" ++ "\n"
  else
    sign style "31" "\u2717" ++ " " ++ counted s.errors "error" ++ ", " ++
      counted s.notes "note" ++ "\n"

end Summary

end LedgerText
