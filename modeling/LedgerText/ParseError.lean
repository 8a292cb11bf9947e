import LedgerText.Token

/-!
# Errors in a ledger

What can be wrong with a statement, and where. Two of the causes end the
reading of a text; the others cost at most the statement they are found in.
Notes on tokens that were passed over after an error are reported in the same
way, but do not count as errors.
-/

namespace LedgerText

/-- Why a value was refused. -/
inductive Refusal where
  /-- The text does not name a day of the calendar. -/
  | invalidDate (text : String)
  /-- The value was turned down, for the reason given. -/
  | rejected (reason : String)
  deriving DecidableEq, Repr

/-- Why a value was refused, in words. -/
def Refusal.message : Refusal → String
  | .invalidDate text => "invalid date '" ++ text ++ "'"
  | .rejected reason => reason

/-- What is wrong. -/
inductive Problem where
  /-- A token that cannot stand where it was found; `expected` lists the kinds that can. -/
  | unexpected (found : TokenKind) (expected : List TokenKind)
  | invalidValue (refusal : Refusal)
  /-- A token without the value that its kind calls for. -/
  | missingValue (kind : TokenKind)
  /-- A tag was switched off that was not on. -/
  | unbalancedPoptag (tag : String)
  /-- A token that was passed over after an error. -/
  | discardedToken (kind : TokenKind)
  /-- Nothing is set to go on after the error before. -/
  | recoveryExhausted
  /-- More productions are nested in each other than allowed. -/
  | stackExhausted (limit : Nat)
  deriving DecidableEq, Repr

namespace Problem

/-- A message lists the kinds that were expected unless there are more than this. -/
def maxListed : Nat := 4

/-- A problem in words. -/
def message : Problem → String
  | .unexpected found expected =>
      if maxListed < expected.length then
        "syntax error"
      else
        "syntax error, unexpected " ++ found.name ++
          (if expected.isEmpty then ""
            else ", expecting " ++ String.intercalate " or " (expected.map TokenKind.name))
  | .invalidValue refusal => refusal.message
  | .missingValue kind => "token " ++ kind.name ++ " carries no value"
  | .unbalancedPoptag tag => "attempting to pop absent tag '#" ++ tag ++ "'"
  | .discardedToken kind => "discarding " ++ kind.name ++ " during error recovery"
  | .recoveryExhausted => "syntax error: no statement to resume at"
  | .stackExhausted limit =>
      "parser stack exhausted: nesting exceeds " ++ toString limit ++ " frames"

/-- The number of a problem's kind. -/
def code : Problem → Nat
  | .unexpected .. => 1
  | .invalidValue _ => 2
  | .missingValue _ => 3
  | .unbalancedPoptag _ => 4
  | .discardedToken _ => 5
  | .recoveryExhausted => 6
  | .stackExhausted _ => 7

/-- A problem in few words, to stand beside the text it was found in. -/
def label : Problem → String
  | .unexpected .. => "unexpected token"
  | .invalidValue _ => "invalid value"
  | .missingValue _ => "malformed token"
  | .unbalancedPoptag _ => "tag was not pushed"
  | .discardedToken _ => "discarded"
  | .recoveryExhausted => "parsing stopped here"
  | .stackExhausted _ => "nesting too deep"

/-- Whether the text is not read any further. -/
def isFatal : Problem → Bool
  | .recoveryExhausted => true
  | .stackExhausted _ => true
  | _ => false

/-- Whether this is an error and not a note on a token passed over. -/
def isError : Problem → Bool
  | .discardedToken _ => false
  | _ => true

end Problem

/-- A problem and where it was found. -/
structure ParseError where
  problem : Problem
  span : Span
  deriving DecidableEq, Repr

namespace ParseError

/-- The error in words. -/
def message (e : ParseError) : String := e.problem.message

/-- The error's code, as it is printed: a letter and four digits. -/
def code (e : ParseError) : String :=
  "P" ++ String.ofList (Digits.padded 4 e.problem.code)

/-- How many of a list of reports are errors. -/
def count (errors : List ParseError) : Nat := errors.countP fun e => e.problem.isError

end ParseError

end LedgerText
