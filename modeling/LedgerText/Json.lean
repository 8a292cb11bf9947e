/-!
# JSON values

JSON as far as it is needed here: numbers are whole. A value is written on one
line, or over several with each level indented by two spaces.
-/

namespace LedgerText

/-- A JSON value. -/
inductive Json where
  | null
  | bool (value : Bool)
  | int (value : Int)
  | text (value : String)
  | list (items : List Json)
  /-- Fields in the order in which they are written. -/
  | object (fields : List (String × Json))
  deriving Inhabited

namespace Json

/-- A natural number. -/
def nat (n : Nat) : Json := .int n

/-- A value, or null in its place. -/
def ofOption {α : Type} (write : α → Json) : Option α → Json
  | some a => write a
  | none => .null

/-! ## Writing -/

/-- Writes one character of a JSON string. Quotes, backslashes and control characters are escaped,
the usual ones by a letter and the others by their number. -/
def escapeChar : Char → List Char
  | '"' => ['\\', '"']
  | '\\' => ['\\', '\\']
  | '\x08' => ['\\', 'b']
  | '\x0c' => ['\\', 'f']
  | '\n' => ['\\', 'n']
  | '\r' => ['\\', 'r']
  | '\t' => ['\\', 't']
  | c =>
      if c.toNat < 0x20 then
        let digits := Nat.toDigits 16 c.toNat
        ['\\', 'u'] ++ List.replicate (4 - digits.length) '0' ++ digits
      else
        [c]

/-- Writes a JSON string. -/
def quoted (s : String) : String :=
  "\"" ++ String.ofList (s.toList.flatMap escapeChar) ++ "\""

/-- Puts items on lines of their own, one level further in, between brackets; nothing stands between
the brackets if there are no items. -/
def block (opening closing : String) (indent : String) (items : List String) : String :=
  if items.isEmpty then
    opening ++ closing
  else
    opening ++ "\n" ++
      String.intercalate ",\n" (items.map fun item => indent ++ "  " ++ item) ++
      "\n" ++ indent ++ closing

mutual

/-- Writes a value over several lines; `indent` is what its lines begin with from the second on. -/
def pretty (indent : String) : Json → String
  | .null => "null"
  | .bool value => if value then "true" else "false"
  | .int value => toString value
  | .text value => quoted value
  | .list items => block "[" "]" indent (prettyItems (indent ++ "  ") items)
  | .object fields => block "\x7b" "\x7d" indent (prettyFields (indent ++ "  ") fields)

/-- Writes the items of a list. -/
def prettyItems (indent : String) : List Json → List String
  | [] => []
  | item :: rest => pretty indent item :: prettyItems indent rest

/-- Writes the fields of an object. -/
def prettyFields (indent : String) : List (String × Json) → List String
  | [] => []
  | (name, value) :: rest =>
      (quoted name ++ ": " ++ pretty indent value) :: prettyFields indent rest

end

mutual

/-- Writes a value on one line, without blanks. -/
def compact : Json → String
  | .null => "null"
  | .bool value => if value then "true" else "false"
  | .int value => toString value
  | .text value => quoted value
  | .list items => "[" ++ String.intercalate "," (compactItems items) ++ "]"
  | .object fields => "\x7b" ++ String.intercalate "," (compactFields fields) ++ "\x7d"

/-- Writes the items of a list on one line. -/
def compactItems : List Json → List String
  | [] => []
  | item :: rest => compact item :: compactItems rest

/-- Writes the fields of an object on one line. -/
def compactFields : List (String × Json) → List String
  | [] => []
  | (name, value) :: rest => (quoted name ++ ":" ++ compact value) :: compactFields rest

end

/-! ## Reading parts of a value -/

/-- A field of an object. -/
def field? (name : String) : Json → Option Json
  | .object fields => fields.lookup name
  | _ => none

/-- A record with fields of the given names: an object, or the list of all fields in that order. -/
def record (names : List String) : Json → Json
  | .list items => if items.length = names.length then .object (names.zip items) else .list items
  | json => json

/-- Reads a field of an object, which has to be there. -/
def read {α : Type} (name : String) (reader : Json → Option α) (json : Json) : Option α := do
  reader (← json.field? name)

/-- Reads a field of an object that may be null or left out. -/
def readOptional {α : Type} (name : String) (reader : Json → Option α) :
    Json → Option (Option α)
  | .object fields =>
      match fields.lookup name with
      | none => some none
      | some .null => some none
      | some value => (reader value).map some
  | _ => none

/-- The text of a string. -/
def text? : Json → Option String
  | .text value => some value
  | _ => none

/-- A truth value. -/
def bool? : Json → Option Bool
  | .bool value => some value
  | _ => none

/-- A number of 32 bits. -/
def word? : Json → Option Nat
  | .int value => if 0 ≤ value ∧ value < (Nat.pow 2 32 : Nat) then some value.toNat else none
  | _ => none

/-- A number of 64 bits. -/
def size? : Json → Option Nat
  | .int value => if 0 ≤ value ∧ value < (Nat.pow 2 64 : Nat) then some value.toNat else none
  | _ => none

/-- The character of a string of length one. -/
def char? : Json → Option Char
  | .text value =>
      match value.toList with
      | [c] => some c
      | _ => none
  | _ => none

/-- The items of a list, all read alike. -/
def list? {α : Type} (reader : Json → Option α) : Json → Option (List α)
  | .list items => items.mapM reader
  | _ => none

end Json

end LedgerText
