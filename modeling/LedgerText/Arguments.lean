import LedgerText.Parse.State
import LedgerText.Text.Digits

/-!
# Command-line arguments

The words behind the name of the command are cut into items first: flags,
settings with their values, and the file. Then the items take effect from left
to right. The first item that cannot take effect stops the command.

A value that stands in a word of its own, and the file, are looked at together
with the word behind them: if that one is a fault, the fault is reported and not
the value.
-/

namespace LedgerText

/-- What the diagnostics are written as. -/
inductive Format where
  | text | json
  deriving DecidableEq, Repr

/-- What the command is asked to do. -/
structure Arguments where
  /-- The path of the ledger. -/
  file : String
  /-- Whether progress is reported as well. -/
  verbose : Bool := false
  /-- Whether nothing is reported in words. -/
  quiet : Bool := false
  format : Format := .text
  /-- Whether the directives are printed. -/
  print : Bool := false
  /-- The column in which printed amounts end. -/
  column : Nat := 60
  /-- Whether the first error ends the parse. -/
  strict : Bool := false
  maxDepth : Nat := 10000
  /-- Whether tokens that are passed over are reported. -/
  traceRecovery : Bool := false
  deriving DecidableEq, Repr

/-- How the ledger is to be parsed. -/
def Arguments.parseOptions (a : Arguments) : Parse.Options :=
  { filename := a.file
    maxDepth := a.maxDepth
    recovery := if a.strict then .abort else .resynchronize
    traceRecovery := a.traceRecovery }

/-- Why the command does not run. -/
inductive UsageStop where
  /-- The help was asked for. -/
  | help
  /-- The version was asked for. -/
  | version
  /-- An option that does not exist, or a second file. -/
  | unknownArgument
  /-- The same option twice. -/
  | repeatedOption
  /-- A value for a flag. -/
  | unwantedValue
  /-- A value that is missing, empty or not one of those that can be chosen. -/
  | invalidValue
  /-- A value that is no number. -/
  | invalidNumber
  | missingFile
  deriving DecidableEq, Repr

/-- The exit status of a command that does not run: success if help or version was asked for. -/
def UsageStop.exitStatus : UsageStop → Nat
  | .help => 0
  | .version => 0
  | _ => 2

/-- How the command is called. -/
def Arguments.usage : String :=
  "Usage: ledger-check [OPTIONS] <FILE>\n"

/-- The options of the command, a line for each. -/
def Arguments.help : String :=
  Arguments.usage ++ "\n" ++
    "  -v, --verbose         Report progress as well\n" ++
    "  -q, --quiet           Report nothing in words\n" ++
    "  -f, --format FORMAT   Write the diagnostics as text or json\n" ++
    "  -p, --print           Print the directives as ledger text\n" ++
    "      --column COLUMN   End printed amounts in this column\n" ++
    "      --strict          Stop at the first error\n" ++
    "      --max-depth N     Nest at most this many productions\n" ++
    "      --trace-recovery  Report the tokens that are passed over\n" ++
    "  -h, --help            Print help\n" ++
    "  -V, --version         Print the version\n"

/-- What a command that does not run says instead. -/
def UsageStop.message : UsageStop → String
  | .help => Arguments.help
  | .version => "ledger-check 0.1.0\n"
  | .unknownArgument => "error: unexpected argument\n" ++ Arguments.usage
  | .repeatedOption => "error: an option cannot be used twice\n" ++ Arguments.usage
  | .unwantedValue => "error: a flag takes no value\n" ++ Arguments.usage
  | .invalidValue => "error: a value is missing or cannot be chosen\n" ++ Arguments.usage
  | .invalidNumber => "error: a value is no number\n" ++ Arguments.usage
  | .missingFile => "error: no file was named\n" ++ Arguments.usage

namespace Arguments

/-! ## Options -/

/-- The options without a value. -/
inductive Flag where
  | verbose | quiet | print | strict | traceRecovery | help | version
  deriving DecidableEq, Repr

/-- The options with a value. -/
inductive Setting where
  | format | column | maxDepth
  deriving DecidableEq, Repr

/-- The flag with a name. -/
def Flag.ofName? : String → Option Flag
  | "verbose" => some .verbose
  | "quiet" => some .quiet
  | "print" => some .print
  | "strict" => some .strict
  | "trace-recovery" => some .traceRecovery
  | "help" => some .help
  | "version" => some .version
  | _ => none

/-- The flag with a letter. -/
def Flag.ofLetter? : Char → Option Flag
  | 'v' => some .verbose
  | 'q' => some .quiet
  | 'p' => some .print
  | 'h' => some .help
  | 'V' => some .version
  | _ => none

/-- The setting with a name. -/
def Setting.ofName? : String → Option Setting
  | "format" => some .format
  | "column" => some .column
  | "max-depth" => some .maxDepth
  | _ => none

/-- The setting with a letter. -/
def Setting.ofLetter? : Char → Option Setting
  | 'f' => some .format
  | _ => none

/-! ## Items -/

/-- What one or two words ask for. -/
inductive Item where
  | flag (flag : Flag)
  /-- A setting with a value in the same word. -/
  | attached (setting : Setting) (value : String)
  /-- A setting with a value in the next word, unless that is missing. -/
  | separate (setting : Setting) (value : Option String)
  | file (path : String)
  /-- A word that asks for nothing. -/
  | fault (stop : UsageStop)
  deriving DecidableEq, Repr

/-- The items of a word, and the setting at its end whose value is to follow. -/
structure Reading where
  items : List Item
  awaiting : Option Setting := none

/-- Reads a word of letters, behind its dash. What follows the letter of a setting is its value,
with an equals sign between them or without. -/
def readLetters : List Char → Reading
  | [] => { items := [] }
  | c :: rest =>
      match Flag.ofLetter? c, Setting.ofLetter? c with
      | some flag, _ =>
          let reading := readLetters rest
          { reading with items := .flag flag :: reading.items }
      | none, some setting =>
          match rest with
          | [] => { items := [], awaiting := some setting }
          | '=' :: value => { items := [.attached setting (String.ofList value)] }
          | value => { items := [.attached setting (String.ofList value)] }
      | none, none => { items := [.fault .unknownArgument] }

/-- Reads the name of an option, behind its two dashes, with the value behind an equals sign if
there is one. -/
def readName (body : List Char) : Reading :=
  let name := String.ofList (body.takeWhile (· != '='))
  match Flag.ofName? name, Setting.ofName? name, body.dropWhile (· != '=') with
  | some flag, _, [] => { items := [.flag flag] }
  | some _, _, _ => { items := [.fault .unwantedValue] }
  | none, some setting, [] => { items := [], awaiting := some setting }
  | none, some setting, _ :: value => { items := [.attached setting (String.ofList value)] }
  | none, none, _ => { items := [.fault .unknownArgument] }

/-- The setting whose value does not follow. -/
def unfinished (awaiting : Option Setting) : List Item :=
  awaiting.toList.map fun setting => .separate setting none

/-- The items of words none of which is an option. Only the first file is wanted. -/
def filesOf (hasFile : Bool) : List String → List Item
  | [] => []
  | word :: rest =>
      (if hasFile then .fault .unknownArgument else .file word) :: filesOf true rest

/-- The items of words. `hasFile` says whether the file has been named, and `awaiting` which setting
the next word may be the value of. Behind two dashes alone there are no options. -/
def itemsOf (hasFile : Bool) (awaiting : Option Setting) : List String → List Item
  | [] => unfinished awaiting
  | word :: rest =>
      match word.toList with
      | ['-', '-'] => unfinished awaiting ++ filesOf hasFile rest
      | '-' :: '-' :: body =>
          let reading := readName body
          unfinished awaiting ++ reading.items ++ itemsOf hasFile reading.awaiting rest
      | '-' :: c :: letters =>
          let reading := readLetters (c :: letters)
          unfinished awaiting ++ reading.items ++ itemsOf hasFile reading.awaiting rest
      | _ =>
          match awaiting with
          | some setting => .separate setting (some word) :: itemsOf hasFile none rest
          | none =>
              (if hasFile then .fault .unknownArgument else .file word) :: itemsOf true none rest

/-! ## Effects -/

/-- What the items so far have asked for. -/
structure Draft where
  flags : List Flag := []
  format : Option Format := none
  column : Option Nat := none
  maxDepth : Option Nat := none
  file : Option String := none

/-- Reads a format. -/
def readFormat : String → Except UsageStop Format
  | "text" => .ok .text
  | "json" => .ok .json
  | _ => .error .invalidValue

/-- Reads a number of 64 bits, with an optional plus sign. -/
def readNumber (value : String) : Except UsageStop Nat :=
  match Digits.signedNumber? value.toList with
  | some n => if n < Nat.pow 2 64 then .ok n else .error .invalidNumber
  | none => .error .invalidNumber

/-- Sets a value that has not been set before. -/
def once {α : Type} (current : Option α) (value : Except UsageStop α) :
    Except UsageStop (Option α) :=
  if current.isSome then .error .repeatedOption else value.map some

/-- Gives a setting its value. -/
def Draft.set (d : Draft) (setting : Setting) (value : String) : Except UsageStop Draft :=
  match setting with
  | .format => (once d.format (readFormat value)).map fun format => { d with format }
  | .column => (once d.column (readNumber value)).map fun column => { d with column }
  | .maxDepth => (once d.maxDepth (readNumber value)).map fun maxDepth => { d with maxDepth }

/-- Lets an item take effect. -/
def Draft.apply (d : Draft) : Item → Except UsageStop Draft
  | .flag .help => .error .help
  | .flag .version => .error .version
  | .flag flag =>
      if d.flags.contains flag then .error .repeatedOption
      else .ok { d with flags := flag :: d.flags }
  | .attached setting value => d.set setting value
  | .separate setting (some value) => d.set setting value
  | .separate _ none => .error .invalidValue
  | .file path => if path.isEmpty then .error .invalidValue else .ok { d with file := some path }
  | .fault stop => .error stop

/-- Whether an item is looked at together with the one behind it. -/
def Item.isDeferred : Item → Bool
  | .separate _ _ => true
  | .file _ => true
  | _ => false

/-- The fault that an item is. -/
def Item.fault? : Item → Option UsageStop
  | .fault stop => some stop
  | _ => none

/-- Lets items take effect from left to right. -/
def Draft.applyAll (d : Draft) : List Item → Except UsageStop Draft
  | [] => .ok d
  | item :: rest =>
      match item.isDeferred, rest.head?.bind Item.fault? with
      | true, some stop => .error stop
      | _, _ => do (← d.apply item).applyAll rest

/-- The arguments that were asked for, with the usual value for what was not. -/
def Draft.finish (d : Draft) : Except UsageStop Arguments :=
  match d.file with
  | none => .error .missingFile
  | some file =>
      .ok
        { file
          verbose := d.flags.contains .verbose
          quiet := d.flags.contains .quiet
          format := d.format.getD .text
          print := d.flags.contains .print
          column := d.column.getD 60
          strict := d.flags.contains .strict
          maxDepth := d.maxDepth.getD 10000
          traceRecovery := d.flags.contains .traceRecovery }

/-- Reads the words behind the name of the command. -/
def ofWords (words : List String) : Except UsageStop Arguments := do
  (← Draft.applyAll {} (itemsOf false none words)).finish

end Arguments

end LedgerText
