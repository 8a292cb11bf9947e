import LedgerText.Proofs.RoundTrip.Scanning
import Mathlib.Computability.Language

/-!
# The patterns of lexemes

Every kind of token has a pattern, a regular language over all characters. The
languages are built here from classes of characters and written words alone, by
sequence, choice and repetition, and say nothing about how a text is read.

A text of a pattern becomes a token where it is the longest of all patterns that
the input begins with. Numbers in groups are the exception: they take a comma
behind them along, which belongs to no number (`Pattern.IsTaken`).
-/

namespace LedgerText

open Lexeme
open scoped Computability

/-! ## Building blocks -/

namespace Pattern

/-- The texts of one character out of a class. -/
def one (s : Set Char) : Language Char := {text | ∃ c ∈ s, text = [c]}

/-- One text, as it is written. -/
def word (text : String) : Language Char := {text.toList}

/-- A text of the language, or none. -/
def maybe (L : Language Char) : Language Char := 1 + L

/-- One text of the language or more of them. -/
def several (L : Language Char) : Language Char := L * L∗

/-- The characters from one to another. -/
def upTo (first last : Char) : Set Char := {c | first ≤ c ∧ c ≤ last}

/-- The characters of a text. -/
def among (text : String) : Set Char := {c | c ∈ text.toList}

/-- Capital and small letters, and digits. -/
def alphanumeric : Set Char := upTo 'a' 'z' ∪ upTo 'A' 'Z' ∪ upTo '0' '9'

variable {s : Set Char} {L : Language Char} {text w : List Char}

theorem mem_one : w ∈ one s ↔ ∃ c ∈ s, w = [c] := Iff.rfl

theorem mem_word {written : String} : w ∈ word written ↔ w = written.toList := Iff.rfl

theorem mem_maybe : w ∈ maybe L ↔ w = [] ∨ w ∈ L := by
  rw [maybe, Language.mem_add, Language.mem_one]

/-- Texts of a class of characters are taken together. -/
theorem flatten_one {texts : List (List Char)} (h : ∀ t ∈ texts, t ∈ one s) :
    texts.flatten.length = texts.length ∧ ∀ c ∈ texts.flatten, c ∈ s := by
  induction texts with
  | nil => exact ⟨rfl, List.forall_mem_nil _⟩
  | cons t texts ih =>
      obtain ⟨c, hc, rfl⟩ := h t List.mem_cons_self
      obtain ⟨hLength, hAll⟩ := ih fun other hOther => h other (List.mem_cons_of_mem _ hOther)
      rw [List.flatten_cons, List.singleton_append]
      exact ⟨by rw [List.length_cons, List.length_cons, hLength],
        List.forall_mem_cons.2 ⟨hc, hAll⟩⟩

theorem exists_flatten (h : ∀ c ∈ w, c ∈ s) :
    ∃ texts : List (List Char), w = texts.flatten ∧ texts.length = w.length ∧
      ∀ t ∈ texts, t ∈ one s := by
  refine ⟨w.map ([·]), (List.flatMap_singleton' w).symm, List.length_map _, ?_⟩
  intro t ht
  obtain ⟨c, hc, rfl⟩ := List.mem_map.1 ht
  exact ⟨c, h c hc, rfl⟩

theorem mem_one_pow {n : Nat} : w ∈ one s ^ n ↔ w.length = n ∧ ∀ c ∈ w, c ∈ s := by
  rw [Language.mem_pow]
  constructor
  · rintro ⟨texts, rfl, rfl, hTexts⟩
    exact flatten_one hTexts
  · rintro ⟨rfl, hAll⟩
    exact exists_flatten hAll

theorem mem_one_kstar : w ∈ (one s)∗ ↔ ∀ c ∈ w, c ∈ s := by
  rw [Language.mem_kstar]
  constructor
  · rintro ⟨texts, rfl, hTexts⟩
    exact (flatten_one hTexts).2
  · intro hAll
    obtain ⟨texts, hText, -, hTexts⟩ := exists_flatten hAll
    exact ⟨texts, hText, hTexts⟩

theorem mem_several_one : w ∈ several (one s) ↔ w ≠ [] ∧ ∀ c ∈ w, c ∈ s := by
  rw [several, Language.mem_mul]
  constructor
  · rintro ⟨_, ⟨c, hc, rfl⟩, rest, hRest, rfl⟩
    exact ⟨List.cons_ne_nil _ _, List.forall_mem_cons.2 ⟨hc, mem_one_kstar.1 hRest⟩⟩
  · rintro ⟨hSome, hAll⟩
    obtain ⟨c, rest, rfl⟩ := List.exists_cons_of_ne_nil hSome
    obtain ⟨hc, hRest⟩ := List.forall_mem_cons.1 hAll
    exact ⟨[c], ⟨c, hc, rfl⟩, rest, mem_one_kstar.2 hRest, rfl⟩

/-! ## The patterns -/

/-- A decimal digit of any script. -/
def digit : Language Char := one {c | isDecimalDigit c = true}

/-- From one to three digits, and groups of three digits behind them, each with a comma. -/
def grouped : Language Char := (digit ^ 1 + digit ^ 2 + digit ^ 3) * (word "," * digit ^ 3)∗

/-- The numbers in groups that have no fraction. -/
def groupedNumber : Language Char := maybe (word "-") * grouped

end Pattern

/-- The patterns that lexemes are declared by. -/
inductive Pattern where
  | date | number | string | account | currency | tag | link
  | keyword (keyword : Keyword)
  | mark (mark : Mark)
  | star | pending | flag | newline | comment
  deriving DecidableEq

namespace Pattern

/-- The texts of a pattern. -/
def language : Pattern → Language Char
  | .date => digit ^ 4 * one (among "-/") * digit ^ 2 * one (among "-/") * digit ^ 2
  | .number => maybe (word "-") * (grouped + several digit) * maybe (word "." * several digit)
  | .string =>
      word "\"" * (one (among "\"\\")ᶜ + word "\\" * one (among "\n")ᶜ)∗ * word "\""
  | .account =>
      (word "Assets" + word "Liabilities" + word "Equity" + word "Income" + word "Expenses") *
        several (word ":" * one (upTo 'A' 'Z') * (one (alphanumeric ∪ among "-"))∗)
  | .currency =>
      one (upTo 'A' 'Z') * several (one (upTo 'A' 'Z' ∪ upTo '0' '9' ∪ among "\x27._-"))
  | .tag => word "#" * several (one (alphanumeric ∪ among "_/.-"))
  | .link => word "^" * several (one (alphanumeric ∪ among "_/.-"))
  | .keyword k => word k.text
  | .mark m => word m.text
  | .star => word "*"
  | .pending => word "!"
  | .flag => one (among "PSTCURM?%&")
  | .newline => maybe (word "\r") * word "\n"
  | .comment => word ";" * (one (among "\n\r")ᶜ)∗

/-- The kind of the tokens that a pattern is declared for. -/
def kind : Pattern → TokenKind
  | .date => .date
  | .number => .number
  | .string => .string
  | .account => .account
  | .currency => .currency
  | .tag => .tag
  | .link => .link
  | .keyword k => .keyword k
  | .mark m => .mark m
  | .star | .pending | .flag => .flag
  | .newline => .lineEnd
  | .comment => .comment

/-- The text belongs to one of the patterns. -/
def IsMatch (text : List Char) : Prop := ∃ pattern : Pattern, text ∈ pattern.language

/-- The longest text that matches a pattern and that the input begins with. -/
structure IsLongest (input text : List Char) : Prop where
  isPrefix : text <+: input
  isMatch : IsMatch text
  le : ∀ other, other <+: input → IsMatch other → other.length ≤ text.length

/-- What becomes a token where `text` is the longest match: the match, and if that is a number in
groups, the comma behind it. -/
structure IsTaken (input text body : List Char) : Prop extends IsLongest input text where
  taken : body = text ∧ ¬ (text ∈ groupedNumber ∧ text ++ [','] <+: input) ∨
    body = text ++ [','] ∧ text ∈ groupedNumber ∧ body <+: input

variable {c : Char}

theorem isUpper_iff : c.isUpper = true ↔ c ∈ upTo 'A' 'Z' := by
  rw [isUpper_iff_toNat]
  rfl

theorem isDigit_iff : c.isDigit = true ↔ c ∈ upTo '0' '9' := by
  rw [Char.isDigit_iff_toNat]
  rfl

theorem isAlphanum_iff : c.isAlphanum = true ↔ c ∈ alphanumeric := by
  have hLower : c.isLower = true ↔ c ∈ upTo 'a' 'z' := isLower_iff_toNat
  show (c.isUpper || c.isLower || c.isDigit) = true ↔ _
  rw [Bool.or_eq_true, Bool.or_eq_true, isDigit_iff, isUpper_iff, hLower]
  simp only [alphanumeric, Set.mem_union, or_comm]

theorem isAccountChar_iff : isAccountChar c = true ↔ c ∈ alphanumeric ∪ among "-" := by
  rw [isAccountChar, Bool.or_eq_true, isAlphanum_iff, beq_iff_eq, Set.mem_union, or_congr_right]
  exact List.mem_singleton.symm

theorem isCurrencyChar_iff :
    isCurrencyChar c = true ↔ c ∈ upTo 'A' 'Z' ∪ upTo '0' '9' ∪ among "\x27._-" := by
  rw [isCurrencyChar, Bool.or_eq_true, Bool.or_eq_true, isUpper_iff, isDigit_iff,
    List.contains_iff_mem, Set.mem_union, Set.mem_union, or_congr_right]
  simp [among, or_comm, or_left_comm]

theorem isTagChar_iff : isTagChar c = true ↔ c ∈ alphanumeric ∪ among "_/.-" := by
  rw [isTagChar, Bool.or_eq_true, isAlphanum_iff, List.contains_iff_mem]
  rfl

theorem isLineChar_iff : isLineChar c = true ↔ c ∈ (among "\n\r")ᶜ := by
  simp [isLineChar, among]

end Pattern

end LedgerText
