import LedgerText.Builder

/-!
# The state of a parse

How a parse is set up, and what it has at each point: the tokens still to be
read, the one read last, how deep the productions are nested, the builder's own
state and the active tags, and the directives and errors so far.

The next token is always known. Where the tokens run out without one for the
end of the text, the text ends where the token read last does.
-/

namespace LedgerText.Parse

/-- What to do after an error in a statement. -/
inductive Recovery where
  /-- Pass over the rest of the statement and go on with the next one. -/
  | resynchronize
  /-- Stop. -/
  | abort
  deriving DecidableEq, Repr

/-- How a text is parsed. -/
structure Options where
  /-- The name of the text in the locations of its directives. -/
  filename : String := "<string>"
  /-- How many productions may be nested in each other. -/
  maxDepth : Nat := 10000
  recovery : Recovery := .resynchronize
  /-- Whether tokens that are passed over are reported. -/
  traceRecovery : Bool := false
  deriving DecidableEq, Repr

/-- Where a parse stands. -/
inductive Phase where
  | running
  /-- The end of the text was reached. -/
  | accepted
  /-- An error ended the parse. -/
  | aborted
  deriving DecidableEq, Repr

/-- What stays the same during a parse. -/
structure Setup (σ : Type) where
  builder : Builder σ
  options : Options

/-- What a parse has at a point. -/
structure State (σ : Type) where
  /-- The tokens still to be read. -/
  input : List Token
  /-- The token read last. -/
  previous : Option Token
  /-- The number of productions that have been begun and not finished. -/
  depth : Nat
  /-- The builder's own state. -/
  builder : σ
  tags : TagContext
  directives : List (Spanned Directive)
  /-- Errors and notes in the order in which they were reported. -/
  errors : List ParseError
  phase : Phase

namespace State

variable {σ : Type}

/-- The state before the first token. -/
def start (builder : σ) (tags : TagContext) (input : List Token) : State σ :=
  { input, previous := none, depth := 0, builder, tags, directives := [], errors := [],
    phase := .running }

/-- The span of the token read last. -/
def lastSpan (s : State σ) : Span :=
  match s.previous with
  | some token => token.span
  | none => .origin

/-- The next token. -/
def lookahead (s : State σ) : Token := s.input.headD (.endOfInput s.lastSpan.endPoint)

/-- Whether the next token is the first of its line. -/
def atLineStart (s : State σ) : Bool :=
  match s.previous with
  | some token => token.kind = .lineEnd
  | none => true

/-- The state behind the next token. -/
def next (s : State σ) : State σ := { s with input := s.input.tail, previous := some s.lookahead }

/-- Reports an error. -/
def report (s : State σ) (error : ParseError) : State σ :=
  { s with errors := s.errors ++ [error] }

/-- Ends the parse with an error. -/
def abort (s : State σ) (error : ParseError) : State σ :=
  { s.report error with phase := .aborted }

/-- A token that is not the end of the text is read once. -/
theorem next_input_lt {s : State σ} (h : s.lookahead.kind ≠ .endOfInput) :
    s.next.input.length < s.input.length := by
  cases hInput : s.input with
  | nil => simp [lookahead, hInput, Token.endOfInput, Token.bare] at h
  | cons token rest => simp [next, hInput]

/-- Reading a token does not bring tokens back. -/
theorem next_input_le (s : State σ) : s.next.input.length ≤ s.input.length := by
  simp [next]

end State

end LedgerText.Parse
