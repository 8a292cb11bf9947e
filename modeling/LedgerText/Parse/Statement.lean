import LedgerText.Parse.Step

/-!
# The grammar of statements

One step for each production of the grammar, which stands above it:

* small letters name productions, capital letters kinds of tokens;
* a production in brackets may be left out, and a star repeats one.

A production that fails lists the kinds of tokens that could have stood at the
place where it failed. Productions that take up a level of nesting run inside
`nested`; each of them hands its value to the builder.
-/

namespace LedgerText.Parse

open Step

variable {σ : Type}

/-- `eol := EOL | INDENT [EOL] | COMMENT [EOL]`

`also` lists the kinds that could have stood here in place of the line end. -/
def lineEnd (also : List TokenKind) : Step σ Unit := do
  match ← peek with
  | .lineEnd => skip
  | .indent => do
      skip
      skipIf .lineEnd
  | .comment => do
      skip
      skipIf .lineEnd
  | _ => unexpected (also ++ [.lineEnd, .indent, .comment])

/-- The number that the next token carries, which has to be a number. -/
def number : Step σ Decimal := do
  let token ← take .number [.number]
  match token.value with
  | .number number => pure number
  | _ => missing token

/-- The flag of the next token: a flag, or `txn`, which means a star. -/
def flag : Step σ Char := do
  let token ← advance
  match token.kind, token.value with
  | .keyword .txn, _ => pure '*'
  | .flag, .char c => pure c
  | _, _ => missing token

/-- The day that a token names. -/
def day (setup : Setup σ) (token : Token) : Step σ Date := do
  let text ← textOf token
  review token.span (setup.builder.date text)

/-- `amount := NUMBER CURRENCY` -/
def amount (setup : Setup σ) : Step σ Amount := nested setup do
  let start ← here
  let number ← number
  let currency ← takeText .currency [.currency]
  reviewFrom start (setup.builder.amount ⟨number, currency⟩)

/-- `lot_date := [SLASH DATE]`, in front of a closing brace -/
def lotDate (setup : Setup σ) : Step σ (Option Date) := do
  match ← peek with
  | .mark .slash => do
      skip
      let token ← take .date [.date]
      let date ← day setup token
      pure (some date)
  | .mark .rightBrace => pure none
  | _ => unexpected [.mark .slash, .mark .rightBrace]

/-- `lot_cost := LCURL amount lot_date RCURL` -/
def lotCost (setup : Setup σ) : Step σ LotCost := nested setup do
  let start ← here
  skip
  let cost ← amount setup
  let date ← lotDate setup
  let _ ← take (.mark .rightBrace) [.mark .rightBrace]
  reviewFrom start (setup.builder.lotCost ⟨cost, date⟩)

/-- `position := amount [lot_cost]` -/
def position (setup : Setup σ) : Step σ Position := nested setup do
  let start ← here
  let units ← amount setup
  let cost ← whenNext (.mark .leftBrace) (lotCost setup)
  reviewFrom start (setup.builder.position ⟨units, cost⟩)

/-- What a posting line says behind the account. -/
structure Movement where
  position : Option Position
  price : Option Amount
  priceIsTotal : Bool

/-- `price_tag := (AT | ATAT) amount eol`, behind a position -/
def priceTag (setup : Setup σ) (position : Position) (total : Bool) : Step σ Movement := do
  skip
  let price ← amount setup
  lineEnd []
  pure ⟨some position, some price, total⟩

/-- `movement := [position [price_tag]] eol` -/
def movement (setup : Setup σ) : Step σ Movement := do
  match ← peek with
  | .number => do
      let position ← position setup
      match ← peek with
      | .mark .singleAt => priceTag setup position false
      | .mark .doubleAt => priceTag setup position true
      | _ => do
          let lot := if position.cost.isSome then [] else [.mark .leftBrace]
          lineEnd (lot ++ [.mark .singleAt, .mark .doubleAt])
          pure ⟨some position, none, false⟩
  | _ => do
      lineEnd [.number]
      pure ⟨none, none, false⟩

/-- `posting := INDENT [FLAG] ACCOUNT movement` -/
def posting (setup : Setup σ) : Step σ Posting := nested setup do
  let start ← here
  skip
  let flag ← whenNext .flag flag
  let account ← takeText .account (if flag.isSome then [.account] else [.flag, .account])
  let moved ← movement setup
  reviewFrom start (setup.builder.posting
    ⟨flag, account, moved.position, moved.price, moved.priceIsTotal⟩)

/-! ## Progress of postings -/

theorem forward_lineEnd (also : List TokenKind) : Forward (lineEnd also : Step σ Unit) := by
  refine forward_bind forward_peek fun kind => ?_
  split
  · exact forward_skip
  · exact forward_bind forward_skip fun _ => forward_skipIf _
  · exact forward_bind forward_skip fun _ => forward_skipIf _
  · exact forward_unexpected _

theorem forward_number : Forward (number : Step σ Decimal) := by
  refine forward_bind (forward_take _ _) fun token => ?_
  split
  · exact forward_pure _
  · exact forward_fail _

theorem forward_flag : Forward (flag : Step σ Char) := by
  refine forward_bind forward_advance fun token => ?_
  split
  · exact forward_pure _
  · exact forward_pure _
  · exact forward_fail _

theorem forward_day (setup : Setup σ) (token : Token) : Forward (day setup token) :=
  forward_bind (forward_textOf token) fun _ => forward_review _ _

theorem forward_amount (setup : Setup σ) : Forward (amount setup) :=
  forward_nested setup <| forward_bind forward_here fun _ =>
    forward_bind forward_number fun _ =>
      forward_bind (forward_takeText _ _) fun _ => forward_reviewFrom _ _

theorem forward_lotDate (setup : Setup σ) : Forward (lotDate setup) := by
  refine forward_bind forward_peek fun kind => ?_
  split
  · exact forward_bind forward_skip fun _ => forward_bind (forward_take _ _) fun token =>
      forward_bind (forward_day setup token) fun _ => forward_pure _
  · exact forward_pure _
  · exact forward_unexpected _

theorem forward_lotCost (setup : Setup σ) : Forward (lotCost setup) :=
  forward_nested setup <| forward_bind forward_here fun _ =>
    forward_bind forward_skip fun _ =>
      forward_bind (forward_amount setup) fun _ =>
        forward_bind (forward_lotDate setup) fun _ =>
          forward_bind (forward_take _ _) fun _ => forward_reviewFrom _ _

theorem forward_position (setup : Setup σ) : Forward (position setup) :=
  forward_nested setup <| forward_bind forward_here fun _ =>
    forward_bind (forward_amount setup) fun _ =>
      forward_bind (forward_whenNext _ (forward_lotCost setup)) fun _ => forward_reviewFrom _ _

theorem forward_priceTag (setup : Setup σ) (position : Position) (total : Bool) :
    Forward (priceTag setup position total) :=
  forward_bind forward_skip fun _ => forward_bind (forward_amount setup) fun _ =>
    forward_bind (forward_lineEnd _) fun _ => forward_pure _

theorem forward_movement (setup : Setup σ) : Forward (movement setup) := by
  refine forward_bind forward_peek fun kind => ?_
  split
  · refine forward_bind (forward_position setup) fun position => ?_
    refine forward_bind forward_peek fun next => ?_
    split
    · exact forward_priceTag setup position false
    · exact forward_priceTag setup position true
    · exact forward_bind (forward_lineEnd _) fun _ => forward_pure _
  · exact forward_bind (forward_lineEnd _) fun _ => forward_pure _

/-- What a posting reads behind its indent. -/
theorem strict_posting (setup : Setup σ) : Strict (posting setup) :=
  strict_nested setup <| strict_here_bind fun _ => strict_skip_bind fun _ =>
    forward_bind (forward_whenNext _ forward_flag) fun _ =>
      forward_bind (forward_takeText _ _) fun _ =>
        forward_bind (forward_movement setup) fun _ => forward_reviewFrom _ _

theorem forward_posting (setup : Setup σ) : Forward (posting setup) :=
  forward_nested setup <| forward_bind forward_here fun _ =>
    forward_bind forward_skip fun _ =>
      forward_bind (forward_whenNext _ forward_flag) fun _ =>
        forward_bind (forward_takeText _ _) fun _ =>
          forward_bind (forward_movement setup) fun _ => forward_reviewFrom _ _

/-- A line end that is read has at least one token. -/
theorem consumes_lineEnd (also : List TokenKind) : Consumes (lineEnd also : Step σ Unit) := by
  refine consumes_peek_bind fun kind => ?_
  split
  · exact strict_skip.consumes
  · exact (strict_skip_bind fun _ => forward_skipIf _).consumes
  · exact (strict_skip_bind fun _ => forward_skipIf _).consumes
  · exact consumes_unexpected _

/-! ## Transactions -/

/-- Whether the next token is of a kind. -/
def comesNext (kind : TokenKind) (s : State σ) : Bool := s.lookahead.kind = kind

theorem comesNext_ne {kind : TokenKind} (h : kind ≠ .endOfInput) (s : State σ)
    (hs : comesNext kind s) : s.lookahead.kind ≠ .endOfInput := by
  simp only [comesNext, decide_eq_true_eq] at hs
  exact hs ▸ h

/-- The texts of as many tokens of a kind as come next. -/
def texts (kind : TokenKind) (h : kind ≠ .endOfInput) : Step σ (List String) :=
  repeatWhile (comesNext kind) (takeText kind [kind]) (comesNext_ne h) (consumes_takeText _ _)

/-- Whether the next token begins a line of a transaction: a posting, or a comment of its own. -/
def postingAhead (s : State σ) : Bool :=
  s.lookahead.kind = .indent ∨ s.lookahead.kind = .comment ∧ s.atLineStart

theorem postingAhead_ne (s : State σ) (hs : postingAhead s) :
    s.lookahead.kind ≠ .endOfInput := by
  simp only [postingAhead, decide_eq_true_eq] at hs
  rcases hs with hKind | hKind
  · simp [hKind]
  · simp [hKind.1]

/-- `posting_line := posting | COMMENT [EOL]` -/
def postingLine (setup : Setup σ) : Step σ (Option Posting) := do
  match ← peek with
  | .indent => do
      let posting ← posting setup
      pure (some posting)
  | _ => do
      lineEnd []
      pure none

theorem forward_postingLine (setup : Setup σ) : Forward (postingLine setup) := by
  refine forward_bind forward_peek fun kind => ?_
  split
  · exact forward_bind (forward_posting setup) fun _ => forward_pure _
  · exact forward_bind (forward_lineEnd _) fun _ => forward_pure _

theorem consumes_postingLine (setup : Setup σ) : Consumes (postingLine setup) := by
  refine consumes_peek_bind fun kind => ?_
  split
  · exact consumes_bind (strict_posting setup).consumes fun _ => forward_pure _
  · exact consumes_bind (consumes_lineEnd _) fun _ => forward_pure _

/-- `posting_lines := posting_line*` -/
def postingLines (setup : Setup σ) : Step σ (List Posting) := do
  let lines ← repeatWhile postingAhead (postingLine setup) postingAhead_ne
    (consumes_postingLine setup)
  pure (lines.filterMap id)

/-- What a transaction is called: a payee, if it has one, and a narration. -/
structure Title where
  payee : Option String
  narration : String

/-- `title := STRING [[PIPE] STRING]` -/
def title : Step σ Title := do
  let first ← takeText .string [.string]
  match ← peek with
  | .mark .pipe => do
      skip
      let narration ← takeText .string [.string]
      pure ⟨some first, narration⟩
  | .string => do
      let narration ← takeText .string [.string]
      pure ⟨some first, narration⟩
  | _ => pure ⟨none, first⟩

/-- The kinds that can follow on the line of a transaction. -/
def titleFollow (title : Title) (links : List String) : List TokenKind :=
  (if title.payee.isNone then [.mark .pipe, .string] else []) ++
    (if links.isEmpty then [.tag] else []) ++ [.link]

/-- What the productions behind the date of a statement know of it. -/
structure Heading where
  start : Span
  location : Location

/-- Hands a statement to the builder, with the tags that are active. -/
def conclude (setup : Setup σ) (heading : Heading) (content : Content) : Step σ Directive :=
  fun s =>
    reviewFrom heading.start
      (setup.builder.directive s.tags ⟨content, heading.location⟩) s

/-- `transaction := (TXN | FLAG) title TAG* LINK* eol posting_lines` -/
def transaction (setup : Setup σ) (heading : Heading) (date : Date) : Step σ Directive :=
  nested setup do
    let flag ← flag
    let title ← title
    let tags ← texts .tag (by decide)
    let links ← texts .link (by decide)
    lineEnd (titleFollow title links)
    let postings ← postingLines setup
    conclude setup heading
      (.transaction ⟨date, flag, title.payee, title.narration, tags, links, postings⟩)

/-! ## Other statements -/

/-- `listed := CURRENCY [COMMA]`, where a comma has another currency behind it -/
def listedCurrency : Step σ String := do
  let currency ← takeText .currency [.currency]
  match ← peek with
  | .mark .comma => do
      skip
      match ← peek with
      | .currency => pure currency
      | _ => unexpected [.currency]
  | _ => pure currency

theorem forward_comma (currency : String) : Forward (do
    match ← peek with
    | .mark .comma => do
        skip
        match ← peek with
        | .currency => pure currency
        | _ => unexpected [.currency]
    | _ => pure currency : Step σ String) := by
  refine forward_bind forward_peek fun kind => ?_
  split
  · refine forward_bind forward_skip fun _ => forward_bind forward_peek fun next => ?_
    split
    · exact forward_pure _
    · exact forward_unexpected _
  · exact forward_pure _

theorem forward_listedCurrency : Forward (listedCurrency : Step σ String) :=
  forward_bind (forward_takeText _ _) forward_comma

theorem consumes_listedCurrency : Consumes (listedCurrency : Step σ String) :=
  consumes_bind (consumes_takeText _ _) forward_comma

/-- `currencies := [CURRENCY ([COMMA] CURRENCY)*]` -/
def currencies : Step σ (List String) :=
  repeatWhile (comesNext .currency) listedCurrency (comesNext_ne (by decide))
    consumes_listedCurrency

/-- `open := OPEN ACCOUNT currencies eol` -/
def opening (setup : Setup σ) (heading : Heading) (date : Date) : Step σ Directive := do
  skip
  let account ← takeText .account [.account]
  let currencies ← currencies
  lineEnd (if currencies.isEmpty then [.currency] else [.mark .comma, .currency])
  conclude setup heading (.opening date account currencies)

/-- `close := CLOSE ACCOUNT eol` -/
def closing (setup : Setup σ) (heading : Heading) (date : Date) : Step σ Directive := do
  skip
  let account ← takeText .account [.account]
  lineEnd []
  conclude setup heading (.closing date account)

/-- `pad := PAD ACCOUNT ACCOUNT eol` -/
def pad (setup : Setup σ) (heading : Heading) (date : Date) : Step σ Directive := do
  skip
  let account ← takeText .account [.account]
  let source ← takeText .account [.account]
  lineEnd []
  conclude setup heading (.pad date account source)

/-- `check := CHECK ACCOUNT amount eol` -/
def check (setup : Setup σ) (heading : Heading) (date : Date) : Step σ Directive := do
  skip
  let account ← takeText .account [.account]
  let amount ← amount setup
  lineEnd []
  conclude setup heading (.balance date account amount)

/-- `price := PRICE CURRENCY amount eol` -/
def price (setup : Setup σ) (heading : Heading) (date : Date) : Step σ Directive := do
  skip
  let currency ← takeText .currency [.currency]
  let amount ← amount setup
  lineEnd []
  conclude setup heading (.price date currency amount)

/-- `event := EVENT STRING STRING eol` -/
def event (setup : Setup σ) (heading : Heading) (date : Date) : Step σ Directive := do
  skip
  let topic ← takeText .string [.string]
  let description ← takeText .string [.string]
  lineEnd []
  conclude setup heading (.event date topic description)

/-- `note := NOTE ACCOUNT STRING eol` -/
def note (setup : Setup σ) (heading : Heading) (date : Date) : Step σ Directive := do
  skip
  let account ← takeText .account [.account]
  let comment ← takeText .string [.string]
  lineEnd []
  conclude setup heading (.note date account comment)

/-- `document := DOCUMENT ACCOUNT STRING eol` -/
def document (setup : Setup σ) (heading : Heading) (date : Date) : Step σ Directive := do
  skip
  let account ← takeText .account [.account]
  let path ← takeText .string [.string]
  lineEnd []
  conclude setup heading (.document date account path)

/-- The kinds of tokens that can follow the date of a statement. -/
def datedStart : List TokenKind :=
  [.keyword .txn, .flag, .keyword .opening, .keyword .closing, .keyword .pad, .keyword .check,
   .keyword .price, .keyword .event, .keyword .note, .keyword .document]

/-- `dated := transaction | open | close | pad | check | price | event | note | document` -/
def dated (setup : Setup σ) (heading : Heading) (date : Date) : Step σ Directive := do
  match ← peek with
  | .keyword .txn => transaction setup heading date
  | .flag => transaction setup heading date
  | .keyword .opening => opening setup heading date
  | .keyword .closing => closing setup heading date
  | .keyword .pad => pad setup heading date
  | .keyword .check => check setup heading date
  | .keyword .price => price setup heading date
  | .keyword .event => event setup heading date
  | .keyword .note => note setup heading date
  | .keyword .document => document setup heading date
  | _ => unexpected datedStart

/-- The heading of a statement that begins with a token. -/
def headingAt (setup : Setup σ) (token : Token) : Heading :=
  ⟨token.span, ⟨setup.options.filename, token.span.start.line⟩⟩

/-- `entry := DATE dated` -/
def entry (setup : Setup σ) : Step σ (Spanned Directive) := nested setup do
  let token ← advance
  let date ← day setup token
  let directive ← dated setup (headingAt setup token) date
  let span ← spanFrom token.span
  pure ⟨directive, span⟩

/-- `option := OPTION STRING STRING eol` -/
def option (setup : Setup σ) : Step σ (Spanned Directive) := nested setup do
  let token ← advance
  let key ← takeText .string [.string]
  let value ← takeText .string [.string]
  lineEnd []
  let directive ← conclude setup (headingAt setup token) (.option key value)
  let span ← spanFrom token.span
  pure ⟨directive, span⟩

/-- `pushtag := PUSHTAG TAG` -/
def pushtag : Step σ Unit := do
  skip
  let tag ← takeText .tag [.tag]
  fun s => (.ok (), { s with tags := s.tags.push tag })

/-- `poptag := POPTAG TAG`

A tag that is not active is reported, but does not disturb the parse. -/
def poptag : Step σ Unit := do
  let start ← here
  skip
  let tag ← takeText .tag [.tag]
  let span ← spanFrom start
  fun s =>
    if s.tags.contains tag then
      (.ok (), { s with tags := s.tags.pop tag })
    else
      report ⟨.unbalancedPoptag tag, span⟩ s

/-- The kinds of tokens that can stand where a statement begins. -/
def declarationStart : List TokenKind :=
  [.date, .keyword .option, .keyword .pushtag, .keyword .poptag, .lineEnd, .indent, .comment,
   .skipped, .endOfInput]

/-- `declaration := entry | option | pushtag | poptag | eol | SKIPPED` -/
def declaration (setup : Setup σ) : Step σ Unit := do
  match ← peek with
  | .date => do
      let directive ← entry setup
      accept directive
  | .keyword .option => do
      let directive ← option setup
      accept directive
  | .keyword .pushtag => pushtag
  | .keyword .poptag => poptag
  | .lineEnd => lineEnd []
  | .indent => lineEnd []
  | .comment => lineEnd []
  | .skipped => skip
  | _ => unexpected declarationStart

end LedgerText.Parse
