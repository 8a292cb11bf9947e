import LedgerText.Proofs.Parse.Probing

/-!
# What each production asks for

One rule for every production: from where a production begins, which kinds it
asks for at the end of the tokens, and which of them it has asked for in vain
where it ends. A production that refuses a token lists these kinds, except that
a transaction with a tag or a link lists stale ones as well (`exact_titleFollow`).

Two productions do not read the token that they ask for, and leave that to what
comes behind them: the date of a lot in front of the closing brace, and a comma
in front of a currency. Their rules are about the production together with what
follows it.
-/

namespace LedgerText.Parse

open Grammar Step

variable {α β : Type} {front : List Token} {options : Options} {H : Edge}

/-! ## Line ends -/

/-- The kinds that a line end can begin with. -/
def lineEndKinds : List TokenKind := [.lineEnd, .indent, .comment]

theorem within_lineEndKinds {last : Option Token} {asked : List TokenKind}
    (h : Edge.within [.lineEnd] last asked) : Edge.within lineEndKinds last asked :=
  List.Subset.trans h (by decide)

/-- A line end asks for the kinds that it can begin with. Behind the first of its tokens, it may
have asked for another. -/
theorem probes_lineEnd {also : List TokenKind}
    (hExact : ∀ last before, H last before →
      Exact last (also ++ lineEndKinds) (before ++ lineEndKinds)) :
    Probes front H (lineEnd also) fun _ => .within [.lineEnd] := by
  have hClose : Probes front (.asked []) (skipIf .lineEnd) fun _ => .within [.lineEnd] := by
    refine probes_skipIf (by decide) (fun _ => List.nil_subset _) fun last before h => ?_
    rw [show before = [] from h]
    exact List.Subset.refl _
  have hOpen : Probes front .never (skip >>= fun _ => skipIf .lineEnd) fun _ =>
      .within [.lineEnd] :=
    probes_bind (probes_skip fun _ => rfl) fun _ => hClose
  have hTakes {kind : TokenKind} (hKind : kind ≠ .endOfInput) :
      Takes kind (skip >>= fun _ => skipIf .lineEnd) :=
    (strict_skip_bind fun _ => forward_skipIf _).takes hKind
  refine probes_peek_bind lineEndKinds (by decide) (fun kind => ?_)
    (probes_unexpected (H := fun last asked => Exact last (also ++ lineEndKinds) asked)
      fun _ _ h => h) hExact
  split
  · exact .inl ⟨by decide, strict_skip.takes (by decide), probes_skip fun _ => List.nil_subset _⟩
  · exact .inl ⟨by decide, hTakes (by decide), hOpen⟩
  · exact .inl ⟨by decide, hTakes (by decide), hOpen⟩
  · next hLine hIndent hComment =>
      exact .inr ⟨by simpa [lineEndKinds] using ⟨hLine, hIndent, hComment⟩, rfl⟩

/-! ## Amounts and positions -/

theorem probes_number (hH : H.Fresh) :
    Probes front H number fun _ => .behind .number := by
  refine probes_bind (probes_take (by decide) (hH.exact (by decide))) fun token => ?_
  split
  · exact probes_pure fun _ _ h => h
  · exact (still_fail fun _ _ => Problem.noConfusion).probes fun _ _ _ _ _ h => h

theorem takes_amount {setup : Setup Unit} : Takes .number (amount setup) := by
  refine takes_nested (takes_here_bind fun _ => Takes.bind ?_ fun _ => ?_)
  · refine (takes_take (by decide) _).bind fun token => ?_
    split
    · exact forward_pure _
    · exact forward_fail _
  · exact forward_bind (forward_takeText _ _) fun _ => forward_reviewFrom _ _

theorem probes_amount (hH : H.Fresh) :
    Probes front H (amount (.standard options)) fun _ => .behind .currency :=
  probes_nested <| probes_here_bind ((needs_take (by decide)).bind _) (probes_number hH)
    fun _ _ => probes_bind (probes_takeText (by decide) ((fresh_behind _).exact (by decide)))
      fun _ => probes_reviewFrom rfl fun _ _ h => h

/-- A day that does not exist is refused where its date was read, whatever comes next. -/
theorem probes_day (token : Token) :
    Probes front H (day (.standard options) token) fun _ => H := by
  refine probes_bind ((still_textOf token).probes fun _ _ _ _ _ h => h) fun text => ?_
  have hReview : review token.span ((Setup.standard options).builder.date text) =
      match Date.parse text with
      | .ok date => pure date
      | .error refusal => fail ⟨.invalidValue refusal, token.span⟩ := by
    funext s
    have hBuilder : (Setup.standard options).builder.date text s.builder =
        (Date.parse text, s.builder) := rfl
    unfold review
    rw [hBuilder]
    cases Date.parse text <;> rfl
  rw [hReview]
  split
  · exact probes_pure fun _ _ h => h
  · exact (still_fail fun _ _ => Problem.noConfusion).probes fun _ _ _ _ _ h => h

/-- The date of a lot, with the closing brace behind it. -/
theorem probes_lotDate_bind {f : Option Date → Step Unit β} {K : β → Edge} (hH : H.Fresh)
    (hf : ∀ date, Probes front (.asked []) (f date) K) :
    Probes front H (lotDate (.standard options) >>= fun date =>
      take (.mark .rightBrace) [.mark .rightBrace] >>= fun _ => f date) K := by
  have hBrace (date : Option Date) {J : Edge} (hJ : J.Fresh) :
      Probes front J (take (.mark .rightBrace) [.mark .rightBrace] >>= fun _ => f date) K :=
    probes_bind (probes_take (by decide) (hJ.exact (by decide))) fun _ =>
      (hf date).weaken (fun _ _ h => h.1) fun _ _ _ h => h
  have hDate : Probes front .never (skip >>= fun _ => take .date [.date] >>= fun token =>
      day (.standard options) token >>= fun date => pure (some date)) fun _ => .behind .date :=
    probes_bind (probes_skip fun _ => rfl) fun _ =>
      probes_bind (probes_take (by decide) (fresh_asked.exact (by decide))) fun token =>
        probes_bind (probes_day token) fun _ => probes_pure fun _ _ h => h
  have hForward (date : Option Date) := (hBrace date fresh_never).forward
  rw [lotDate, bind_bind]
  refine probes_peek_bind [.mark .slash, .mark .rightBrace] (by decide)
    (fun kind => ?_) (probes_bind (probes_unexpected fun _ _ h => h) fun date =>
      hBrace date fresh_never) (hH.exact (by decide))
  split
  · refine .inl ⟨by decide, ?_, probes_bind hDate fun date => hBrace date (fresh_behind _)⟩
    exact (strict_bind (strict_skip_bind fun _ => forward_bind (forward_take _ _) fun token =>
      forward_bind (forward_day _ token) fun _ => forward_pure _) hForward).takes (by decide)
  · exact .inl ⟨by decide, (takes_take (by decide) _).bind fun _ => (hf none).forward,
      hBrace none fresh_never⟩
  · next hSlash hClose => exact .inr ⟨by simpa using ⟨hSlash, hClose⟩, rfl⟩

theorem probes_lotCost :
    Probes front .never (lotCost (.standard options)) fun _ => .asked [] :=
  probes_nested <| probes_here_bind_front fun _ => probes_bind (probes_skip fun _ => rfl) fun _ =>
    probes_bind (probes_amount fresh_asked) fun _ =>
      probes_lotDate_bind (fresh_behind _) fun _ => probes_reviewFrom rfl fun _ _ h => h

theorem strict_lotCost {setup : Setup Unit} : Strict (lotCost setup) :=
  strict_nested setup <| strict_here_bind fun _ => strict_skip_bind fun _ =>
    forward_bind (forward_amount setup) fun _ => forward_bind (forward_lotDate setup) fun _ =>
      forward_bind (forward_take _ _) fun _ => forward_reviewFrom _ _

/-- The kinds that a lot behind an amount begins with, if there is none yet. -/
def lotKinds (position : Position) : List TokenKind :=
  if position.cost.isSome then [] else [.mark .leftBrace]

theorem takes_position {setup : Setup Unit} : Takes .number (position setup) :=
  takes_nested <| takes_here_bind fun _ => takes_amount.bind fun _ =>
    forward_bind (forward_whenNext _ (forward_lotCost setup)) fun _ => forward_reviewFrom _ _

theorem probes_position (hH : H.Fresh) :
    Probes front H (position (.standard options)) fun position =>
      .asked (lotKinds position) := by
  have hCost : Probes front (.behind .currency) (whenNext (.mark .leftBrace)
      (lotCost (.standard options))) fun cost =>
        .asked (if cost.isSome then [] else [.mark .leftBrace]) :=
    probes_whenNext (by decide) (strict_lotCost.takes (by decide)) probes_lotCost
      (fun _ _ _ h => h) fun last before h => by rw [h.1]; rfl
  exact probes_nested <| probes_here_bind (Needs.nested (needs_here_bind fun _ =>
    ((needs_take (by decide)).bind _).bind _)) (probes_amount hH) fun _ _ =>
      probes_bind hCost fun _ => probes_reviewFrom rfl fun _ _ h => h

theorem probes_priceTag (position : Position) (total : Bool) :
    Probes front .never (priceTag (.standard options) position total) fun _ =>
      .within [.lineEnd] :=
  probes_bind (probes_skip fun _ => rfl) fun _ => probes_bind (probes_amount fresh_asked) fun _ =>
    probes_bind (probes_lineEnd ((fresh_behind _).exact (by decide))) fun _ =>
      probes_pure fun _ _ h => h

/-- A line that goes on with a token of some kinds, or else ends. -/
theorem probes_peek_lineEnd {f : TokenKind → Step Unit α} (kinds also : List TokenKind) (a : α)
    (hEnd : .endOfInput ∉ kinds)
    (hf : ∀ kind, Branch front kinds (lineEnd also >>= fun _ => pure a)
      (fun _ => .within [.lineEnd]) kind (f kind))
    (hExact : ∀ last before, H last before →
      Exact last (also ++ lineEndKinds) (before ++ kinds ++ lineEndKinds)) :
    Probes front H (peek >>= f) fun _ => .within [.lineEnd] :=
  probes_peek_bind kinds hEnd hf
    (probes_bind
      (probes_lineEnd (H := fun last asked =>
        Exact last (also ++ lineEndKinds) (asked ++ lineEndKinds)) fun _ _ h => h)
      fun _ => probes_pure fun _ _ h => h)
    hExact

/-- What comes behind the position on the line of a posting. -/
def behindPosition (setup : Setup σ) (position : Position) : Step σ Movement := do
  match ← peek with
  | .mark .singleAt => priceTag setup position false
  | .mark .doubleAt => priceTag setup position true
  | _ => do
      lineEnd (lotKinds position ++ [.mark .singleAt, .mark .doubleAt])
      pure ⟨some position, none, false⟩

theorem probes_behindPosition (position : Position) :
    Probes front (.asked (lotKinds position)) (behindPosition (.standard options) position)
      fun _ => .within [.lineEnd] := by
  refine probes_peek_lineEnd [.mark .singleAt, .mark .doubleAt]
    (lotKinds position ++ [.mark .singleAt, .mark .doubleAt]) ⟨some position, none, false⟩
    (by decide) (fun kind => ?_) fun last before h => ?_
  · have hTag (total : Bool) {kind : TokenKind} (hKind : kind ≠ .endOfInput) :
        Takes kind (priceTag (.standard options) position total) :=
      (strict_skip_bind fun _ => (forward_bind (forward_amount _) fun _ =>
        forward_bind (forward_lineEnd _) fun _ => forward_pure _)).takes hKind
    split
    · exact .inl ⟨by decide, hTag _ (by decide), probes_priceTag position false⟩
    · exact .inl ⟨by decide, hTag _ (by decide), probes_priceTag position true⟩
    · next hSingle hDouble => exact .inr ⟨by simpa using ⟨hSingle, hDouble⟩, rfl⟩
  · rw [show before = lotKinds position from h]
    refine exact_self ?_
    unfold lotKinds
    split <;> decide

theorem probes_movement (hH : H.Fresh) :
    Probes front H (movement (.standard options)) fun _ => .within [.lineEnd] := by
  refine probes_peek_lineEnd [.number] [.number] ⟨none, none, false⟩ (by decide)
    (fun kind => ?_) fun last before h => ?_
  · split
    · exact .inl ⟨by decide,
        takes_position.bind fun position =>
          (probes_behindPosition position : Probes front _ _ _).forward,
        probes_bind (probes_position fresh_never) probes_behindPosition⟩
    · next hNumber => exact .inr ⟨by simpa using hNumber, rfl⟩
  · rw [hH last before h]
    exact exact_self (by decide)

theorem probes_flag : Probes front .never flag fun _ => .asked [] := by
  refine probes_bind (probes_advance (K := fun _ => .asked []) fun _ => rfl) fun token => ?_
  split
  · exact probes_pure fun _ _ h => h
  · exact probes_pure fun _ _ h => h
  · exact (still_fail fun _ _ => Problem.noConfusion).probes fun _ _ _ _ _ h => h

theorem strict_flag : Strict (flag : Step Unit Char) :=
  strict_advance_bind fun token => by
    split
    · exact forward_pure _
    · exact forward_pure _
    · exact forward_fail _

theorem probes_posting :
    Probes front .never (posting (.standard options)) fun _ => .within [.lineEnd] := by
  have hFlag : Probes front (.asked []) (whenNext .flag flag) fun mark =>
      .asked (if mark.isSome then [] else [.flag]) :=
    probes_whenNext (by decide) (strict_flag.takes (by decide)) probes_flag (fun _ _ _ h => h)
      fun last before h => by rw [show before = [] from h]; rfl
  have hAccount (mark : Option Char) : Probes front (.asked (if mark.isSome then [] else [.flag]))
      (takeText .account (if mark.isSome then [.account] else [.flag, .account])) fun _ =>
        .behind .account := by
    refine probes_takeText (by decide) fun last before h => ?_
    rw [show before = _ from h]
    cases mark with
    | some c => exact exact_self (by simp)
    | none => exact exact_self (by simp)
  exact probes_nested <| probes_here_bind_front fun _ => probes_bind (probes_skip fun _ => rfl)
    fun _ => probes_bind hFlag fun mark => probes_bind (hAccount mark) fun _ =>
      probes_bind (probes_movement (fresh_behind _)) fun _ => probes_reviewFrom rfl fun _ _ h => h

/-! ## Transactions -/

theorem probes_postingLine :
    Probes front .never (postingLine (.standard options)) fun _ => .within [.lineEnd] := by
  refine probes_peek_bind_front fun kind => ?_
  split
  · exact probes_bind probes_posting fun _ => probes_pure fun _ _ h => h
  · exact probes_bind (probes_lineEnd (fresh_never.exact (by decide))) fun _ =>
      probes_pure fun _ _ h => h

/-- The kinds that call for another line of a transaction behind a token. -/
def postingKinds (last : Option Token) : List TokenKind :=
  if last.all fun token => token.kind = .lineEnd then [.indent, .comment] else [.indent]

theorem postingAhead_iff (s : State Unit) :
    postingAhead s = true ↔ s.lookahead.kind ∈ postingKinds s.previous := by
  have hStart : (s.previous.all fun token => token.kind = .lineEnd) = s.atLineStart := by
    unfold State.atLineStart
    cases s.previous <;> rfl
  rw [postingAhead, decide_eq_true_eq, postingKinds, hStart]
  cases s.atLineStart <;> simp

theorem enters_postingLine {setup : Setup Unit} (s : State Unit) (h : postingAhead s = true) :
    Enters s.input (postingLine setup s) := by
  rw [postingAhead, decide_eq_true_eq] at h
  rw [postingLine, peek_bind]
  rcases h with hKind | ⟨hKind, -⟩
  · rw [hKind]
    exact ((strict_posting setup).takes (by decide) s hKind).bind fun _ => forward_pure _
  · rw [hKind]
    exact Enters.bind (.inr (strict_lineEnd [] (.inr (.inr hKind)))) fun _ => forward_pure _

theorem postingKinds_subset (last : Option Token) : postingKinds last ⊆ lineEndKinds := by
  unfold postingKinds
  split <;> decide

/-- Behind the lines of a transaction, only kinds were asked for that a line end can begin with. -/
theorem probes_postingLines :
    Probes front (.within [.lineEnd]) (postingLines (.standard options)) fun _ =>
      .within lineEndKinds := by
  have hMore (last : Option Token) (before : List TokenKind)
      (h : Edge.within [.lineEnd] last before) :
      Edge.within lineEndKinds last (before ++ postingKinds last) :=
    List.append_subset.2 ⟨within_lineEndKinds h, postingKinds_subset last⟩
  exact probes_bind (probes_repeatWhile (K := fun _ => .within lineEndKinds) postingKinds
    postingAhead_iff enters_postingLine probes_postingLine hMore fun _ _ => hMore) fun _ =>
      probes_pure fun _ _ h => h

/-- Texts are asked for one more time than there are of them. -/
theorem probes_texts {kind : TokenKind} (hEnd : kind ≠ .endOfInput) (hPipe : kind ≠ .mark .pipe)
    {K : List String → Edge}
    (hNone : ∀ last before, H last before → K [] last (before ++ [kind]))
    (hSome : ∀ a others last before, (Edge.behind kind) last before →
      K (a :: others) last (before ++ [kind])) :
    Probes front H (texts kind hEnd) K := by
  refine probes_repeatWhile (fun _ => [kind]) (fun s => ?_) (fun s hs => ?_)
    (probes_takeText hEnd (fresh_never.exact ?_)) hNone hSome
  · simp [comesNext]
  · exact takes_takeText hEnd _ s (by simpa [comesNext] using hs)
  · exact fun h => hPipe (List.mem_singleton.1 h).symm

/-- The kinds that the second string of a title begins with, if there is none yet. -/
def titleKinds (title : Title) : List TokenKind :=
  if title.payee.isNone then [.mark .pipe, .string] else []

/-- The edge behind a title. -/
def Edge.titled (title : Title) : Edge := fun last asked =>
  asked = titleKinds title ∧ ∃ token, last = some token ∧ token.kind = .string

/-- The edge behind the tags of a title, if there are any. -/
def Edge.tagged (title : Title) (tags : List String) : Edge := fun last asked =>
  asked = (if tags.isEmpty then titleKinds title else []) ++ [.tag] ∧
    ∃ token, last = some token ∧ token.kind = if tags.isEmpty then .string else .tag

/-- The edge behind the links of a title, if there are any. -/
def Edge.linked (title : Title) (tags links : List String) : Edge := fun last asked =>
  asked = (if links.isEmpty then
      (if tags.isEmpty then titleKinds title else []) ++ [.tag] else []) ++ [.link] ∧
    ∃ token, last = some token ∧
      token.kind = if links.isEmpty then (if tags.isEmpty then .string else .tag) else .link

theorem probes_title (hH : H.Fresh) : Probes front H title Edge.titled := by
  have hNarration {J : Edge} (hJ : J.Fresh) (first : String) :
      Probes front J (takeText .string [.string] >>= fun narration =>
        pure ⟨some first, narration⟩) Edge.titled :=
    probes_bind (probes_takeText (by decide) (hJ.exact (by decide))) fun _ =>
      probes_pure fun _ _ h => h
  refine probes_bind (probes_takeText (by decide) (hH.exact (by decide))) fun first => ?_
  refine probes_peek_bind [.mark .pipe, .string] (by decide) (fun kind => ?_)
    (probes_pure (a := ⟨none, first⟩) (H := Edge.titled ⟨none, first⟩) fun _ _ h => h)
    fun last before h => ?_
  · split
    · exact .inl ⟨by decide,
        (strict_skip_bind fun _ => (hNarration fresh_never first).forward).takes (by decide),
        probes_bind (probes_skip fun _ => rfl) fun _ => hNarration fresh_asked first⟩
    · exact .inl ⟨by decide, (takes_takeText (by decide) _).bind fun _ => forward_pure _,
        hNarration fresh_never first⟩
    · next hBar hString => exact .inr ⟨by simpa using ⟨hBar, hString⟩, rfl⟩
  · obtain ⟨rfl, hLast⟩ := h
    exact ⟨rfl, hLast⟩

/-- Behind a tag or a link, the kinds that the second string of a title begins with are stale. -/
theorem exact_stale {last : Option Token} {kinds : List TokenKind} (hPipe : .mark .pipe ∉ kinds)
    (hString : .string ∉ kinds)
    (hLast : ∃ token, last = some token ∧ (token.kind = .tag ∨ token.kind = .link)) :
    Exact last (.mark .pipe :: .string :: kinds) kinds := by
  intro kind
  constructor
  · refine fun hKind => ⟨.tail _ (.tail _ hKind), fun hStale => ?_⟩
    rcases hStale.1 with rfl | rfl
    · exact hPipe hKind
    · exact hString hKind
  · rintro ⟨hKind, hFresh⟩
    have hStale : kind = .mark .pipe ∨ kind = .string →
        Stale last (.mark .pipe :: .string :: kinds) kind := fun h =>
      ⟨h, List.mem_cons_self, hLast⟩
    rcases List.mem_cons.1 hKind with rfl | hKind
    · exact absurd (hStale (.inl rfl)) hFresh
    · rcases List.mem_cons.1 hKind with rfl | hKind
      · exact absurd (hStale (.inr rfl)) hFresh
      · exact hKind

/-- Behind the string of a title, nothing is stale. -/
theorem exact_title {last : Option Token} {kinds : List TokenKind}
    (hLast : ∃ token, last = some token ∧ token.kind = .string) : Exact last kinds kinds := by
  obtain ⟨token, rfl, hKind⟩ := hLast
  refine fun kind => ⟨fun h => ⟨h, ?_⟩, And.left⟩
  rintro ⟨-, -, other, hOther, hStale⟩
  cases hOther
  rw [hKind] at hStale
  exact hStale.elim TokenKind.noConfusion TokenKind.noConfusion

/-- What a transaction expects behind its title is what it has asked for, and what is stale behind
tags and links. -/
theorem exact_titleFollow {title : Title} {tags links : List String} {last : Option Token}
    {before : List TokenKind} (h : Edge.linked title tags links last before) :
    Exact last (titleFollow title links ++ lineEndKinds) (before ++ lineEndKinds) := by
  obtain ⟨rfl, token, rfl, hKind⟩ := h
  obtain ⟨payee, narration⟩ := title
  cases payee with
  | some text =>
      cases links with
      | nil => cases tags <;> exact exact_self (by simp [titleFollow, lineEndKinds])
      | cons link links => exact exact_self (by simp [titleFollow, lineEndKinds])
  | none =>
      cases links with
      | nil =>
          cases tags with
          | nil => exact exact_title ⟨token, rfl, hKind⟩
          | cons tag tags => exact exact_stale (by decide) (by decide) ⟨token, rfl, .inl hKind⟩
      | cons link links =>
          exact exact_stale (by simp [lineEndKinds]) (by simp [lineEndKinds])
            ⟨token, rfl, .inr hKind⟩

/-- A finished statement is accepted wherever it ends. -/
theorem probes_conclude (heading : Heading) (content : Content) :
    Probes front H (conclude (.standard options) heading content) fun _ => H := by
  have hStill : Still (conclude (.standard options) heading content) :=
    still_of_ok (a := fun s => ⟨content.addTags s.tags, heading.location⟩) (fun _ => rfl)
      (fun _ => rfl) (fun _ => rfl) fun _ _ => ⟨rfl, rfl⟩
  exact hStill.probes fun _ _ _ _ _ h => h

theorem probes_transaction (heading : Heading) (date : Date) :
    Probes front .never (transaction (.standard options) heading date) fun _ =>
      .within lineEndKinds := by
  have hTags (title : Title) : Probes front (.titled title) (texts .tag (by decide))
      (.tagged title) :=
    probes_texts (by decide) (by decide)
      (fun last before h => ⟨by rw [h.1]; rfl, h.2⟩)
      fun tag tags last before h => ⟨by rw [h.1]; rfl, h.2⟩
  have hLinks (title : Title) (tags : List String) : Probes front (.tagged title tags)
      (texts .link (by decide)) (.linked title tags) :=
    probes_texts (by decide) (by decide)
      (fun last before h => ⟨by rw [h.1]; rfl, h.2⟩)
      fun link links last before h => ⟨by rw [h.1]; rfl, h.2⟩
  exact probes_nested <| probes_bind probes_flag fun _ =>
    probes_bind (probes_title fresh_asked) fun title => probes_bind (hTags title) fun tags =>
      probes_bind (hLinks title tags) fun links =>
        probes_bind (probes_lineEnd fun _ _ => exact_titleFollow) fun _ =>
          probes_bind probes_postingLines fun _ => probes_conclude heading _

theorem strict_transaction {setup : Setup Unit} (heading : Heading) (date : Date) :
    Strict (transaction setup heading date) :=
  strict_nested setup <| strict_bind strict_flag fun _ => forward_bind forward_title fun _ =>
    forward_bind (forward_texts _ _) fun _ => forward_bind (forward_texts _ _) fun _ =>
      forward_bind (forward_lineEnd _) fun _ => forward_bind (forward_postingLines setup) fun _ =>
        forward_conclude _ _ _

/-! ## Currencies -/

/-- Behind a comma, another currency has to come next. -/
def another (currency : String) : Step Unit String := do
  match ← peek with
  | .currency => pure currency
  | _ => unexpected [.currency]

/-- What may stand between two currencies: a comma, where another currency follows. -/
def comma (currency : String) : Step Unit String := do
  match ← peek with
  | .mark .comma => do
      skip
      another currency
  | _ => pure currency

section Currencies

variable {s : State Unit} {asked : List TokenKind} {f : String → Step Unit β} {K : β → Edge}
  {currency : String}

theorem forward_another (currency : String) : Forward (another currency) := by
  refine forward_bind forward_peek fun kind => ?_
  split
  · exact forward_pure _
  · exact forward_unexpected _

theorem foretells_another_bind (hs : s.Faces front (.asked []) asked)
    (hForward : ∀ text, Forward (f text)) (hTakes : Takes .currency (f currency))
    (hf : s.input ≠ [] → Foretells front s asked (f currency) K) :
    Foretells front s asked (another currency >>= f) K := by
  have hRefuse {kinds : List TokenKind} (h : s.Faces front (.asked [.currency]) kinds) :
      Foretells front s kinds (unexpected [.currency] >>= f) K :=
    foretells_bind ((probes_unexpected (K := fun _ => .never) fun last asked hAsked => by
      obtain rfl : asked = [.currency] := hAsked
      exact exact_self (by decide)).foretells s kinds h)
      (fun _ _ _ hOk => absurd hOk unexpected_ne_ok) hForward
  rw [another, bind_bind]
  by_cases hNil : s.input = []
  · refine foretells_peek_bind [.currency] (g := unexpected [.currency] >>= f)
      (by decide) (fun kind hKind => ?_) (fun kind hKind => ?_) hNil
      (hRefuse (hs.ask hNil fun hNone => ?_))
    · rw [List.mem_singleton.1 hKind]
      exact hTakes
    · split
      · exact absurd (List.mem_singleton_self _) hKind
      · rfl
    · rw [show asked = [] from hNone]
      rfl
  · refine foretells_peek_bind_front hNil ?_
    split
    · exact hf hNil
    · exact hRefuse (hs.of_ne_nil hNil)

/-- A comma, with what comes behind it and reads the next currency. -/
theorem foretells_comma_bind (hH : H.Fresh) (hs : s.Faces front H asked)
    (hForward : ∀ text, Forward (f text)) (hTakes : Takes .currency (f currency))
    (hf : ∀ t asked', t.input.length ≤ s.input.length →
      t.Faces front (.asked [.mark .comma]) asked' → Foretells front t asked' (f currency) K) :
    Foretells front s asked (comma currency >>= f) K := by
  rw [comma, bind_bind]
  by_cases hNil : s.input = []
  · refine foretells_peek_bind [.mark .comma] (g := f currency) (by decide)
      (fun kind hKind => ?_) (fun kind hKind => ?_) hNil
      (hf s _ (Nat.le_refl _) (hs.ask hNil fun hEdge => ?_))
    · rw [List.mem_singleton.1 hKind]
      exact (strict_bind (strict_skip_bind fun _ => forward_another currency) hForward).takes
        (by decide)
    · split
      · exact absurd (List.mem_singleton_self _) hKind
      · rfl
    · rw [hH _ _ hEdge]
      rfl
  · refine foretells_peek_bind_front hNil ?_
    split
    · rw [bind_bind]
      refine foretells_bind ((probes_skip (J := .asked []) fun _ => rfl).foretells s asked
        (hs.of_ne_nil hNil)) (fun _ t asked' hOk ht => ?_) fun _ =>
          forward_bind (forward_another currency) hForward
      have hLess := forward_skip s
      rw [hOk] at hLess
      exact foretells_another_bind ht hForward hTakes fun hSome =>
        hf t asked' hLess (ht.of_ne_nil hSome)
    · exact hf s asked (Nat.le_refl _) (hs.of_ne_nil hNil)

/-- A list of currencies is a currency and another list, or ends. -/
theorem currencies_eq (s : State Unit) : currencies s =
    (peek >>= fun kind => if kind = .currency then
      takeText .currency [.currency] >>= fun text => comma text >>= fun text =>
        currencies >>= fun others => pure (text :: others)
    else pure []) s := by
  rw [peek_bind]
  by_cases hNext : s.lookahead.kind = .currency
  · rw [if_pos hNext, currencies, repeatWhile_of_true (by simpa [comesNext] using hNext)]
    exact congrFun (bind_bind (takeText .currency [.currency]) comma fun text =>
      currencies >>= fun others => pure (text :: others)) s
  · rw [if_neg hNext, currencies, repeatWhile_of_false (by simpa [comesNext] using hNext)]
    rfl

/-- Behind a currency, a comma or another currency may come, and nothing in place of either was
asked for. The induction is on the tokens that are left. -/
theorem foretells_currencies {start : List TokenKind} {length : Nat}
    (hLength : s.input.length = length) (hs : s.Faces front (.asked start) asked) :
    Foretells front s asked currencies fun texts =>
      .asked ((if texts.isEmpty then start else [.mark .comma]) ++ [.currency]) := by
  have hForward : Forward (currencies : Step Unit (List String)) :=
    forward_repeatWhile forward_listedCurrency
  have hAll (text : String) : Forward (currencies >>= fun others =>
      pure (text :: others) : Step Unit (List String)) :=
    forward_bind hForward fun _ => forward_pure _
  have hComma (text : String) : Forward (comma text >>= fun text =>
      currencies >>= fun others => pure (text :: others)) :=
    forward_bind (forward_comma text) hAll
  have hTakes : Takes .currency (currencies : Step Unit (List String)) := by
    intro u hNext
    rw [currencies_eq, peek_bind, if_pos hNext]
    exact ((takes_takeText (by decide) _).bind hComma) u hNext
  induction length using Nat.strongRecOn generalizing s asked start with
  | _ length ih =>
      subst hLength
      refine Foretells.of_eq ?_ (currencies_eq s) fun rest => currencies_eq (s.facing rest)
      by_cases hNil : s.input = []
      · refine foretells_peek_bind [.currency] (g := pure []) (by decide)
          (fun kind hKind => ?_) (fun kind hKind => ?_) hNil
          ((probes_pure fun _ _ h => h).foretells s _ (hs.ask hNil fun hAsked => ?_))
        · rw [List.mem_singleton.1 hKind, if_pos rfl]
          exact (takes_takeText (by decide) _).bind hComma
        · exact if_neg fun hSame => hKind (List.mem_singleton.2 hSame)
        · rw [show asked = start from hAsked]
          rfl
      · refine foretells_peek_bind_front hNil ?_
        by_cases hNext : s.lookahead.kind = .currency
        · rw [if_pos hNext]
          refine foretells_bind ((probes_takeText (H := .never) (by decide)
            (fresh_never.exact (by decide))).foretells s asked (hs.of_ne_nil hNil))
            (fun text t asked' hOk ht => ?_) hComma
          have hLess := consumes_takeText _ _ s text t (hNext ▸ TokenKind.noConfusion) hOk
          refine foretells_comma_bind (fresh_behind _) ht hAll (hTakes.bind fun _ => forward_pure _)
            fun u asked'' hMore hu => ?_
          have hOthers := ih _ (Nat.lt_of_le_of_lt hMore hLess) rfl hu
          refine foretells_bind hOthers (fun others v _ _ hv => ?_) fun _ => forward_pure _
          refine (probes_pure fun _ asked h => ?_).foretells v _ hv
          rw [ite_self] at h
          exact h
        · rw [if_neg hNext]
          exact (probes_pure (H := .never) fun _ _ h => h.elim).foretells s asked
            (hs.of_ne_nil hNil)

theorem probes_currencies (hH : H.Fresh) :
    Probes front H currencies fun texts =>
      .asked ((if texts.isEmpty then [] else [.mark .comma]) ++ [.currency]) where
  forward := forward_repeatWhile forward_listedCurrency
  foretells := fun _ _ hs => foretells_currencies rfl (hs.weaken hH)

end Currencies

/-! ## Statements -/

/-- The end of a statement of one line. -/
theorem probes_finish (heading : Heading) (content : Content) {also : List TokenKind}
    (hExact : ∀ last before, H last before →
      Exact last (also ++ lineEndKinds) (before ++ lineEndKinds)) :
    Probes front H (lineEnd also >>= fun _ => conclude (.standard options) heading content)
      fun _ => .within lineEndKinds :=
  probes_bind (probes_lineEnd hExact) fun _ =>
    (probes_conclude heading content).weaken (fun _ _ h => h)
      fun _ _ _ h => within_lineEndKinds h

/-- A text that has to come next on a line where nothing has been asked for. -/
theorem probes_word {kind : TokenKind} (hH : H.Fresh) (hKind : kind ≠ .endOfInput)
    (hPipe : kind ≠ .mark .pipe) :
    Probes front H (takeText kind [kind]) fun _ => .behind kind :=
  probes_takeText hKind (hH.exact fun h => hPipe (List.mem_singleton.1 h).symm)

/-- What follows `open`. -/
theorem probes_opening (heading : Heading) (date : Date) :
    Probes front (.asked []) (do
      let account ← takeText .account [.account]
      let currencies ← currencies
      lineEnd (if currencies.isEmpty then [.currency] else [.mark .comma, .currency])
      conclude (.standard options) heading (.opening date account currencies)) fun _ =>
        .within lineEndKinds := by
  have hEnd (currencies : List String) (last : Option Token) (before : List TokenKind)
      (h : Edge.asked ((if currencies.isEmpty then [] else [.mark .comma]) ++ [.currency])
        last before) :
      Exact last ((if currencies.isEmpty then [.currency] else [.mark .comma, .currency]) ++
        lineEndKinds) (before ++ lineEndKinds) := by
    rw [show before = _ from h]
    cases currencies with
    | nil => exact exact_self (by decide)
    | cons text texts => exact exact_self (by simp [lineEndKinds])
  exact probes_bind (probes_word fresh_asked (by decide) (by decide)) fun _ =>
    probes_bind (probes_currencies (fresh_behind _)) fun currencies =>
      probes_finish heading _ (hEnd currencies)

/-- What follows the keyword of a statement of two texts. -/
theorem probes_twoTexts {first second : TokenKind} (heading : Heading)
    (content : String → String → Content) (hFirst : first ≠ .endOfInput)
    (hFirst' : first ≠ .mark .pipe) (hSecond : second ≠ .endOfInput)
    (hSecond' : second ≠ .mark .pipe) :
    Probes front (.asked []) (do
      let x ← takeText first [first]
      let y ← takeText second [second]
      lineEnd []
      conclude (.standard options) heading (content x y)) fun _ => .within lineEndKinds :=
  probes_bind (probes_word fresh_asked hFirst hFirst') fun _ =>
    probes_bind (probes_word (fresh_behind _) hSecond hSecond') fun _ =>
      probes_finish heading _ ((fresh_behind _).exact (by decide))

/-- What follows the keyword of a statement of a text and an amount. -/
theorem probes_textAmount {kind : TokenKind} (heading : Heading)
    (content : String → Amount → Content) (hKind : kind ≠ .endOfInput)
    (hPipe : kind ≠ .mark .pipe) :
    Probes front (.asked []) (do
      let text ← takeText kind [kind]
      let amount ← amount (.standard options)
      lineEnd []
      conclude (.standard options) heading (content text amount)) fun _ => .within lineEndKinds :=
  probes_bind (probes_word fresh_asked hKind hPipe) fun _ =>
    probes_bind (probes_amount (fresh_behind _)) fun _ =>
      probes_finish heading _ ((fresh_behind _).exact (by decide))

/-- What follows the date of a statement is a word that says what it is. -/
theorem probes_dated (hH : H.Fresh) (heading : Heading) (date : Date) :
    Probes front H (dated (.standard options) heading date) fun _ => .within lineEndKinds := by
  have hWord {k : Keyword} {f : Unit → Step Unit Directive} {g : Step Unit Directive}
      (hMem : .keyword k ∈ datedStart)
      (hf : ∀ u, Probes front (.asked []) (f u) fun _ => .within lineEndKinds) :
      Branch front datedStart g (fun _ => .within lineEndKinds) (.keyword k) (skip >>= f) :=
    .inl ⟨hMem, (strict_skip_bind fun u => (hf u).forward).takes TokenKind.noConfusion,
      probes_bind (probes_skip fun _ => rfl) hf⟩
  refine probes_peek_bind datedStart (by decide) (fun kind => ?_)
    (probes_unexpected fun _ _ h => h) (hH.exact (by decide))
  split
  · exact .inl ⟨by decide, (strict_transaction heading date).takes (by decide),
      probes_transaction heading date⟩
  · exact .inl ⟨by decide, (strict_transaction heading date).takes (by decide),
      probes_transaction heading date⟩
  · exact hWord (by decide) fun _ => probes_opening heading date
  · exact hWord (by decide) fun _ =>
      probes_bind (probes_word fresh_asked (by decide) (by decide)) fun _ =>
        probes_finish heading _ ((fresh_behind _).exact (by decide))
  · exact hWord (by decide) fun _ => probes_twoTexts heading _ (by decide) (by decide) (by decide)
      (by decide)
  · exact hWord (by decide) fun _ => probes_textAmount heading _ (by decide) (by decide)
  · exact hWord (by decide) fun _ => probes_textAmount heading _ (by decide) (by decide)
  · exact hWord (by decide) fun _ => probes_twoTexts heading _ (by decide) (by decide) (by decide)
      (by decide)
  · exact hWord (by decide) fun _ => probes_twoTexts heading _ (by decide) (by decide) (by decide)
      (by decide)
  · exact hWord (by decide) fun _ => probes_twoTexts heading _ (by decide) (by decide) (by decide)
      (by decide)
  · next h₁ h₂ h₃ h₄ h₅ h₆ h₇ h₈ h₉ h₁₀ =>
      exact .inr ⟨by simpa [datedStart] using ⟨h₁, h₂, h₃, h₄, h₅, h₆, h₇, h₈, h₉, h₁₀⟩, rfl⟩

theorem probes_entry :
    Probes front .never (entry (.standard options)) fun _ => .within lineEndKinds :=
  probes_nested <| probes_bind (probes_advance (K := fun _ => .asked []) fun _ => rfl) fun token =>
    probes_bind (probes_day token) fun date => probes_bind (probes_dated fresh_asked _ date)
      fun _ => probes_bind ((still_spanFrom _).probes fun _ _ _ _ _ h => h) fun _ =>
        probes_pure fun _ _ h => h

theorem probes_option :
    Probes front .never (option (.standard options)) fun _ => .within lineEndKinds :=
  probes_nested <| probes_bind (probes_advance (K := fun _ => .asked []) fun _ => rfl) fun token =>
    probes_bind (probes_word fresh_asked (by decide) (by decide)) fun _ =>
      probes_bind (probes_word (fresh_behind _) (by decide) (by decide)) fun _ =>
        probes_bind (probes_lineEnd ((fresh_behind _).exact (by decide))) fun _ =>
          probes_bind (probes_conclude _ _) fun _ =>
            probes_bind ((still_spanFrom _).probes fun _ _ _ _ _ h => h) fun _ =>
              probes_pure fun _ _ h => within_lineEndKinds h

/-- What a statement does with a tag is done wherever it was read. -/
theorem probes_tag {f : String → Step Unit Unit}
    (hf : ∀ tag, Probes front (.behind .tag) (f tag) fun _ => .behind .tag) :
    Probes front .never (skip >>= fun _ => takeText .tag [.tag] >>= f) fun _ =>
      .within lineEndKinds :=
  (probes_bind (probes_skip (J := .asked []) fun _ => rfl) fun _ =>
    probes_bind (probes_word fresh_asked (by decide) (by decide)) hf).weaken (fun _ _ h => h)
      fun _ last asked h => h.1 ▸ List.nil_subset _

/-- Switching a tag on. -/
theorem still_push (tag : String) :
    Still (fun s => (.ok (), { s with tags := s.tags.push tag }) : Step Unit Unit) where
  input_eq := fun _ => rfl
  previous_eq := fun _ => rfl
  facing := fun _ _ => rfl
  halts := fun _ _ hHalt => nomatch hHalt

/-- Switching a tag off, or reporting that it is not on. -/
theorem still_pop (tag : String) (span : Span) :
    Still (fun s => if s.tags.contains tag then
      (.ok (), { s with tags := s.tags.pop tag })
    else
      report ⟨.unbalancedPoptag tag, span⟩ s : Step Unit Unit) where
  input_eq := fun s => by
    split <;> rfl
  previous_eq := fun s => by
    split <;> rfl
  facing := fun s rest => by
    by_cases hActive : s.tags.contains tag = true
    · rw [if_pos hActive]
      exact if_pos hActive
    · rw [if_neg hActive]
      exact if_neg hActive
  halts := fun s halt hHalt => by
    split at hHalt <;> cases hHalt

/-- Behind a statement, no kinds were asked for but those that a line end can begin with. -/
theorem probes_declaration (options : Options) :
    Probes front .never (declaration (.standard options)) fun _ => .within lineEndKinds := by
  have hAccept (x : Spanned Directive) : Still (accept x : Step Unit Unit) :=
    still_of_ok (fun _ => rfl) (fun _ => rfl) (fun _ => rfl) fun _ _ => ⟨rfl, rfl⟩
  have hEnd : Probes front .never (lineEnd []) fun _ => .within lineEndKinds :=
    (probes_lineEnd (fresh_never.exact (by decide))).weaken (fun _ _ h => h)
      fun _ _ _ h => within_lineEndKinds h
  refine probes_peek_bind_front fun kind => ?_
  split
  · exact probes_bind probes_entry fun x => (hAccept x).probes fun _ _ _ _ _ h => h
  · exact probes_bind probes_option fun x => (hAccept x).probes fun _ _ _ _ _ h => h
  · exact probes_tag fun tag => (still_push tag).probes fun _ _ _ _ _ h => h
  · exact probes_here_bind_front fun start => probes_tag fun tag =>
      probes_bind ((still_spanFrom start).probes fun _ _ _ _ _ h => h) fun span =>
        (still_pop tag span).probes fun _ _ _ _ _ h => h
  · exact hEnd
  · exact hEnd
  · exact hEnd
  · exact probes_skip fun _ => List.nil_subset _
  · exact probes_unexpected fun _ _ h => h.elim

end LedgerText.Parse
