import LedgerText.Written
import LedgerText.Proofs.RoundTrip.Numerals

/-!
# The column in which amounts end

The line of a posting is counted in characters, but the units that are to end in
the amount column are measured in bytes. A currency outside ASCII has more bytes
than characters, and the units then end in front of the column by as many
characters as there are bytes too many, unless two blanks already bring them
further (`written_linesUp`). That is the amount column itself just for ASCII
currencies and for lines with no room to spare (`aligned_iff`).
-/

namespace LedgerText

/-! ## Bytes and characters -/

/-- The bytes of a text beyond one for each of its characters. -/
def excess (text : String) : Nat := text.utf8ByteSize - text.length

theorem utf8ByteSize_cons (c : Char) (text : List Char) :
    (String.ofList (c :: text)).utf8ByteSize =
      c.utf8Size + (String.ofList text).utf8ByteSize := by
  rw [String.ofList_cons, String.utf8ByteSize_append, String.utf8ByteSize_singleton]

theorem length_le_utf8ByteSize (text : List Char) :
    text.length ≤ (String.ofList text).utf8ByteSize := by
  induction text with
  | nil => exact Nat.zero_le _
  | cons c text ih =>
      have hByte := c.utf8Size_pos
      rw [List.length_cons, utf8ByteSize_cons]
      omega

theorem utf8ByteSize_eq (text : String) : text.utf8ByteSize = text.length + excess text := by
  have hLength := length_le_utf8ByteSize text.toList
  rw [String.ofList_toList, String.length_toList] at hLength
  rw [excess]
  omega

theorem excess_append (first second : String) :
    excess (first ++ second) = excess first + excess second := by
  have hBytes := String.utf8ByteSize_append (s := first) (t := second)
  have hLength := String.length_append (s := first) (t := second)
  have hFirst := utf8ByteSize_eq first
  have hSecond := utf8ByteSize_eq second
  have hBoth := utf8ByteSize_eq (first ++ second)
  omega

/-- Texts in ASCII are those with as many bytes as characters. -/
theorem excess_eq_zero_iff (text : String) :
    excess text = 0 ↔ ∀ c ∈ text.toList, c.val ≤ 127 := by
  have hList (cs : List Char) :
      (String.ofList cs).utf8ByteSize = cs.length ↔ ∀ c ∈ cs, c.val ≤ 127 := by
    induction cs with
    | nil => simp
    | cons c cs ih =>
        have hByte := c.utf8Size_pos
        have hRest := length_le_utf8ByteSize cs
        rw [List.forall_mem_cons, ← ih, ← Char.utf8Size_eq_one_iff, utf8ByteSize_cons,
          List.length_cons]
        omega
  have hSize := utf8ByteSize_eq text
  rw [← hList, String.ofList_toList, String.length_toList]
  omega

namespace Decimal

/-- Written decimals begin with a sign or a digit. -/
theorem exists_toText_cons (d : Decimal) : ∃ c rest, d.toText.toList = c :: rest ∧ c ≠ ' ' := by
  obtain ⟨c, digits, hWhole⟩ := List.exists_cons_of_ne_nil d.wholeDigits_ne_nil
  have hDigit : c.isDigit = true := isDigit_of_mem_wholeDigits (hWhole ▸ List.mem_cons_self)
  rw [toList_toText, hWhole]
  cases d.negative with
  | true => exact ⟨'-', _, rfl, by decide⟩
  | false => exact ⟨c, _, rfl, ne_of_class hDigit (by decide)⟩

theorem excess_toText (d : Decimal) : excess d.toText = 0 := by
  have hAscii {c : Char} (h : c.isDigit = true) : c.val ≤ 127 := by
    have hBounds := Char.isDigit_iff_toNat.1 h
    have hNine : '9'.toNat = 57 := rfl
    rw [UInt32.le_iff_toNat_le]
    exact Nat.le_trans hBounds.2 (by decide)
  rw [excess_eq_zero_iff, toList_toText, fractionText]
  intro c hc
  rw [List.mem_append, List.mem_append] at hc
  obtain hSign | hWhole | hFraction := hc
  · split at hSign
    · rw [List.mem_singleton.1 hSign]
      decide
    · exact absurd hSign List.not_mem_nil
  · exact hAscii (isDigit_of_mem_wholeDigits hWhole)
  · split at hFraction
    · exact absurd hFraction List.not_mem_nil
    · obtain rfl | hDigit := List.mem_cons.1 hFraction
      · decide
      · exact hAscii (isDigit_of_mem_fractionDigits hDigit)

end Decimal

/-- A written amount has more bytes than characters as far as its currency does. -/
theorem Amount.utf8ByteSize_toText (a : Amount) :
    a.toText.utf8ByteSize = a.toText.length + excess a.currency := by
  have hBlank : excess " " = 0 := rfl
  have hExcess : excess a.toText = excess a.currency := by
    rw [Amount.toText, excess_append, excess_append, Decimal.excess_toText, hBlank]
    omega
  rw [utf8ByteSize_eq, hExcess]

namespace Posting

/-! ## Where the units stand -/

/-- The number of characters in front of the blanks of a posting line: the indent, the flag with
the blank behind it, and the account. -/
def lead (layout : Layout) (p : Posting) : Nat :=
  layout.indent.length + (if p.flag.isSome then 2 else 0) + p.account.length

theorem length_accountText (layout : Layout) (p : Posting) :
    (p.accountText layout).length = p.lead layout := by
  have hFlagText (flag : Char) : (String.singleton flag ++ " ").length = 2 := by
    rw [String.length_append, String.length_singleton]
    rfl
  cases hFlag : p.flag <;> simp [accountText, lead, hFlag, hFlagText]

/-- A posting line has units behind a number of blanks, and they end in a column. Columns are
counted in characters. -/
structure UnitsAt (layout : Layout) (p : Posting) (units : Amount) (blanks column : Nat) :
    Prop where
  line : (p.accountText layout).toList ++ (List.replicate blanks ' ' ++ units.toText.toList) <+:
    (p.written layout).toList
  column_eq : column = p.lead layout + blanks + units.toText.length

/-- The number of blanks, put together with the length of what stands around them: the units end in
the amount column, less the bytes beyond their characters, or two blanks bring them further. -/
theorem lead_add_gap (layout : Layout) (p : Posting) (units : Amount) :
    p.lead layout + gap layout (p.accountText layout) units.toText + units.toText.length =
      max (p.lead layout + 2 + units.toText.length)
        (layout.amountColumn - excess units.currency) := by
  rw [gap, length_accountText, units.utf8ByteSize_toText]
  omega

theorem unitsAt_gap (layout : Layout) {p : Posting} {position : Position}
    (h : p.position = some position) :
    UnitsAt layout p position.units (gap layout (p.accountText layout) position.units.toText)
      (max (p.lead layout + 2 + position.units.toText.length)
        (layout.amountColumn - excess position.units.currency)) := by
  refine ⟨?_, (lead_add_gap layout p position.units).symm⟩
  simp [written, h, Position.toText, List.append_assoc]

theorem length_blanks {c : Char} (h : c ≠ ' ') (n : Nat) (rest : List Char) :
    ((List.replicate n ' ' ++ c :: rest).takeWhile (· == ' ')).length = n := by
  have hStop : (c == ' ') = false := beq_eq_false_iff_ne.2 h
  have hBlank : ∀ b ∈ List.replicate n ' ', (b == ' ') = true := fun b hb =>
    beq_iff_eq.2 (List.eq_of_mem_replicate hb)
  rw [List.takeWhile_append_of_pos hBlank, List.takeWhile_cons, hStop]
  simp

/-- Units begin with no blank, so there is one place for them on the line. -/
theorem UnitsAt.unique {layout : Layout} {p : Posting} {units : Amount}
    {blanks column blanks' column' : Nat} (h : UnitsAt layout p units blanks column)
    (h' : UnitsAt layout p units blanks' column') : blanks = blanks' ∧ column = column' := by
  obtain ⟨tail, hLine⟩ := h.line
  obtain ⟨tail', hLine'⟩ := h'.line
  obtain ⟨c, rest, hUnits, hOther⟩ := units.number.exists_toText_cons
  have hText : units.toText.toList = c :: (rest ++ ' ' :: units.currency.toList) := by
    simp [Amount.toText, hUnits]
  have hSame := hLine.trans hLine'.symm
  rw [List.append_assoc, List.append_assoc, List.append_assoc, List.append_assoc,
    List.append_cancel_left_eq, hText, List.cons_append, List.cons_append] at hSame
  have hBlanks : blanks = blanks' := by
    rw [← length_blanks hOther blanks, hSame, length_blanks hOther blanks']
  exact ⟨hBlanks, by rw [h.column_eq, h'.column_eq, hBlanks]⟩

section

variable (layout : Layout) {p : Posting} {position : Position}

/-- The one column in which the units end. -/
theorem exists_unitsAt_iff (h : p.position = some position) (column : Nat) :
    (∃ blanks, UnitsAt layout p position.units blanks column) ↔
      column = max (p.lead layout + 2 + position.units.toText.length)
        (layout.amountColumn - excess position.units.currency) := by
  constructor
  · rintro ⟨blanks, hUnits⟩
    exact (hUnits.unique (unitsAt_gap layout h)).2
  · rintro rfl
    exact ⟨_, unitsAt_gap layout h⟩

/-- The one number of blanks in front of the units. -/
theorem exists_column_iff (h : p.position = some position) (blanks : Nat) :
    (∃ column, UnitsAt layout p position.units blanks column) ↔
      blanks = gap layout (p.accountText layout) position.units.toText := by
  constructor
  · rintro ⟨column, hUnits⟩
    exact (hUnits.unique (unitsAt_gap layout h)).1
  · rintro rfl
    exact ⟨_, unitsAt_gap layout h⟩

end

/-! ## Lining up -/

/-- The units end in the amount column if they fit there with two blanks in front of them. Otherwise
they stand two blanks behind the account. -/
structure Aligned (layout : Layout) (p : Posting) (units : Amount) : Prop where
  fits : p.lead layout + 2 + units.toText.length ≤ layout.amountColumn →
    ∃ blanks, UnitsAt layout p units blanks layout.amountColumn
  tight : layout.amountColumn < p.lead layout + 2 + units.toText.length →
    ∃ column, UnitsAt layout p units 2 column

/-- Units in a currency outside ASCII are aligned only if there is nothing to align. -/
theorem aligned_iff (layout : Layout) {p : Posting} {position : Position}
    (h : p.position = some position) :
    Aligned layout p position.units ↔ excess position.units.currency = 0 ∨
      layout.amountColumn ≤ p.lead layout + 2 + position.units.toText.length := by
  have hGap := lead_add_gap layout p position.units
  constructor
  · intro hAligned
    by_cases hFits : p.lead layout + 2 + position.units.toText.length ≤ layout.amountColumn
    · have hEnd := (exists_unitsAt_iff layout h _).1 (hAligned.fits hFits)
      omega
    · omega
  · intro hExact
    refine ⟨fun hFits => ?_, fun hTight => ?_⟩
    · rw [exists_unitsAt_iff layout h]
      omega
    · rw [exists_column_iff layout h]
      omega

/-- Units of a currency whose sign has three bytes. -/
def someEuros : Position where
  units := { number := ⟨false, 95, 1, by decide, by decide, by decide⟩, currency := "€" }
  cost := none

/-- A posting with an ASCII account that moves them. -/
def cashInEuros : Posting := ofPosition "Assets:Cash" someEuros

/-- The line `  Assets:Cash` has room for `9.5 €` in front of the amount column, but the units do not
end there. -/
theorem cashInEuros_not_aligned : cashInEuros.position = some someEuros ∧
    cashInEuros.lead {} + 2 + someEuros.units.toText.length ≤ Layout.amountColumn {} ∧
    ¬ ∃ blanks, UnitsAt {} cashInEuros someEuros.units blanks (Layout.amountColumn {}) := by
  refine ⟨rfl, by decide, fun hEnd => ?_⟩
  have hColumn := (exists_unitsAt_iff {} rfl _).1 hEnd
  exact absurd hColumn (by decide)

/-- What holds of the columns of a posting line with units. -/
structure LinesUp (layout : Layout) (p : Posting) (units : Amount) : Prop where
  /-- The units stand in one place. -/
  unique : ∀ {blanks column blanks' column' : Nat}, UnitsAt layout p units blanks column →
    UnitsAt layout p units blanks' column' → blanks = blanks' ∧ column = column'
  /-- If there is room for their bytes, they end in front of the amount column by as many characters
  as their currency has bytes beyond its characters. -/
  fits : p.lead layout + 2 + units.toText.utf8ByteSize ≤ layout.amountColumn →
    ∃ blanks, UnitsAt layout p units blanks (layout.amountColumn - excess units.currency)
  /-- Otherwise they stand two blanks behind the account. -/
  tight : layout.amountColumn < p.lead layout + 2 + units.toText.utf8ByteSize →
    ∃ column, UnitsAt layout p units 2 column
  /-- They are aligned just if the currency is in ASCII or there is no room to spare. -/
  aligned : Aligned layout p units ↔ (∀ c ∈ units.currency.toList, c.val ≤ 127) ∨
    layout.amountColumn ≤ p.lead layout + 2 + units.toText.length
  /-- Where there is room for both, the units of two postings end in the same column if their
  currencies have equally many bytes beyond their characters, and only then. -/
  level : ∀ {q : Posting} {other : Position} {column column' : Nat}, q.position = some other →
    p.lead layout + 2 + units.toText.utf8ByteSize ≤ layout.amountColumn →
    q.lead layout + 2 + other.units.toText.utf8ByteSize ≤ layout.amountColumn →
    (∃ blanks, UnitsAt layout p units blanks column) →
    (∃ blanks, UnitsAt layout q other.units blanks column') →
    (column = column' ↔ excess units.currency = excess other.units.currency)

/-- The units of a posting line are put where their bytes would end in the amount column. -/
theorem written_linesUp (layout : Layout) {p : Posting} {position : Position}
    (h : p.position = some position) : LinesUp layout p position.units := by
  have hGap := lead_add_gap layout p position.units
  have hBytes := position.units.utf8ByteSize_toText
  refine ⟨UnitsAt.unique, fun hFits => ?_, fun hTight => ?_, ?_, ?_⟩
  · rw [exists_unitsAt_iff layout h]
    omega
  · rw [exists_column_iff layout h]
    omega
  · rw [aligned_iff layout h, excess_eq_zero_iff]
  · intro q other column column' hOther hFits hOtherFits hColumn hColumn'
    have hOtherBytes := other.units.utf8ByteSize_toText
    rw [exists_unitsAt_iff layout h] at hColumn
    rw [exists_unitsAt_iff layout hOther] at hColumn'
    omega

/-- The units of `  Assets:Cash` and `9.5 €` end two columns early. -/
theorem written_linesUp_cashInEuros : cashInEuros.position = some someEuros ∧
    ∃ blanks, UnitsAt {} cashInEuros someEuros.units blanks 58 :=
  ⟨rfl, (written_linesUp {} rfl).fits (by decide)⟩

end Posting

end LedgerText
