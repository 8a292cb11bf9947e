import LedgerText.Date
import LedgerText.Decimal

/-!
# Amounts, costs and positions

What a posting moves: an amount of a currency, held at a cost if it is a lot.
-/

namespace LedgerText

/-- A quantity of a currency or commodity. -/
structure Amount where
  number : Decimal
  currency : String
  deriving DecidableEq, Repr

/-- What one unit of a lot was acquired for, and when. -/
structure LotCost where
  cost : Amount
  date : Option Date
  deriving DecidableEq, Repr

/-- Units, with the cost of the lot they belong to if they belong to one. -/
structure Position where
  units : Amount
  cost : Option LotCost
  deriving DecidableEq, Repr

namespace Amount

/-- Whether the quantity is below zero. -/
def isNegative (a : Amount) : Bool := a.number.negative

/-- Writes an amount: `100.00 USD`. -/
def toText (a : Amount) : String := a.number.toText ++ " " ++ a.currency

/-- The amount with its number's trailing zeros dropped. -/
def normalized (a : Amount) : Amount := { a with number := a.number.normalized }

end Amount

namespace LotCost

/-- Writes a lot cost in braces: the amount alone, or the amount and the date with a slash between
them. -/
def toText (c : LotCost) : String :=
  "\x7b" ++ c.cost.toText ++
    (match c.date with
      | some date => " / " ++ date.toText
      | none => "") ++ "\x7d"

/-- The lot cost with its number's trailing zeros dropped. -/
def normalized (c : LotCost) : LotCost := { c with cost := c.cost.normalized }

end LotCost

namespace Position

/-- Writes a position: the units, then the lot cost. -/
def toText (p : Position) : String :=
  p.units.toText ++
    (match p.cost with
      | some cost => " " ++ cost.toText
      | none => "")

/-- The position with the trailing zeros of its numbers dropped. -/
def normalized (p : Position) : Position :=
  { units := p.units.normalized, cost := p.cost.map LotCost.normalized }

end Position

end LedgerText
