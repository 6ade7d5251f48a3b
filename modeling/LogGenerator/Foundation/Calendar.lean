import LogGenerator.Foundation.Bytes

/-!
# Calendar records

The fields of `std::tm` and the zero-padded numerals of `std::format`.
-/

namespace LogGenerator

/-- `std::tm` with its C++ conventions: `year` from 1900, `mon` and `wday` from 0. -/
structure Tm where
  year : ℤ := 0
  mon : ℤ := 0
  mday : ℤ := 0
  hour : ℤ := 0
  min : ℤ := 0
  sec : ℤ := 0
  wday : ℤ := 0
  deriving DecidableEq, Repr

/-- `std::format("{:0w}", n)`. -/
def zeroPadded (width : ℕ) (n : ℤ) : Bytes :=
  let sign := if n < 0 then bytes "-" else []
  let digits := decimal n.natAbs
  sign ++ List.replicate (width - sign.length - digits.length) (digit 0) ++ digits

theorem zeroPadded_ne_nil (width : ℕ) (n : ℤ) : zeroPadded width n ≠ [] := by
  intro h
  exact decimal_ne_nil _ (List.append_eq_nil_iff.mp h).2

end LogGenerator
