import Mathlib.Data.List.TakeWhile
import HiSysEvent.Wire

/-!
# Return codes and limits

The constants of `def.h`, shared by the writer, the encoder and the transport. A
negative code rejects the event, a positive one warns about a parameter.
-/

namespace HiSysEvent

export Wire (Bytes)

abbrev success : ℤ := 0

/-! ## Errors -/

abbrev errDomainNameInvalid : ℤ := -1
abbrev errEventNameInvalid : ℤ := -2
abbrev errDoesNotInit : ℤ := -3
abbrev errOverSize : ℤ := -4
abbrev errSendFail : ℤ := -5
abbrev errWriteInHighFreq : ℤ := -6
abbrev errDomainMasked : ℤ := -7
abbrev errEmptyEvent : ℤ := -8
abbrev errRawDataWroteException : ℤ := -9

/-! ## Warnings -/

abbrev errKeyNameInvalid : ℤ := 1
abbrev errValueLengthTooLong : ℤ := 2
abbrev errKeyNumberTooMuch : ℤ := 3
abbrev errArrayTooMuch : ℤ := 4
abbrev errValueInvalid : ℤ := 5

/-! ## Limits -/

abbrev maxDomainLength : ℕ := 16
abbrev maxEventNameLength : ℕ := 32
abbrev maxParamNameLength : ℕ := 48
abbrev maxArraySize : ℕ := 100
abbrev maxParamNumber : ℕ := 128
abbrev maxStringLength : ℕ := 256 * 1024
abbrev maxDataSize : ℕ := 384 * 1024

/-- The bytes of a character array up to its first NUL. -/
def cString (bs : Bytes) : Bytes :=
  bs.takeWhile (· != 0)

theorem cString_eq_self {s : Bytes} (h : 0 ∉ s) : cString s = s :=
  List.takeWhile_eq_self_iff.2 fun b hb => by simpa using fun h0 : b = 0 => h (h0 ▸ hb)

/-- A NUL-free string is read back from an array that pads it with NULs. -/
theorem cString_pad {s : Bytes} (h : 0 ∉ s) (n : ℕ) : cString (s ++ List.replicate n 0) = s := by
  unfold cString
  rw [List.takeWhile_append_of_pos fun b hb => by simpa using fun h0 : b = 0 => h (h0 ▸ hb)]
  cases n <;> simp [List.replicate_succ]

end HiSysEvent
