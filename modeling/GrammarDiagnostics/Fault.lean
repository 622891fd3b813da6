import GrammarDiagnostics.Text.Numeral

/-! # What can go wrong in the work on a log

* `Fault`: a placeholder with more digits than are read, a number with more digits than are written,
  or a registration of no file.
* `Fault.message`: what is said of it.
* `writeNumber n`: the decimal text of `n`, unless it has too many digits.
-/

set_option autoImplicit false

namespace GrammarDiagnostics

/-- What can go wrong while messages are rendered and files registered. -/
inductive Fault where
  /-- A placeholder has this many digits, more than are read. -/
  | placeholderTooLong (digits : Nat)
  /-- A number has more digits than are written. -/
  | numberTooLong
  /-- A registration names no file. -/
  | noFileToRegister
  deriving DecidableEq, Repr

/-- What is said of a fault. -/
def Fault.message : Fault → String
  | .placeholderTooLong digits =>
    "Exceeds the limit (" ++ decimal digitLimit
      ++ " digits) for integer string conversion: value has " ++ decimal digits
      ++ " digits; use sys.set_int_max_str_digits() to increase the limit"
  | .numberTooLong =>
    "Exceeds the limit (" ++ decimal digitLimit
      ++ " digits) for integer string conversion; use sys.set_int_max_str_digits() to increase"
      ++ " the limit"
  | .noFileToRegister => "'NoneType' object has no attribute 'filename'"

/-! ## Numbers

Codes, offsets, lines and characters are written out where they are printed, each up to the same
number of digits. The text of an argument, and the written form of a snapshot, are taken to be there
whatever the numbers in them. -/

/-- The decimal text of a number, when it has no more digits than are written. -/
def writeNumber (n : Int) : Except Fault String :=
  if digitCount n ≤ digitLimit then .ok (decimal n) else .error .numberTooLong

theorem writeNumber_of_le {n : Int} (h : digitCount n ≤ digitLimit) :
    writeNumber n = .ok (decimal n) := if_pos h

theorem writeNumber_of_lt {n : Int} (h : digitLimit < digitCount n) :
    writeNumber n = .error .numberTooLong := if_neg (Nat.not_le.2 h)

theorem writeNumber_eq_ok_iff {n : Int} {s : String} :
    writeNumber n = .ok s ↔ digitCount n ≤ digitLimit ∧ decimal n = s := by
  unfold writeNumber
  split
  case isTrue h => simp [h]
  case isFalse h => simp [h]

end GrammarDiagnostics
