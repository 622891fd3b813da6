/-! # Numbers as text

* `decimal n`: the decimal text of an integer, with a minus sign when it is negative.
* `digitCount n`, `digitLimit`: how many digits an integer has, and how many are read and written
  at most.
* `padded base width n`: the digits of a natural number, filled up with zeros on the left.
* `decimal_injective`: different integers have different decimal texts.
-/

set_option autoImplicit false

namespace GrammarDiagnostics

/-- The decimal text of an integer. -/
def decimal (n : Int) : String :=
  let digits := Nat.toDigits 10 n.natAbs
  String.ofList (if n < 0 then '-' :: digits else digits)

/-- The number of decimal digits of an integer, its sign not counted. -/
def digitCount (n : Int) : Nat := (Nat.toDigits 10 n.natAbs).length

/-- The number of digits up to which numbers are read and written. -/
def digitLimit : Nat := 4300

@[simp] theorem digitCount_neg (n : Int) : digitCount (-n) = digitCount n := by
  rw [digitCount, Int.natAbs_neg, digitCount]

theorem lt_digitCount_pow {k : Nat} (hk : 0 < k) : k < digitCount (Nat.pow 10 k) := by
  rw [← Nat.not_le, digitCount, Int.natAbs_natCast, Nat.length_toDigits_le_iff (by decide) hk]
  exact Nat.lt_irrefl _

/-- The digits of `n` in the given base, most significant first and at least `width` of them. -/
def padded (base width n : Nat) : List Char :=
  let digits := Nat.toDigits base n
  List.replicate (width - digits.length) '0' ++ digits

/-! ## Reading a decimal text back -/

theorem natAbs_of_toDigits_eq {m n : Nat} (h : Nat.toDigits 10 m = Nat.toDigits 10 n) : m = n := by
  have := congrArg (fun digits => Nat.ofDigitChars 10 digits 0) h
  simpa using this

theorem minus_notMem_toDigits (n : Nat) : '-' ∉ Nat.toDigits 10 n := by
  intro h
  have := Nat.isDigit_of_mem_toDigits (by decide) (by decide) h
  exact absurd this (by decide)

/-- The sign and the digits of a decimal text determine the integer. -/
theorem decimal_injective {m n : Int} (h : decimal m = decimal n) : m = n := by
  have hl := congrArg String.toList h
  simp only [decimal, String.toList_ofList] at hl
  by_cases hm : m < 0 <;> by_cases hn : n < 0 <;> simp only [hm, hn, if_true, if_false] at hl
  · have := natAbs_of_toDigits_eq (List.cons.inj hl).2
    omega
  · exact absurd (hl ▸ List.mem_cons_self) (minus_notMem_toDigits _)
  · exact absurd (hl ▸ List.mem_cons_self) (minus_notMem_toDigits _)
  · have := natAbs_of_toDigits_eq hl
    omega

end GrammarDiagnostics
