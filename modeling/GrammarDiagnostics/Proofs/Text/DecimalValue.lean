import GrammarDiagnostics.Text.DecimalDigit
import Mathlib.Data.List.Forall2
import Mathlib.Data.List.Induction
import Mathlib.Data.Nat.Digits.Defs

/-! # What number a run of digits writes

* `DigitOf c d`: `c` is the digit of the value `d` in some script.
* `digitValue?_eq_some_iff`: no character is a digit of two values.
* `decimalValue_eq_ofDigits`: the number of a run of digits by the places of its digits.
* `WritesNumber digits n`: `n` is written by these digits, whatever their scripts.
-/

set_option autoImplicit false

namespace GrammarDiagnostics

/-- The digit of the value `d` stands `d` places after the zero of its script. -/
def DigitOf (c : Char) (d : Nat) : Prop := d < 10 ∧ ∃ z ∈ digitZeros, c.toNat = z + d

theorem eq_or_digitZeros_apart : ∀ z ∈ digitZeros, ∀ z' ∈ digitZeros,
    z = z' ∨ z + 10 ≤ z' ∨ z' + 10 ≤ z := by
  decide +kernel

theorem digitValue?_eq_some_iff {c : Char} {d : Nat} : digitValue? c = some d ↔ DigitOf c d := by
  unfold digitValue? DigitOf
  rw [Option.map_eq_some_iff]
  constructor
  · rintro ⟨z, hfind, rfl⟩
    have hin := List.find?_some hfind
    rw [Bool.and_eq_true, decide_eq_true_iff, decide_eq_true_iff] at hin
    exact ⟨by omega, z, List.mem_of_find?_eq_some hfind, by omega⟩
  · rintro ⟨hd, z, hz, hc⟩
    have hsome : (digitZeros.find? fun z => z ≤ c.toNat && c.toNat < z + 10).isSome = true := by
      rw [List.find?_isSome]
      refine ⟨z, hz, ?_⟩
      rw [Bool.and_eq_true, decide_eq_true_iff, decide_eq_true_iff]
      omega
    obtain ⟨z', hfind⟩ := Option.isSome_iff_exists.1 hsome
    have hin := List.find?_some hfind
    rw [Bool.and_eq_true, decide_eq_true_iff, decide_eq_true_iff] at hin
    have hapart := eq_or_digitZeros_apart z' (List.mem_of_find?_eq_some hfind) z hz
    exact ⟨z', hfind, by omega⟩

theorem exists_digitOf {c : Char} (h : isDecimalDigit c = true) :
    DigitOf c ((digitValue? c).getD 0) := by
  obtain ⟨d, hd⟩ := Option.isSome_iff_exists.1 h
  rw [hd]
  exact digitValue?_eq_some_iff.1 hd

theorem decimalValue_concat (digits : List Char) (c : Char) :
    decimalValue (digits ++ [c]) = 10 * decimalValue digits + (digitValue? c).getD 0 := by
  unfold decimalValue
  rw [List.foldl_concat]

theorem decimalValue_eq_ofDigits (digits : List Char) :
    decimalValue digits
      = Nat.ofDigits 10 (digits.map fun c => (digitValue? c).getD 0).reverse := by
  induction digits using List.reverseRecOn with
  | nil => rfl
  | append_singleton digits c ih =>
    rw [decimalValue_concat, ih, List.map_append, List.reverse_append, List.map_singleton,
      List.reverse_singleton, List.singleton_append, Nat.ofDigits_cons, Nat.add_comm]

/-- The number `n` is written by these digits: each counts by its value in its own script, and ten
times as much for every digit behind it. -/
def WritesNumber (digits : List Char) (n : Nat) : Prop :=
  ∃ values : List Nat, List.Forall₂ DigitOf digits values ∧ n = Nat.ofDigits 10 values.reverse

theorem writesNumber_decimalValue {digits : List Char} (h : ∀ c ∈ digits, isDecimalDigit c = true) :
    WritesNumber digits (decimalValue digits) := by
  refine ⟨_, ?_, decimalValue_eq_ofDigits digits⟩
  rw [List.forall₂_map_right_iff, List.forall₂_same]
  exact fun c hc => exists_digitOf (h c hc)

end GrammarDiagnostics
