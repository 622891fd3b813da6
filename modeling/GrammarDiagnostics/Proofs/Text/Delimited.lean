import GrammarDiagnostics.Text.Numeral

/-! # Texts that end at a mark

* `append_mark_inj`: a text in which a mark does not occur is seen from the mark behind it.
* `mem_decimal`, `comma_notMem_decimal`: what a decimal text is written with.
* `decimals_inj`, `count_comma_decimals`: two decimal texts with a comma between them.
-/

set_option autoImplicit false

namespace GrammarDiagnostics

theorem append_mark_inj {body body' rest rest' : List Char} {mark : Char} (h : mark ∉ body)
    (h' : mark ∉ body') (heq : body ++ mark :: rest = body' ++ mark :: rest') :
    body = body' ∧ rest = rest' := by
  induction body generalizing body' with
  | nil =>
    cases body' with
    | nil => exact ⟨rfl, (List.cons.inj heq).2⟩
    | cons c body' => exact absurd ((List.cons.inj heq).1 ▸ List.mem_cons_self) h'
  | cons c body ih =>
    cases body' with
    | nil => exact absurd ((List.cons.inj heq).1 ▸ List.mem_cons_self) h
    | cons c' body' =>
      simp only [List.cons_append, List.cons.injEq] at heq
      obtain ⟨rfl, htail⟩ := heq
      obtain ⟨rfl, hrest⟩ := ih (List.not_mem_of_not_mem_cons h) (List.not_mem_of_not_mem_cons h')
        htail
      exact ⟨rfl, hrest⟩

/-! ## Decimal texts -/

theorem mem_decimal {n : Int} {c : Char} (h : c ∈ (decimal n).toList) :
    c = '-' ∨ c.isDigit = true := by
  have hdigit : c ∈ Nat.toDigits 10 n.natAbs → c.isDigit = true :=
    Nat.isDigit_of_mem_toDigits (by decide) (by decide)
  simp only [decimal, String.toList_ofList] at h
  split at h
  · exact (List.mem_cons.1 h).imp_right hdigit
  · exact .inr (hdigit h)

theorem comma_notMem_decimal (n : Int) : ',' ∉ (decimal n).toList := fun h =>
  absurd (mem_decimal h) (by decide)

theorem decimals_inj {a b a' b' : Int}
    (h : decimal a ++ "," ++ decimal b = decimal a' ++ "," ++ decimal b') : a = a' ∧ b = b' := by
  have hlist := congrArg String.toList h
  simp only [String.toList_append, List.append_assoc] at hlist
  obtain ⟨ha, hb⟩ := append_mark_inj (comma_notMem_decimal a) (comma_notMem_decimal a') hlist
  exact ⟨decimal_injective (String.toList_inj.1 ha), decimal_injective (String.toList_inj.1 hb)⟩

theorem count_comma_decimals (a b : Int) :
    (decimal a ++ "," ++ decimal b).toList.count ',' = 1 := by
  simp [List.count_eq_zero.2 (comma_notMem_decimal _)]

end GrammarDiagnostics
