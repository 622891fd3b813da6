/-! # Searching a sorted array

* `upperBound key xs x`: the place just after the last element of `xs` whose key is at most `x`,
  found by halving the window that can still hold it.
* `upperBound_le_size`: the answer is a place in the array or its end.
* `key_le_of_lt_upperBound`, `lt_key_of_upperBound_le`: when the keys ascend, every element before
  the answer has a key at most `x` and every element from the answer on has a larger one.
* `upperBound_eq`: these two sides determine the answer; `upperBound_push_of_lt`: a new last element
  with a larger key does not change it.
-/

set_option autoImplicit false

namespace GrammarDiagnostics

variable {α : Type}

/-- The search inside the window from `lo` up to, but not including, `hi`: everything before the
window is known to be at most `x`, everything after it to be larger. -/
def upperBoundIn (key : α → Nat) (xs : Array α) (x : Int) (lo hi : Nat) (hhi : hi ≤ xs.size) :
    Nat :=
  if h : lo < hi then
    let mid := (lo + hi) / 2
    have hmid : mid < hi := by omega
    have hin : mid < xs.size := by omega
    if x < key xs[mid] then
      upperBoundIn key xs x lo mid (by omega)
    else
      upperBoundIn key xs x (mid + 1) hi hhi
  else
    lo
termination_by hi - lo

/-- The place just after the last element whose key is at most `x`; an element whose key equals
`x` lies before it. -/
def upperBound (key : α → Nat) (xs : Array α) (x : Int) : Nat :=
  upperBoundIn key xs x 0 xs.size (Nat.le_refl _)

theorem upperBoundIn_le {key : α → Nat} {xs : Array α} {x : Int} {lo hi : Nat}
    {hhi : hi ≤ xs.size} (h : lo ≤ hi) : upperBoundIn key xs x lo hi hhi ≤ hi := by
  fun_induction upperBoundIn key xs x lo hi hhi with
  | case1 lo hi hhi hlt mid hmid hin hx ih => exact Nat.le_trans (ih (by omega)) (by omega)
  | case2 lo hi hhi hlt mid hmid hin hx ih => exact ih (by omega)
  | case3 lo hi hhi hlt => exact h

theorem upperBound_le_size (key : α → Nat) (xs : Array α) (x : Int) :
    upperBound key xs x ≤ xs.size :=
  upperBoundIn_le (Nat.zero_le _)

/-! ## The two sides of the answer -/

/-- The keys of `xs` ascend, repetitions allowed. -/
def Ascending (key : α → Nat) (xs : Array α) : Prop :=
  ∀ (i j : Nat) (hi : i < xs.size) (hj : j < xs.size), i ≤ j → key xs[i] ≤ key xs[j]

theorem key_le_of_lt_upperBoundIn {key : α → Nat} {xs : Array α} {x : Int} {lo hi : Nat}
    {hhi : hi ≤ xs.size} (asc : Ascending key xs)
    (below : ∀ (i : Nat) (hi : i < xs.size), i < lo → (key xs[i] : Int) ≤ x)
    {i : Nat} (hin : i < xs.size) (h : i < upperBoundIn key xs x lo hi hhi) :
    (key xs[i] : Int) ≤ x := by
  fun_induction upperBoundIn key xs x lo hi hhi with
  | case1 lo hi hhi hlt mid hmid hmin hx ih => exact ih below h
  | case2 lo hi hhi hlt mid hmid hmin hx ih =>
    refine ih (fun j hj hjlo => ?_) h
    have := asc j mid hj hmin (by omega)
    omega
  | case3 lo hi hhi hlt => exact below i hin h

theorem lt_key_of_upperBoundIn_le {key : α → Nat} {xs : Array α} {x : Int} {lo hi : Nat}
    {hhi : hi ≤ xs.size} (asc : Ascending key xs) (hle : lo ≤ hi)
    (above : ∀ (i : Nat) (hin : i < xs.size), hi ≤ i → x < (key xs[i] : Int))
    {i : Nat} (hin : i < xs.size) (h : upperBoundIn key xs x lo hi hhi ≤ i) :
    x < (key xs[i] : Int) := by
  fun_induction upperBoundIn key xs x lo hi hhi with
  | case1 lo hi hhi hlt mid hmid hmin hx ih =>
    refine ih (by omega) (fun j hj hjlo => ?_) h
    have := asc mid j hmin hj (by omega)
    omega
  | case2 lo hi hhi hlt mid hmid hmin hx ih => exact ih (by omega) above h
  | case3 lo hi hhi hlt => exact above i hin (by omega)

/-- Every element before the answer has a key at most the one searched for. -/
theorem key_le_of_lt_upperBound {key : α → Nat} {xs : Array α} {x : Int}
    (asc : Ascending key xs) {i : Nat} (hin : i < xs.size) (h : i < upperBound key xs x) :
    (key xs[i] : Int) ≤ x :=
  key_le_of_lt_upperBoundIn asc (fun _ _ h0 => absurd h0 (Nat.not_lt_zero _)) hin h

/-- Every element from the answer on has a key above the one searched for. -/
theorem lt_key_of_upperBound_le {key : α → Nat} {xs : Array α} {x : Int}
    (asc : Ascending key xs) {i : Nat} (hin : i < xs.size) (h : upperBound key xs x ≤ i) :
    x < (key xs[i] : Int) :=
  lt_key_of_upperBoundIn_le asc (Nat.zero_le _) (fun _ hin hge => absurd hge (by omega)) hin h

/-! ## The answer is determined -/

/-- The two sides determine the answer. -/
theorem upperBound_eq {key : α → Nat} {xs : Array α} {x : Int} {place : Nat}
    (asc : Ascending key xs) (hplace : place ≤ xs.size)
    (below : ∀ (i : Nat) (hi : i < xs.size), i < place → (key xs[i] : Int) ≤ x)
    (above : ∀ (i : Nat) (hi : i < xs.size), place ≤ i → x < (key xs[i] : Int)) :
    upperBound key xs x = place := by
  have hsize := upperBound_le_size key xs x
  rcases Nat.lt_trichotomy (upperBound key xs x) place with hlt | heq | hgt
  · have hin : upperBound key xs x < xs.size := by omega
    have h1 := below _ hin hlt
    have h2 := lt_key_of_upperBound_le asc hin (Nat.le_refl _)
    omega
  · exact heq
  · have hin : place < xs.size := by omega
    have h1 := above _ hin (Nat.le_refl _)
    have h2 := key_le_of_lt_upperBound asc hin hgt
    omega

/-- Where no key is larger, the answer is the end of the array. -/
theorem upperBound_eq_size {key : α → Nat} {xs : Array α} {x : Int} (asc : Ascending key xs)
    (h : ∀ (i : Nat) (hi : i < xs.size), (key xs[i] : Int) ≤ x) :
    upperBound key xs x = xs.size :=
  upperBound_eq asc (Nat.le_refl _) (fun i hi _ => h i hi) (fun i hi hle => absurd hi (by omega))

/-- A new last element with a larger key leaves the answer as it is. -/
theorem upperBound_push_of_lt {key : α → Nat} {xs : Array α} {a : α} {x : Int}
    (asc : Ascending key xs) (asc' : Ascending key (xs.push a)) (h : x < key a) :
    upperBound key (xs.push a) x = upperBound key xs x := by
  have hsize := upperBound_le_size key xs x
  apply upperBound_eq asc' (by rw [Array.size_push]; omega)
  · intro i hi hlt
    rw [Array.getElem_push_lt (by omega)]
    exact key_le_of_lt_upperBound asc _ hlt
  · intro i hi hle
    rw [Array.getElem_push]
    split
    case isTrue hin => exact lt_key_of_upperBound_le asc hin hle
    case isFalse => exact h

end GrammarDiagnostics
