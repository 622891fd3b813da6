import GrammarDiagnostics.Diagnostic.Catalog
import Mathlib.Data.List.Basic
import Mathlib.Order.Bounds.Basic

/-! # Which entry of a catalog is blamed

* `Catalog.Sound`: no code is negative, and no two entries share one other than 0;
  `Catalog.sound_perm_iff`: their order does not matter.
* `Catalog.nameOf?`: the first name of a code; `Catalog.Tells seen before`: these are the names that
  the check has noted.
* `Catalog.flawAfter?`: what is wrong with an entry behind sound ones; `Catalog.checkAfter_cons`:
  one step of the check, `Catalog.checkAfter_cases`: all of its steps.
* `Catalog.Offends catalog j`: the entry at a place has a negative code, or one that is taken;
  `Catalog.Blames catalog j flaw`: what is said of it.
* `Catalog.Flaw.Says`: the words for a flaw, where its code is not too long to be written.
* `check_blames_first`: the check passes the sound catalogs, and blames the first entry that offends
  in any other; `check_blames_first_longCode`: a flaw for which there are no words.
-/

set_option autoImplicit false

namespace GrammarDiagnostics

namespace Catalog

variable {catalog before rest after : Catalog} {entry : String × Diagnostic}
  {seen : List (Int × String)} {code : Int} {i j : Nat}

/-! ## Sound catalogs -/

/-- No code is negative, and no two entries share a code other than 0. -/
structure Sound (catalog : Catalog) : Prop where
  nonneg : ∀ entry ∈ catalog, 0 ≤ entry.2.code
  apart : catalog.Pairwise fun entry other => entry.2.code = other.2.code → entry.2.code = 0

theorem sound_nil : Sound [] := ⟨List.forall_mem_nil _, List.Pairwise.nil⟩

theorem sound_perm_iff {other : Catalog} (h : other.Perm catalog) :
    Sound other ↔ Sound catalog := by
  have hnonneg : (∀ entry ∈ other, 0 ≤ entry.2.code) ↔ ∀ entry ∈ catalog, 0 ≤ entry.2.code := by
    simp only [h.mem_iff]
  have hapart := h.pairwise_iff (R := fun entry other : String × Diagnostic =>
    entry.2.code = other.2.code → entry.2.code = 0) fun {x y} hxy hyx => by rw [hyx, hxy hyx.symm]
  exact ⟨fun hs => ⟨hnonneg.1 hs.nonneg, hapart.1 hs.apart⟩,
    fun hs => ⟨hnonneg.2 hs.nonneg, hapart.2 hs.apart⟩⟩

/-- The name under which a code other than 0 stands first. -/
def nameOf? (catalog : Catalog) (code : Int) : Option String :=
  if code = 0 then none
  else (List.find? (fun entry => entry.2.code = code) catalog).map Prod.fst

/-- What is wrong with an entry that follows sound ones. -/
def flawAfter? (before : Catalog) (entry : String × Diagnostic) : Option Flaw :=
  if entry.2.code < 0 then
    some (.negativeCode entry.1 entry.2.code)
  else
    (nameOf? before entry.2.code).map fun first => .duplicateCode entry.2.code first entry.1

@[simp] theorem nameOf?_zero (catalog : Catalog) : nameOf? catalog 0 = none := by
  simp [nameOf?]

theorem nameOf?_append (before rest : Catalog) (code : Int) :
    nameOf? (before ++ rest) code = (nameOf? before code).or (nameOf? rest code) := by
  unfold nameOf?
  split
  · rfl
  · rw [List.find?_append, Option.map_or]

theorem nameOf?_singleton (entry : String × Diagnostic) (code : Int) :
    nameOf? [entry] code = if code ≠ 0 ∧ entry.2.code = code then some entry.1 else none := by
  by_cases h0 : code = 0 <;> by_cases h : entry.2.code = code <;> simp [nameOf?, h0, h]

theorem nameOf?_eq_none_iff :
    nameOf? catalog code = none ↔ ∀ entry ∈ catalog, entry.2.code = code → code = 0 := by
  by_cases h0 : code = 0 <;> simp [nameOf?, h0]

theorem flawAfter?_eq_none_iff : flawAfter? before entry = none ↔
    0 ≤ entry.2.code ∧ ∀ e ∈ before, e.2.code = entry.2.code → e.2.code = 0 := by
  unfold flawAfter?
  split
  case isTrue hneg => simp [hneg]
  case isFalse hneg =>
    rw [Option.map_eq_none_iff, nameOf?_eq_none_iff, and_iff_right (by omega)]
    refine forall₂_congr fun e _ => forall_congr' fun h => ?_
    rw [h]

theorem sound_concat_iff :
    Sound (before ++ [entry]) ↔ Sound before ∧ flawAfter? before entry = none := by
  rw [flawAfter?_eq_none_iff]
  constructor
  · rintro ⟨hnonneg, hapart⟩
    rw [List.forall_mem_append] at hnonneg
    rw [List.pairwise_append] at hapart
    exact ⟨⟨hnonneg.1, hapart.1⟩, hnonneg.2 entry (List.mem_singleton_self entry),
      fun e he => hapart.2.2 e he entry (List.mem_singleton_self entry)⟩
  · rintro ⟨⟨hnonneg, hapart⟩, h0, hfree⟩
    refine ⟨List.forall_mem_append.2 ⟨hnonneg, by simpa using h0⟩, List.pairwise_append.2
      ⟨hapart, List.pairwise_singleton _ _, fun e he e' he' => ?_⟩⟩
    obtain rfl := List.mem_singleton.1 he'
    exact hfree e he

/-! ## The steps of the check -/

/-- The names noted are those of the codes of the entries passed. -/
def Tells (seen : List (Int × String)) (before : Catalog) : Prop :=
  ∀ code, seen.lookup code = nameOf? before code

theorem tells_nil : Tells [] [] := fun code => by simp [nameOf?]

/-- An entry of code 0 leaves the names noted as they are. -/
theorem Tells.concat_zero (h : Tells seen before) (h0 : entry.2.code = 0) :
    Tells seen (before ++ [entry]) := by
  intro code
  have hnone : nameOf? [entry] code = none := by
    rw [nameOf?_singleton, if_neg fun hcode => hcode.1 (hcode.2.symm.trans h0)]
  rw [nameOf?_append, hnone, Option.or_none, h code]

/-- A code that is noted in front was not noted before, so that its name stays the first. -/
theorem Tells.concat (h : Tells seen before) (h0 : entry.2.code ≠ 0)
    (hfree : nameOf? before entry.2.code = none) :
    Tells ((entry.2.code, entry.1) :: seen) (before ++ [entry]) := by
  intro code
  rw [nameOf?_append, nameOf?_singleton, List.lookup_cons]
  by_cases hcode : code = entry.2.code
  · subst hcode
    simp [hfree, h0]
  · simp [beq_eq_false_iff_ne.2 hcode, Ne.symm hcode, h code]

/-- The check stops at an entry with a flaw; it passes any other, with what it has noted. -/
theorem checkAfter_cons (h : Tells seen before) (entry : String × Diagnostic) (rest : Catalog) :
    (∃ flaw, flawAfter? before entry = some flaw ∧
        checkAfter seen (entry :: rest) = .error flaw) ∨
      flawAfter? before entry = none ∧ ∃ seen', Tells seen' (before ++ [entry]) ∧
        checkAfter seen (entry :: rest) = checkAfter seen' rest := by
  obtain ⟨name, d⟩ := entry
  by_cases hneg : d.code < 0
  · exact .inl ⟨_, if_pos hneg, by rw [checkAfter, if_pos hneg]⟩
  have hflaw : flawAfter? before (name, d)
      = (nameOf? before d.code).map fun first => .duplicateCode d.code first name := if_neg hneg
  by_cases h0 : d.code = 0
  · refine .inr ⟨?_, seen, h.concat_zero h0, by rw [checkAfter, if_neg hneg, if_pos h0]⟩
    rw [hflaw, h0, nameOf?_zero, Option.map_none]
  · cases hname : nameOf? before d.code with
    | none =>
      refine .inr ⟨by rw [hflaw, hname, Option.map_none], _, h.concat h0 hname, ?_⟩
      rw [checkAfter, if_neg hneg, if_neg h0, h d.code, hname]
    | some first =>
      refine .inl ⟨_, by rw [hflaw, hname, Option.map_some], ?_⟩
      rw [checkAfter, if_neg hneg, if_neg h0, h d.code, hname]

theorem checkAfter_cases (h : Tells seen before) (hsound : Sound before) (rest : Catalog) :
    (Sound (before ++ rest) ∧ checkAfter seen rest = .ok ()) ∨
      ∃ passed entry after flaw, rest = passed ++ entry :: after ∧ Sound (before ++ passed) ∧
        flawAfter? (before ++ passed) entry = some flaw ∧ checkAfter seen rest = .error flaw := by
  induction rest generalizing seen before with
  | nil => exact .inl ⟨by rwa [List.append_nil], rfl⟩
  | cons entry rest ih =>
    obtain ⟨flaw, hflaw, hcheck⟩ | ⟨hnone, seen', hseen, hcheck⟩ := checkAfter_cons h entry rest
    · exact .inr ⟨[], entry, rest, flaw, rfl, by rwa [List.append_nil],
        by rwa [List.append_nil], hcheck⟩
    rw [hcheck]
    obtain ⟨hs, hok⟩ | ⟨passed, e, after, flaw, rfl, hs, hflaw, herror⟩ :=
      ih hseen (sound_concat_iff.2 ⟨hsound, hnone⟩)
    · rw [List.append_assoc] at hs
      exact .inl ⟨hs, hok⟩
    · rw [List.append_assoc] at hs hflaw
      exact .inr ⟨entry :: passed, e, after, flaw, rfl, hs, hflaw, herror⟩

theorem check_cases (catalog : Catalog) :
    (Sound catalog ∧ catalog.check = .ok ()) ∨
      ∃ before entry after flaw, catalog = before ++ entry :: after ∧ Sound before ∧
        flawAfter? before entry = some flaw ∧ catalog.check = .error flaw :=
  checkAfter_cases tells_nil sound_nil catalog

/-! ## Places -/

/-- The code of the entry at a place. -/
def codeAt? (catalog : Catalog) (i : Nat) : Option Int := catalog[i]?.map fun entry => entry.2.code

/-- The entry at a place has a negative code, or a code other than 0 that an earlier one has. -/
def Offends (catalog : Catalog) (j : Nat) : Prop :=
  ∃ code, catalog.codeAt? j = some code ∧
    (code < 0 ∨ code ≠ 0 ∧ ∃ i < j, catalog.codeAt? i = some code)

theorem codeAt?_append_left (h : i < before.length) :
    codeAt? (before ++ rest) i = codeAt? before i := by
  simp only [codeAt?, List.getElem?_append_left h]

theorem codeAt?_append_length : codeAt? (before ++ entry :: after) before.length
    = some entry.2.code := by
  simp [codeAt?]

theorem codeAt?_eq_some_iff :
    codeAt? catalog i = some code ↔ ∃ h : i < catalog.length, catalog[i].2.code = code := by
  simp [codeAt?, List.getElem?_eq_some_iff]

theorem Sound.not_offends (h : Sound catalog) (j : Nat) : ¬ Offends catalog j := by
  rintro ⟨code, hcode, hneg | ⟨h0, i, hij, hi⟩⟩
  · obtain ⟨hj, rfl⟩ := codeAt?_eq_some_iff.1 hcode
    have := h.nonneg _ (List.getElem_mem hj)
    omega
  · obtain ⟨hj, rfl⟩ := codeAt?_eq_some_iff.1 hcode
    obtain ⟨hi, hsame⟩ := codeAt?_eq_some_iff.1 hi
    exact h0 (hsame ▸ List.pairwise_iff_getElem.1 h.apart i j hi hj hij hsame)

/-- Two entries of a sound catalog with one code other than 0 are at the same place. -/
theorem Sound.place_unique (h : Sound catalog) (h0 : code ≠ 0) (hi : codeAt? catalog i = some code)
    (hj : codeAt? catalog j = some code) : i = j := by
  rcases Nat.lt_trichotomy i j with hlt | heq | hgt
  · exact absurd ⟨code, hj, .inr ⟨h0, i, hlt, hi⟩⟩ (h.not_offends j)
  · exact heq
  · exact absurd ⟨code, hi, .inr ⟨h0, j, hgt, hj⟩⟩ (h.not_offends i)

/-- No place among sound entries offends, whatever follows them. -/
theorem Sound.le_of_offends (h : Sound before) (hj : Offends (before ++ rest) j) :
    before.length ≤ j := by
  apply Nat.le_of_not_lt
  intro hlt
  obtain ⟨code, hcode, hbad⟩ := hj
  rw [codeAt?_append_left hlt] at hcode
  refine h.not_offends j ⟨code, hcode, hbad.imp_right fun ⟨h0, i, hij, hi⟩ => ⟨h0, i, hij, ?_⟩⟩
  rwa [codeAt?_append_left (hij.trans hlt)] at hi

/-- An entry with a flaw has a negative code, or one that stands at an earlier place. -/
theorem flawAfter?_cases {flaw : Flaw} (h : flawAfter? before entry = some flaw) :
    (entry.2.code < 0 ∧ flaw = .negativeCode entry.1 entry.2.code) ∨
      0 < entry.2.code ∧ ∃ (i : Nat) (first : String) (d : Diagnostic),
        before[i]? = some (first, d) ∧ d.code = entry.2.code ∧
        flaw = .duplicateCode entry.2.code first entry.1 := by
  unfold flawAfter? nameOf? at h
  split at h
  case isTrue hneg => exact .inl ⟨hneg, (Option.some.inj h).symm⟩
  case isFalse hneg =>
    split at h
    case isTrue => cases h
    case isFalse h0 =>
      obtain ⟨first, hfirst, rfl⟩ := Option.map_eq_some_iff.1 h
      obtain ⟨⟨first, d⟩, hfind, rfl⟩ := Option.map_eq_some_iff.1 hfirst
      obtain ⟨i, hi⟩ := List.mem_iff_getElem?.1 (List.mem_of_find?_eq_some hfind)
      exact .inr ⟨by omega, i, first, d, hi, by simpa using List.find?_some hfind, rfl⟩

theorem offends_length {flaw : Flaw} (h : flawAfter? before entry = some flaw) (after : Catalog) :
    Offends (before ++ entry :: after) before.length := by
  refine ⟨entry.2.code, codeAt?_append_length, ?_⟩
  obtain ⟨hneg, _⟩ | ⟨hpos, i, first, d, hi, hcode, _⟩ := flawAfter?_cases h
  · exact .inl hneg
  · have hlt : i < before.length := (List.getElem?_eq_some_iff.1 hi).1
    refine .inr ⟨by omega, i, hlt, ?_⟩
    rw [codeAt?_append_left hlt, codeAt?, hi, ← hcode, Option.map_some]

/-- What is said of a flaw, if its code has no more digits than are written. -/
structure Flaw.Says (flaw : Flaw) (code : Int) (words : String) : Prop where
  inWords : digitCount code ≤ digitLimit → flaw.message = .ok words
  tooLong : digitLimit < digitCount code → flaw.message = .error .numberTooLong

theorem Flaw.says_negativeCode (name : String) (code : Int) :
    (negativeCode name code).Says code
      ("Diagnostic " ++ name ++ " has a negative code: " ++ decimal code) where
  inWords := fun h => by rw [message, writeNumber_of_le h]; rfl
  tooLong := fun h => by rw [message, writeNumber_of_lt h]; rfl

theorem Flaw.says_duplicateCode (code : Int) (first second : String) :
    (duplicateCode code first second).Says code
      ("Duplicate diagnostic code " ++ decimal code ++ ": " ++ first ++ " and " ++ second) where
  inWords := fun h => by rw [message, writeNumber_of_le h]; rfl
  tooLong := fun h => by rw [message, writeNumber_of_lt h]; rfl

/-- How the entry at a place offends, and what is said of it. -/
def Blames (catalog : Catalog) (j : Nat) (flaw : Flaw) : Prop :=
  ∃ name d, catalog[j]? = some (name, d) ∧
    (d.code < 0 ∧
        flaw.Says d.code ("Diagnostic " ++ name ++ " has a negative code: " ++ decimal d.code)
      ∨ 0 < d.code ∧ ∃ i first d', i < j ∧ catalog[i]? = some (first, d') ∧ d'.code = d.code ∧
        (∀ k < j, catalog.codeAt? k = some d.code → k = i) ∧
        flaw.Says d.code ("Duplicate diagnostic code " ++ decimal d.code ++ ": " ++ first
          ++ " and " ++ name))

theorem blames_length {flaw : Flaw} (hsound : Sound before)
    (h : flawAfter? before entry = some flaw) (after : Catalog) :
    Blames (before ++ entry :: after) before.length flaw := by
  refine ⟨entry.1, entry.2, by simp, ?_⟩
  obtain ⟨hneg, rfl⟩ | ⟨hpos, i, first, d, hi, hcode, rfl⟩ := flawAfter?_cases h
  · exact .inl ⟨hneg, Flaw.says_negativeCode _ _⟩
  · have hlt : i < before.length := (List.getElem?_eq_some_iff.1 hi).1
    refine .inr ⟨hpos, i, first, d, hlt, ?_, hcode, fun k hk hsame => ?_,
      Flaw.says_duplicateCode _ _ _⟩
    · rw [List.getElem?_append_left hlt, hi]
    · rw [codeAt?_append_left hk] at hsame
      refine hsound.place_unique (by omega) hsame ?_
      rw [codeAt?, hi, ← hcode, Option.map_some]

end Catalog

/-! ## The theorem -/

/-- A catalog passes the check exactly when it is sound, whatever the order of its entries. In any
other it is the first entry that offends which is blamed, together with the only entry before it
that has its code; what is said of it writes out the code, if this has no more digits than are
written. -/
theorem check_blames_first (catalog : Catalog) :
    (catalog.check = .ok () ↔ (∀ entry ∈ catalog, 0 ≤ entry.2.code) ∧
        catalog.Pairwise fun entry other => entry.2.code = other.2.code → entry.2.code = 0) ∧
      (∀ other : Catalog, other.Perm catalog →
        (other.check = .ok () ↔ catalog.check = .ok ())) ∧
      (catalog.check ≠ .ok () → ∃ j flaw, catalog.check = .error flaw ∧
        IsLeast {j | catalog.Offends j} j ∧ catalog.Blames j flaw) := by
  have hiff (catalog : Catalog) : catalog.check = .ok () ↔ catalog.Sound := by
    obtain ⟨hsound, hok⟩ | ⟨before, entry, after, flaw, rfl, hsound, hflaw, herror⟩ :=
      catalog.check_cases
    · exact iff_of_true hok hsound
    · rw [herror]
      exact iff_of_false (fun h => nomatch h)
        fun hs => hs.not_offends _ (Catalog.offends_length hflaw after)
  refine ⟨(hiff catalog).trans ⟨fun h => ⟨h.nonneg, h.apart⟩, fun h => ⟨h.1, h.2⟩⟩,
    fun other hperm => ?_, fun hfails => ?_⟩
  · rw [hiff, hiff, Catalog.sound_perm_iff hperm]
  · obtain ⟨_, hok⟩ | ⟨before, entry, after, flaw, rfl, hsound, hflaw, herror⟩ :=
      catalog.check_cases
    · exact absurd hok hfails
    · exact ⟨before.length, flaw, herror,
        ⟨Catalog.offends_length hflaw after, fun j hj => hsound.le_of_offends hj⟩,
        Catalog.blames_length hsound hflaw after⟩

/-- Code 0 is shared by two entries, 7 by the two after them, and the last code is negative. -/
theorem check_blames_first_secondOfPair :
    let shared : Catalog := [("A", ⟨0, "a", "error"⟩), ("B", ⟨0, "b", "warning"⟩)]
    let catalog : Catalog :=
      shared ++ [("C", ⟨7, "c", "error"⟩), ("D", ⟨7, "d", "error"⟩), ("E", ⟨-1, "e", "error"⟩)]
    (shared.reverse.Perm shared ∧ (Catalog.check shared.reverse = .ok () ↔ shared.check = .ok ()) ∧
        shared.check = .ok ()) ∧
      Catalog.check catalog ≠ .ok () ∧ ∃ j flaw, Catalog.check catalog = .error flaw ∧
        flaw.message = .ok "Duplicate diagnostic code 7: C and D" ∧
        IsLeast {j | Catalog.Offends catalog j} j ∧ Catalog.Blames catalog j flaw := by
  intro shared catalog
  have herror : Catalog.check catalog = .error (.duplicateCode 7 "C" "D") := by decide
  have hfails : Catalog.check catalog ≠ .ok () := by
    rw [herror]
    exact fun h => nomatch h
  have hperm : shared.reverse.Perm shared := List.reverse_perm shared
  obtain ⟨j, flaw, hflaw, hleast, hblames⟩ := (check_blames_first catalog).2.2 hfails
  obtain rfl := Except.error.inj (herror.symm.trans hflaw)
  exact ⟨⟨hperm, (check_blames_first shared).2.1 _ hperm, by decide⟩, hfails, j, _, hflaw,
    by decide, hleast, hblames⟩

/-- The only code is negative, and has a digit too many to be written. -/
theorem check_blames_first_longCode :
    let code : Int := -Nat.pow 10 digitLimit
    let flaw : Catalog.Flaw := .negativeCode "A" code
    Catalog.check [("A", ⟨code, "a", "error"⟩)] = .error flaw ∧
      flaw.message = .error .numberTooLong ∧
      flaw.message ≠ .ok ("Diagnostic A has a negative code: " ++ decimal code) := by
  have hpow (k : Nat) : -(Nat.pow 10 k : Int) < 0 :=
    Int.neg_neg_of_pos (Int.natCast_pos.2 (Nat.pow_pos (by decide)))
  intro code
  have hneg : code < 0 := hpow digitLimit
  have hlong : digitLimit < digitCount code := by
    rw [digitCount_neg]
    exact lt_digitCount_pow (by decide)
  -- only this is known of the code from here on, so that it is not computed
  generalize code = code at hneg hlong
  intro flaw
  have hmessage : flaw.message = .error .numberTooLong :=
    (Catalog.Flaw.says_negativeCode "A" code).tooLong hlong
  refine ⟨if_pos hneg, hmessage, ?_⟩
  rw [hmessage]
  exact fun h => nomatch h

end GrammarDiagnostics
