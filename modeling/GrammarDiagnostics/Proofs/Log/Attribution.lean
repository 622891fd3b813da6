import GrammarDiagnostics.Log.Basic

/-! # Attribution: which file an entry belongs to

The log finds the file of an entry by a search over its registrations. Here that search is traded
for a ledger, in which every entry stands beside its file.

* `Log.active`: the file registered last; `Log.begun`: how many registrations begin at or before an
  index.
* `Log.fileAt?_of_neg`, `Log.fileAt?_of_size_le`, `Log.fileAt?_register_of_lt`: before the log there
  is no file, past its end there is the active one, and a registration does not reach back.
* `Ledger`: entries beside their files; `Log.ledger` is the ledger that a log stands for.
* `Log.ledger_append`, `Log.ledger_register`: additions to the log are additions to its ledger.
-/

set_option autoImplicit false

namespace GrammarDiagnostics

variable {φ : Type}

namespace Log

/-! ## The file of an index -/

/-- The file that the next entry will belong to: the one registered last. -/
def active (log : Log φ) : Option φ := log.registrations.toList.getLast?.bind Registration.file

/-- How many registrations begin at or before an index. -/
def begun (log : Log φ) (index : Int) : Nat :=
  upperBound Registration.first log.registrations index

theorem fileAt?_eq_getLast? (log : Log φ) (index : Int) :
    log.fileAt? index =
      (log.registrations.toList.take (log.begun index)).getLast?.bind Registration.file := by
  have hsize : log.begun index ≤ log.registrations.size := upperBound_le_size _ _ _
  rw [List.getLast?_take]
  change (if h : 0 < log.begun index then _ else _) = _
  by_cases h : 0 < log.begun index
  · have hin : log.begun index - 1 < log.registrations.size := by omega
    rw [dif_pos h, if_neg (by omega), Array.getElem?_toList, Array.getElem?_eq_getElem hin,
      Option.some_or, Option.bind_some]
    rfl
  · rw [dif_neg h, if_pos (by omega), Option.bind_none]

theorem fileAt?_of_neg (log : Log φ) {index : Int} (h : index < 0) : log.fileAt? index = none := by
  have hbegun : log.begun index = 0 :=
    upperBound_eq log.ascending (Nat.zero_le _) (fun i _ hlt => absurd hlt (Nat.not_lt_zero i))
      (fun i hi _ => by omega)
  rw [fileAt?_eq_getLast?, hbegun, List.take_zero]
  rfl

theorem fileAt?_of_size_le (log : Log φ) {index : Int} (h : (log.size : Int) ≤ index) :
    log.fileAt? index = log.active := by
  have hbegun : log.begun index = log.registrations.toList.length :=
    upperBound_eq_size log.ascending fun i hi => by
      have := log.first_le i hi
      unfold size at h
      omega
  rw [fileAt?_eq_getLast?, hbegun, List.take_length]
  rfl

theorem fileAt?_register_of_lt (log : Log φ) (file : Option φ) {index : Int}
    (h : index < log.size) : (log.register file).fileAt? index = log.fileAt? index := by
  -- The new registration begins past `index`, so the search stops where it stopped before.
  have hbegun : (log.register file).begun index = log.begun index :=
    upperBound_push_of_lt log.ascending (log.register file).ascending h
  have hsize : log.begun index ≤ log.registrations.toList.length := upperBound_le_size _ _ _
  have hlist : (log.register file).registrations.toList
      = log.registrations.toList ++ [⟨file, log.size⟩] := Array.toList_push
  rw [fileAt?_eq_getLast?, fileAt?_eq_getLast?, hbegun, hlist, List.take_append_of_le_length hsize]

@[simp] theorem active_empty : (empty : Log φ).active = none := rfl

@[simp] theorem active_append (log : Log φ) (e : Entry φ) :
    (log.append e).active = log.active := rfl

@[simp] theorem active_register (log : Log φ) (file : Option φ) :
    (log.register file).active = file := by
  have hlist : (log.register file).registrations.toList
      = log.registrations.toList ++ [⟨file, log.size⟩] := Array.toList_push
  unfold active
  rw [hlist, List.getLast?_concat, Option.bind_some]

/-! ## The entry of an index -/

theorem entryAt?_natCast (log : Log φ) (index : Nat) :
    log.entryAt? (index : Int) = log.entries.toList[index]? := by
  unfold entryAt?
  rw [if_pos (Int.natCast_nonneg _), Int.toNat_natCast, Array.getElem?_toList]

theorem exists_entryAt? (log : Log φ) {index : Nat} (h : index < log.size) :
    ∃ e, log.entryAt? index = some e := by
  have hlt : index < log.entries.toList.length := h
  exact ⟨_, (log.entryAt?_natCast index).trans (List.getElem?_eq_getElem hlt)⟩

theorem entryAt?_of_size_le (log : Log φ) {index : Int} (h : (log.size : Int) ≤ index) :
    log.entryAt? index = none := by
  unfold entryAt?
  rw [if_pos (by omega)]
  apply Array.getElem?_eq_none
  unfold size at h
  omega

end Log

/-! ## Ledgers -/

/-- Entries beside the files that they belong to, and the file of the next entry. -/
structure Ledger (φ : Type) where
  entries : List (Entry φ × Option φ) := []
  active : Option φ := none

namespace Ledger

def append (ledger : Ledger φ) (e : Entry φ) : Ledger φ :=
  { ledger with entries := ledger.entries ++ [(e, ledger.active)] }

def register (ledger : Ledger φ) (file : Option φ) : Ledger φ := { ledger with active := file }

end Ledger

namespace Log

/-- Every entry beside the file that the search finds for it. -/
def attributed (log : Log φ) : List (Entry φ × Option φ) :=
  log.entries.toList.mapIdx fun index e => (e, log.fileAt? index)

def ledger (log : Log φ) : Ledger φ := ⟨log.attributed, log.active⟩

@[simp] theorem length_attributed (log : Log φ) : log.attributed.length = log.size := by
  unfold attributed
  rw [List.length_mapIdx, Array.length_toList]
  rfl

theorem getElem?_attributed (log : Log φ) (index : Nat) :
    log.attributed[index]? = (log.entryAt? index).map fun e => (e, log.fileAt? index) := by
  unfold attributed
  rw [List.getElem?_mapIdx, entryAt?_natCast]

theorem ledger_empty : (empty : Log φ).ledger = {} := rfl

theorem ledger_append (log : Log φ) (e : Entry φ) :
    (log.append e).ledger = log.ledger.append e := by
  have hfile : log.fileAt? log.entries.toList.length = log.active :=
    log.fileAt?_of_size_le (Int.le_refl _)
  have hentries : (log.append e).attributed = log.attributed ++ [(e, log.active)] := by
    change (log.entries.push e).toList.mapIdx (fun index e => (e, log.fileAt? index)) = _
    rw [Array.toList_push, List.mapIdx_concat, hfile]
    rfl
  unfold ledger
  rw [hentries]
  rfl

theorem ledger_register (log : Log φ) (file : Option φ) :
    (log.register file).ledger = log.ledger.register file := by
  have hentries : (log.register file).attributed = log.attributed := by
    apply List.mapIdx_eq_mapIdx_iff.2
    intro index hin
    rw [Array.length_toList] at hin
    have hlt : (index : Int) < log.size := Int.ofNat_lt.2 hin
    rw [log.fileAt?_register_of_lt file hlt]
  unfold ledger
  rw [hentries, active_register]
  rfl

end Log

end GrammarDiagnostics
