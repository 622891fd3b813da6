import GrammarDiagnostics.Message.Argument

/-! # The log

A log keeps what is reported, in order, and which file was registered at which point. The files are
named by references of a type `φ`.

* `Entry`: one report: diagnostic, arguments, offset and node.
* `Registration`: a file, and the index of the first entry that belongs to it.
* `Log`: the entries and the registrations; `Log.append` adds an entry, `Log.register` a
  registration that begins with the next entry.
* `Log.entryAt?`: the entry of an index; `Log.fileAt?`: the file of an index, that of the last
  registration that begins at or before it.
-/

set_option autoImplicit false

namespace GrammarDiagnostics

variable {φ : Type}

/-- One report. -/
structure Entry (φ : Type) where
  diagnostic : Diagnostic
  arguments : List (Argument φ) := []
  pos : Option Int := none
  node : Option Node := none

namespace Entry

/-- The entry of a report at an offset. -/
def atOffset (pos : Option Int) (d : Diagnostic) (args : List (Argument φ)) : Entry φ :=
  { diagnostic := d, arguments := Argument.unwrap args, pos := pos }

/-- The entry of a report at a node: its offset is where the node starts. -/
def atNode (node : Option Node) (d : Diagnostic) (args : List (Argument φ)) : Entry φ :=
  { diagnostic := d, arguments := Argument.unwrap args, pos := node.map Node.start, node := node }

/-- The arguments of an entry, when there are any. -/
def arguments? (e : Entry φ) : Option (List (Argument φ)) :=
  match e.arguments with
  | [] => none
  | args => some args

end Entry

/-- A registration: from the entry `first` on, entries belong to `file`; without a file, to none. -/
structure Registration (φ : Type) where
  file : Option φ
  first : Nat

/-- The entries reported so far and the registrations made so far, both oldest first. -/
structure Log (φ : Type) where
  entries : Array (Entry φ)
  registrations : Array (Registration φ)
  /-- Registrations begin in the order in which they were made. -/
  ascending : Ascending Registration.first registrations
  /-- Every registration was made at a length that the log has passed. -/
  first_le : ∀ (i : Nat) (h : i < registrations.size), registrations[i].first ≤ entries.size

namespace Log

/-- The log with nothing in it. -/
def empty : Log φ where
  entries := #[]
  registrations := #[]
  ascending := fun _ _ hi => absurd hi (Nat.not_lt_zero _)
  first_le := fun _ h => absurd h (Nat.not_lt_zero _)

def size (log : Log φ) : Nat := log.entries.size

def append (log : Log φ) (e : Entry φ) : Log φ where
  entries := log.entries.push e
  registrations := log.registrations
  ascending := log.ascending
  first_le := fun i h => by
    have := log.first_le i h
    simp only [Array.size_push]
    omega

/-- Registers a file, or no file, for the entries to come. -/
def register (log : Log φ) (file : Option φ) : Log φ where
  entries := log.entries
  registrations := log.registrations.push ⟨file, log.entries.size⟩
  ascending := fun i j hi hj hij => by
    have hi' : i < log.registrations.size + 1 := by simpa using hi
    have hj' : j < log.registrations.size + 1 := by simpa using hj
    simp only [Array.getElem_push]
    split <;> split
    · exact log.ascending i j _ _ hij
    · exact log.first_le i _
    · omega
    · exact Nat.le_refl _
  first_le := fun i h => by
    simp only [Array.getElem_push]
    split
    · exact log.first_le i _
    · exact Nat.le_refl _

/-- The entry of an index, when there is one. -/
def entryAt? (log : Log φ) (index : Int) : Option (Entry φ) :=
  if 0 ≤ index then log.entries[index.toNat]? else none

/-- The file of an index: that of the last registration that begins at or before it. An index past
the end gets the file registered last. -/
def fileAt? (log : Log φ) (index : Int) : Option φ :=
  let place := upperBound Registration.first log.registrations index
  have := upperBound_le_size Registration.first log.registrations index
  if h : 0 < place then log.registrations[place - 1].file else none

/-! ## What an addition changes -/

@[simp] theorem size_empty : (empty : Log φ).size = 0 := rfl

@[simp] theorem size_append (log : Log φ) (e : Entry φ) : (log.append e).size = log.size + 1 :=
  Array.size_push _

@[simp] theorem size_register (log : Log φ) (file : Option φ) :
    (log.register file).size = log.size := rfl

@[simp] theorem entryAt?_register (log : Log φ) (file : Option φ) (index : Int) :
    (log.register file).entryAt? index = log.entryAt? index := rfl

@[simp] theorem fileAt?_append (log : Log φ) (e : Entry φ) (index : Int) :
    (log.append e).fileAt? index = log.fileAt? index := rfl

theorem entryAt?_eq_none_of_neg (log : Log φ) {index : Int} (h : index < 0) :
    log.entryAt? index = none :=
  if_neg (by omega)

end Log

end GrammarDiagnostics
