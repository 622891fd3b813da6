import GrammarDiagnostics.Proofs.Message.FilesShown
import GrammarDiagnostics.Proofs.Session.View

/-! # What an entry is rendered to

The rendering of an entry as a function of the entry itself, of what its file shows, and of the
files that its arguments refer to. The index of the entry and the rest of the log do not enter.

* `Entry.message`, `Entry.range`, `Entry.info`: the message, the range and the snapshot of an entry
  in a file with a given name and line table, given what the files are.
* `View.message`, `View.range?`, `View.info?`: those of the entry of an index.
* `yields_message`, `yields_range?`, `yields_info?`, `yields_infosOf`: this is what the work on a
  session yields.
-/

set_option autoImplicit false

namespace GrammarDiagnostics

variable {φ : Type}

/-! ## One entry -/

def placeIn (table : Option LineTable) (pos : Int) : Except Fault String :=
  match table with
  | some t => do return "(" ++ (← t.formatPosition pos) ++ ")"
  | none => do return "(" ++ (← writeNumber pos) ++ ")"

def positionIn (table : Option LineTable) (pos : Int) : Position :=
  match table with
  | some t => t.locate pos
  | none => ⟨0, pos⟩

namespace Entry

/-- Where an entry is, as it is printed; an entry without an offset is nowhere. -/
def location (e : Entry φ) (table : Option LineTable) : Except Fault String :=
  match e.pos with
  | some pos => placeIn table pos
  | none => .ok ""

/-- What stands in front of the detailed message of an entry. -/
def heading (e : Entry φ) (filename : String) (table : Option LineTable) : Except Fault String := do
  let location ← e.location table
  let label ← Diagnostic.label e.diagnostic.code
  return filename ++ location ++ ": " ++ e.diagnostic.severity ++ " " ++ label ++ ": "

def wording (e : Entry φ) (files : φ → SourceFile) : Except Fault String :=
  match e.arguments? with
  | some args => outcomeOf (format files e.diagnostic.message [.tuple args]) #[]
  | none => .ok e.diagnostic.message

def message (e : Entry φ) (files : φ → SourceFile) (filename : String) (table : Option LineTable)
    (detailed : Bool) : Except Fault String := do
  let front ← if detailed then e.heading filename table else pure ""
  return front ++ (← e.wording files)

theorem message_false (e : Entry φ) (files : φ → SourceFile) (filename : String)
    (table : Option LineTable) : e.message files filename table false = e.wording files := by
  have hmessage : e.message files filename table false
      = (fun text => "" ++ text) <$> e.wording files := by
    unfold message
    cases e.wording files <;> rfl
  rw [hmessage]
  simp only [String.empty_append, id_map']

def range (e : Entry φ) (table : Option LineTable) : Range :=
  ⟨positionIn table (Session.bounds e).1, positionIn table (Session.bounds e).2⟩

/-- The snapshot of an entry, from the parts that are found for it. -/
def snapshot (e : Entry φ) (index : Int) (range : Option Range) (file : Option φ)
    (formatted : Option String) : Info φ where
  index := index
  code := e.diagnostic.code
  message := e.diagnostic.message
  arguments := e.arguments?
  warning := e.diagnostic.isWarning
  range := range
  file := file
  node := e.node
  pos := e.pos
  formatted := formatted

def info (e : Entry φ) (index : Int) (files : φ → SourceFile) (file : Option φ)
    (filename : String) (table : Option LineTable) (options : InfoOptions) :
    Except Fault (Info φ) := do
  let formatted ← if options.formatMessage then
      some <$> e.message files filename table options.detailedMessage
    else
      pure none
  return e.snapshot index (some (e.range table)) file formatted

end Entry

/-! ## The entry of an index -/

namespace View

def filename (v : View φ) (file : Option φ) : String :=
  match file with
  | some f => (v.files f).filename
  | none => ""

def table (v : View φ) (file : Option φ) : Option LineTable :=
  file.bind fun f => (v.files f).table

def message (v : View φ) (index : Int) (detailed : Bool) : Except Fault String :=
  match v.sink.entryAt? index with
  | none => .ok ""
  | some e =>
    e.message v.sources (v.filename (v.sink.fileAt? index)) (v.table (v.sink.fileAt? index))
      detailed

def range? (v : View φ) (index : Int) : Option Range :=
  (v.sink.entryAt? index).map fun e => e.range (v.table (v.sink.fileAt? index))

def info? (v : View φ) (index : Int) (options : InfoOptions) : Except Fault (Option (Info φ)) :=
  match v.sink.entryAt? index with
  | none => .ok none
  | some e => some <$> e.info index v.sources (v.sink.fileAt? index)
      (v.filename (v.sink.fileAt? index)) (v.table (v.sink.fileAt? index)) options

def infosOf [DecidableEq φ] (v : View φ) (file : Option φ) (options : InfoOptions) :
    Except Fault (List (Info φ)) :=
  (List.range v.sink.size).filterMapM fun (index : Nat) =>
    if v.sink.fileAt? index = file then v.info? index options else .ok none

/-! ### When there is an entry, and when there is none -/

variable {v : View φ} {index : Int} {e : Entry φ}

theorem message_of_none (he : v.sink.entryAt? index = none) (detailed : Bool) :
    v.message index detailed = .ok "" := by
  unfold View.message
  rw [he]

theorem range?_of_none (he : v.sink.entryAt? index = none) : v.range? index = none := by
  unfold View.range?
  rw [he]
  rfl

theorem info?_of_none (he : v.sink.entryAt? index = none) (options : InfoOptions) :
    v.info? index options = .ok none := by
  unfold View.info?
  rw [he]

theorem message_of_entryAt? (he : v.sink.entryAt? index = some e) (detailed : Bool) :
    v.message index detailed = e.message v.sources (v.filename (v.sink.fileAt? index))
      (v.table (v.sink.fileAt? index)) detailed := by
  unfold View.message
  rw [he]

theorem range?_of_entryAt? (he : v.sink.entryAt? index = some e) :
    v.range? index = some (e.range (v.table (v.sink.fileAt? index))) := by
  unfold View.range?
  rw [he]
  rfl

theorem info?_of_entryAt? (he : v.sink.entryAt? index = some e) (options : InfoOptions) :
    v.info? index options = some <$> e.info index v.sources (v.sink.fileAt? index)
      (v.filename (v.sink.fileAt? index)) (v.table (v.sink.fileAt? index)) options := by
  unfold View.info?
  rw [he]

end View

/-! ## The work on a session yields this -/

section Session

open Session

theorem yields_fileAt? (index : Int) :
    Yields (fileAt? index : Work φ (Option φ)) fun v => .ok (v.sink.fileAt? index) :=
  Yields.ofView fun s => fileAt?_eq s index

theorem yields_indices :
    Yields (indices : Work φ (List Nat)) fun v => .ok (List.range v.sink.size) :=
  Yields.ofView fun s => indices_eq s

theorem yields_wording (e : Entry φ) :
    Yields (wording e : Work φ String) fun v => e.wording v.sources := by
  refine Yields.get_bind (a := fun v _ => e.wording v.sources) fun s => ?_
  unfold Entry.wording
  cases e.arguments? with
  | none => exact Yields.pure _
  | some args =>
    -- What is written of a file is its name and its text, and these are in the view.
    have hshown : outcomeOf (format s.files e.diagnostic.message [.tuple args]) #[]
        = outcomeOf (format s.view.sources e.diagnostic.message [.tuple args]) #[] :=
      outcomeOf_format_congr
        (fun f _ => show (s.files f).literal = (s.view.sources f).literal from rfl) _
    exact (yields_noted _).congr fun _ => hshown

variable [DecidableEq φ]

theorem yields_table? (file : Option φ) : Yields (table? file) fun v => .ok (v.table file) := by
  cases file with
  | none => exact Yields.pure none
  | some f => exact yields_table f

theorem yields_place (file : Option φ) (pos : Int) :
    Yields (place file pos) fun v => placeIn (v.table file) pos := by
  refine Yields.congr (b := fun v => placeIn (v.table file) pos)
    ((yields_table? file).bind (b := fun t _ => placeIn t pos) fun t => ?_) fun v => rfl
  cases t with
  | none => exact (Yields.ofExcept (writeNumber pos)).bind fun text => Yields.pure _
  | some t => exact (Yields.ofExcept (t.formatPosition pos)).bind fun text => Yields.pure _

theorem yields_heading (file : Option φ) (e : Entry φ) :
    Yields (heading file e) fun v => e.heading (v.filename file) (v.table file) := by
  refine Yields.get_bind (a := fun v v' => e.heading (v.filename file) (v'.table file)) fun s => ?_
  have hlabel (front : String) := (Yields.ofExcept (φ := φ)
    (Diagnostic.label e.diagnostic.code)).bind fun label =>
      Yields.pure (front ++ ": " ++ e.diagnostic.severity ++ " " ++ label ++ ": ")
  unfold Entry.heading Entry.location
  cases e.pos with
  | none => cases file <;> exact hlabel _
  | some pos =>
    cases file with
    | none => exact (yields_place none pos).bind fun location => hlabel _
    | some f => exact (yields_place (some f) pos).bind fun location => hlabel _

theorem yields_position (file : Option φ) (pos : Int) :
    Yields (position file pos) fun v => .ok (positionIn (v.table file) pos) := by
  refine Yields.congr ((yields_table? file).bind (b := fun t _ => .ok (positionIn t pos))
    fun t => ?_) fun v => rfl
  cases t <;> exact Yields.pure _

/-! ### On a log -/

variable (log : Log φ)

theorem yields_message_log (index : Int) (detailed : Bool) :
    Yields (Recording.message log index detailed) fun v =>
      View.message ⟨v.files, .recording log⟩ index detailed := by
  cases he : log.entryAt? index with
  | none =>
    refine Yields.congr (a := fun _ => .ok "") ?_ fun v =>
      (View.message_of_none (v := ⟨v.files, .recording log⟩) he detailed).symm
    unfold Recording.message
    rw [he]
    exact Yields.pure ""
  | some e =>
    refine Yields.congr (a := fun v => e.message v.sources (v.filename (log.fileAt? index))
      (v.table (log.fileAt? index)) detailed) ?_ fun v =>
        (View.message_of_entryAt? (v := ⟨v.files, .recording log⟩) he detailed).symm
    unfold Recording.message
    rw [he]
    cases detailed with
    | false => exact (yields_wording e).bind fun text => Yields.pure _
    | true =>
      exact (yields_heading (log.fileAt? index) e).bind fun front =>
        (yields_wording e).bind fun text => Yields.pure _

theorem yields_range?_log (index : Int) :
    Yields (Recording.range? log index) fun v =>
      .ok (View.range? ⟨v.files, .recording log⟩ index) := by
  cases he : log.entryAt? index with
  | none =>
    refine Yields.congr (a := fun _ => .ok none) ?_ fun v =>
      congrArg Except.ok (View.range?_of_none (v := ⟨v.files, .recording log⟩) he).symm
    unfold Recording.range?
    rw [he]
    exact Yields.pure none
  | some e =>
    refine Yields.congr (a := fun v => .ok (some (e.range (v.table (log.fileAt? index))))) ?_
      fun v => congrArg Except.ok (View.range?_of_entryAt? (v := ⟨v.files, .recording log⟩) he).symm
    unfold Recording.range?
    rw [he]
    exact (yields_position (log.fileAt? index) (bounds e).1).bind fun start =>
      (yields_position (log.fileAt? index) (bounds e).2).bind fun stop => Yields.pure _

theorem yields_info?_log (index : Int) (options : InfoOptions) :
    Yields (Recording.info? log index options) fun v =>
      View.info? ⟨v.files, .recording log⟩ index options := by
  cases he : log.entryAt? index with
  | none =>
    refine Yields.congr (a := fun _ => .ok none) ?_ fun v =>
      (View.info?_of_none (v := ⟨v.files, .recording log⟩) he options).symm
    unfold Recording.info?
    rw [he]
    exact Yields.pure none
  | some e =>
    have hmessage := (yields_message_log log index options.detailedMessage).congr fun v =>
      View.message_of_entryAt? (v := ⟨v.files, .recording log⟩) he options.detailedMessage
    have hrange := (yields_range?_log log index).congr fun v =>
      congrArg Except.ok (View.range?_of_entryAt? (v := ⟨v.files, .recording log⟩) he)
    refine Yields.congr ?_ fun v =>
      (View.info?_of_entryAt? (v := ⟨v.files, .recording log⟩) he options).symm
    unfold Recording.info? Entry.info
    rw [he]
    cases options.formatMessage with
    | false => exact hrange.bind fun range => Yields.pure _
    | true =>
      refine Yields.congr ((hmessage.map some).bind fun formatted =>
        hrange.bind fun range => Yields.pure _) fun v => ?_
      simp only [if_true]
      cases e.message _ _ _ options.detailedMessage <;> rfl

/-! ### On either sink -/

theorem yields_message (index : Int) (detailed : Bool) :
    Yields (message index detailed : Work φ String) fun v => v.message index detailed :=
  Yields.dispatch (fun log => yields_message_log log index detailed) (.pure "")
    (fun _ _ => rfl) fun _ => rfl

theorem yields_range? (index : Int) :
    Yields (range? index : Work φ (Option Range)) fun v => .ok (v.range? index) :=
  Yields.dispatch (fun log => yields_range?_log log index) (.pure none)
    (fun _ _ => rfl) fun _ => rfl

theorem yields_info? (index : Int) (options : InfoOptions) :
    Yields (info? index options : Work φ (Option (Info φ))) fun v => v.info? index options :=
  Yields.dispatch (fun log => yields_info?_log log index options) (.pure none)
    (fun _ _ => rfl) fun _ => rfl

theorem yields_infosOf (file : Option φ) (options : InfoOptions) :
    Yields (infosOf file options) fun v => v.infosOf file options := by
  refine Yields.dispatch (fun log => Yields.filterMapM (g := fun (index : Nat) v =>
    if log.fileAt? index = file then View.info? ⟨v.files, .recording log⟩ index options
    else .ok none) (fun index => ?_) _) (.pure []) (fun _ _ => rfl) fun _ => rfl
  by_cases hfile : log.fileAt? index = file
  · simp only [if_pos hfile]
    exact yields_info?_log log index options
  · simp only [if_neg hfile]
    exact Yields.pure none

end Session

end GrammarDiagnostics
