import GrammarDiagnostics.Source.LineMap

/-! # Source files

* `SourceFile`: a name, a text if there is one, and the line map once it has been made.
* `SourceFile.lineMap`: the line map that a reading finds: the one made before, or one of the
  present text. A map that was made stays, whatever happens to the text.
* `SourceFile.table`, `SourceFile.read`, `SourceFile.records`: the line table that a reading
  yields, the file after it, and what it notes.
-/

set_option autoImplicit false

namespace GrammarDiagnostics

/-- A named source, with its text unless it has none. -/
structure SourceFile where
  filename : String
  text : Option String := none
  /-- The line map, from its first use on. -/
  kept : Option LineMap := none

namespace SourceFile

/-- The line map of a file: the one made before, else one of its present text. -/
def lineMap (f : SourceFile) : Option LineMap :=
  match f.kept with
  | some m => some m
  | none => f.text.map LineMap.ofText

/-- The line table of a file. -/
def table (f : SourceFile) : Option LineTable := f.lineMap.map LineMap.table

/-- The file after a reading of its line table. -/
def read (f : SourceFile) : SourceFile := { f with kept := f.lineMap.map LineMap.read }

/-- The records of a reading of the line table. -/
def records (f : SourceFile) : List Record :=
  match f.lineMap with
  | some m => m.records
  | none => []

/-- The written form of a file: its name and its present text. -/
def literal (f : SourceFile) : String :=
  Literal.record "SourceFile"
    [("filename", quoted f.filename), ("text", Literal.ofOption quoted f.text)]

/-! ## What a reading changes -/

@[simp] theorem table_read (f : SourceFile) : f.read.table = f.table := by
  obtain ⟨filename, text, kept⟩ := f
  cases kept <;> cases text <;> simp [table, lineMap, read]

end SourceFile

end GrammarDiagnostics
