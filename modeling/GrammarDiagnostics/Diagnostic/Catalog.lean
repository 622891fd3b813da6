import GrammarDiagnostics.Diagnostic.Basic

/-! # Catalogs of diagnostics

* `Catalog`: diagnostics under their names, in order; `Catalog.standard` is the one in use.
* `Catalog.find?`: the diagnostic of a code; `Catalog.ofName?`: the diagnostic of a name.
* `Catalog.check`: a catalog is sound when no code is negative and no two entries share a code
  other than 0. The first entry that breaks this is reported as a `Catalog.Flaw`.
-/

set_option autoImplicit false

namespace GrammarDiagnostics

/-- Diagnostics under their names, in the order in which they were declared. -/
abbrev Catalog := List (String × Diagnostic)

namespace Catalog

/-! ## The catalog in use -/

/-- The template of two alternatives; it only helps to build other messages. -/
def alternatives : Diagnostic := ⟨0, "\x7b0\x7d or \x7b1\x7d", "error"⟩

/-- The diagnostics of grammar files. -/
def standard : Catalog :=
  [("CONSTANT_EXPECTED", ⟨1000, "Constant expected.", "error"⟩),
   ("_0_EXPECTED", ⟨1001, "\x7b0\x7d expected.", "error"⟩),
   ("_0_OR_1", alternatives),
   ("UNEXPECTED_TOKEN_0", ⟨1002, "Unexpected token \x7b0\x7d.", "error"⟩),
   ("INVALID_CHARACTER", ⟨1003, "Invalid character.", "error"⟩),
   ("UNTERMINATED_STRING_LITERAL", ⟨1004, "Unterminated string literal.", "error"⟩),
   ("INVALID_ESCAPE_SEQUENCE", ⟨1005, "Invalid escape sequence.", "error"⟩),
   ("DIGIT_EXPECTED", ⟨1006, "Digit expected.", "error"⟩),
   ("PRODUCTION_EXPECTED", ⟨1007, "Production expected.", "error"⟩),
   ("UNTERMINATED_IDENTIFIER_LITERAL", ⟨1008, "Unterminated identifier literal.", "error"⟩),
   ("OBSOLETE_0", ⟨1009, "Obsolete: \x7b0\x7d", "warning"⟩),
   ("CANNOT_FIND_NAME_0", ⟨2000, "Cannot find name: '\x7b0\x7d'.", "error"⟩),
   ("DUPLICATE_IDENTIFIER_0", ⟨2001, "Duplicate identifier: '\x7b0\x7d'.", "error"⟩),
   ("DUPLICATE_TERMINAL_0", ⟨2002, "Duplicate terminal: `\x7b0\x7d`.", "error"⟩)]

/-- The diagnostic of a name. -/
def ofName? (catalog : Catalog) (name : String) : Option Diagnostic := catalog.lookup name

/-- The first diagnostic that is reported under a code; none is reported under code 0. -/
def find? (catalog : Catalog) (code : Int) : Option Diagnostic :=
  if code = 0 then none else (catalog.map Prod.snd).find? fun d => d.code = code

/-! ## Soundness -/

/-- What is wrong with a catalog. -/
inductive Flaw where
  | negativeCode (name : String) (code : Int)
  | duplicateCode (code : Int) (first second : String)
  deriving DecidableEq, Repr

/-- What is said of a flaw. There is nothing to be said of a code with too many digits: writing it
is a fault of its own. -/
def Flaw.message : Flaw → Except Fault String
  | .negativeCode name code =>
    return "Diagnostic " ++ name ++ " has a negative code: " ++ (← writeNumber code)
  | .duplicateCode code first second =>
    return "Duplicate diagnostic code " ++ (← writeNumber code) ++ ": " ++ first ++ " and "
      ++ second

/-- Checks the entries of a catalog one after the other; `seen` holds the names of the codes met so
far. An entry of code 0 is passed over. -/
def checkAfter (seen : List (Int × String)) : Catalog → Except Flaw Unit
  | [] => .ok ()
  | (name, d) :: rest =>
    if d.code < 0 then
      .error (.negativeCode name d.code)
    else if d.code = 0 then
      checkAfter seen rest
    else
      match seen.lookup d.code with
      | some first => .error (.duplicateCode d.code first name)
      | none => checkAfter ((d.code, name) :: seen) rest

/-- Checks a catalog: the first flaw, if there is one. -/
def check (catalog : Catalog) : Except Flaw Unit := checkAfter [] catalog

end Catalog

end GrammarDiagnostics
