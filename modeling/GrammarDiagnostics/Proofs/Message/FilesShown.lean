import GrammarDiagnostics.Log.Info
import GrammarDiagnostics.Proofs.Message.Filling

/-! # Files that a message shows

Arguments refer to files, and what is said of a file is read when the message is rendered. So a
message depends on the files that it shows, and on no others.

* `Argument.fileRefs`, `Argument.fileRefsAmong`: the files in an argument, and those in a sequence.
* `Argument.literal_congr`, `Argument.text_congr`: how an argument shows depends on these alone.
* `Info.fileRefs`, `Info.literal_congr`: the same for the written form of a snapshot.
* `Template.Shows`: the files in the arguments that the placeholders of a template ask for;
  `outcomeOf_format_congr`: what it is filled to depends on these alone.
-/

set_option autoImplicit false

namespace GrammarDiagnostics

variable {φ : Type} {files files' : φ → SourceFile}

/-! ## Arguments -/

namespace Argument

mutual

/-- The files in an argument, those in the items of a sequence included. -/
def fileRefs : Argument φ → List φ
  | .list items => fileRefsAmong items
  | .tuple items => fileRefsAmong items
  | .sourceFile f => [f]
  | _ => []

def fileRefsAmong : List (Argument φ) → List φ
  | [] => []
  | item :: items => item.fileRefs ++ fileRefsAmong items

end

mutual

theorem literal_congr (a : Argument φ)
    (h : ∀ f ∈ a.fileRefs, (files f).literal = (files' f).literal) :
    a.literal files = a.literal files' := by
  cases a with
  | list items => exact congrArg Literal.list (literals_congr items h)
  | tuple items => exact congrArg Literal.tuple (literals_congr items h)
  | sourceFile f => exact h f (List.mem_singleton_self f)
  | _ => rfl

theorem literals_congr (items : List (Argument φ))
    (h : ∀ f ∈ fileRefsAmong items, (files f).literal = (files' f).literal) :
    literals files items = literals files' items := by
  cases items with
  | nil => rfl
  | cons item items =>
    rw [fileRefsAmong, List.forall_mem_append] at h
    rw [literals, literals, literal_congr item h.1, literals_congr items h.2]

end

theorem text_congr (a : Argument φ) (h : ∀ f ∈ a.fileRefs, (files f).literal = (files' f).literal) :
    a.text files = a.text files' := by
  have hliteral := a.literal_congr h
  cases a with
  | string s => rfl
  | kind k => rfl
  | other o => rfl
  | _ => exact hliteral

end Argument

/-! ## Snapshots -/

theorem Literal.ofOption_congr {α : Type} {shown shown' : α → String} {o : Option α}
    (h : ∀ a, o = some a → shown a = shown' a) : ofOption shown o = ofOption shown' o := by
  cases o with
  | none => rfl
  | some a => exact h a rfl

/-- The files in a snapshot: its own, and those in its arguments. -/
def Info.fileRefs (info : Info φ) : List φ :=
  info.file.toList ++ Argument.fileRefsAmong (info.arguments.getD [])

theorem Info.literal_congr (info : Info φ)
    (h : ∀ f ∈ info.fileRefs, (files f).literal = (files' f).literal) :
    info.literal files = info.literal files' := by
  obtain ⟨index, code, message, arguments, warning, range, file, node, pos, formatted⟩ := info
  obtain ⟨hfile, hargs⟩ := List.forall_mem_append.1 h
  have hargument : Literal.ofOption (fun args => (Argument.tuple args).literal files) arguments
      = Literal.ofOption (fun args => (Argument.tuple args).literal files') arguments :=
    Literal.ofOption_congr fun args hmem =>
      (Argument.tuple args).literal_congr (by rwa [hmem] at hargs)
  have hshown : Literal.ofOption (fun f => (files f).literal) file
      = Literal.ofOption (fun f => (files' f).literal) file :=
    Literal.ofOption_congr fun f hmem => hfile f (Option.mem_toList.2 hmem)
  simp only [Info.literal, hargument, hshown]

/-! ## Templates -/

/-- A placeholder of the template asks for an argument with the file in it. -/
def Template.Shows (t : Template) (values : List (Argument φ)) (f : φ) : Prop :=
  ∃ part ∈ t.tail, ∃ a, values[part.1.index]? = some a ∧ f ∈ a.fileRefs

theorem outcomeOf_format_congr {template : String} {args : List (Argument φ)}
    (h : ∀ f, (Template.ofString template).Shows (Argument.unwrap args) f →
      (files f).literal = (files' f).literal) (journal : Journal) :
    outcomeOf (format files template args) journal
      = outcomeOf (format files' template args) journal := by
  have htext : ∀ part ∈ (Template.ofString template).tail,
      argumentText files (Argument.unwrap args) part.1.index
        = argumentText files' (Argument.unwrap args) part.1.index := by
    intro part hpart
    unfold argumentText
    cases ha : (Argument.unwrap args)[part.1.index]? with
    | none => rfl
    | some a => exact a.text_congr fun f hf => h f ⟨part, hpart, a, ha, hf⟩
  have hfill : ((Template.ofString template).fill fun p =>
        argumentText files (Argument.unwrap args) p.index)
      = (Template.ofString template).fill fun p =>
        argumentText files' (Argument.unwrap args) p.index := by
    rw [Template.fill_eq, Template.fill_eq]
    congr 3
    exact List.map_congr_left fun part hpart => by rw [htext part hpart]
  rw [outcomeOf_format, outcomeOf_format, hfill]

end GrammarDiagnostics
