import GrammarDiagnostics.Message.Format
import GrammarDiagnostics.Proofs.Session.View

/-! # What a filled template is

Whether a template can be filled is told by its placeholders alone, whatever the arguments: it
cannot if one of them has more digits than are read. Else each stands for an argument or for
nothing.

* `outcomeOf_bind`, `outcomeOf_mapM`: outcomes of work put together.
* `Template.fill_eq`: the text of a template with its placeholders replaced.
* `Template.overlong?`: the first placeholder with too many digits; `outcomeOf_format`: what filling
  a template ends in.
* `Template.read_digits`, `Template.read_placeholder`: reading a placeholder;
  `Template.ofString_placeholder`: a text that is one.
-/

set_option autoImplicit false

namespace GrammarDiagnostics

variable {φ α β σ : Type}

/-! ## Outcomes -/

theorem outcomeOf_bind {x : EStateM Fault σ α} {k : α → EStateM Fault σ β} {s : σ}
    {outcome : Except Fault α} (hx : outcomeOf x s = outcome) (next : α → Except Fault β)
    (hk : ∀ a s', outcomeOf (k a) s' = next a) : outcomeOf (x >>= k) s = outcome >>= next := by
  subst hx
  cases hx : x s with
  | error fault s' =>
    unfold outcomeOf
    rw [Session.bind_of_error hx, hx]
    rfl
  | ok a s' =>
    have hnext := hk a s'
    rw [outcomeOf_of_ok hx]
    unfold outcomeOf at hnext ⊢
    rw [Session.bind_of_ok hx]
    exact hnext

theorem outcomeOf_mapM {f : α → EStateM Fault σ β} {g : α → Except Fault β}
    (h : ∀ a s, outcomeOf (f a) s = g a) (l : List α) (s : σ) :
    outcomeOf (l.mapM f) s = l.mapM g := by
  induction l generalizing s with
  | nil => rfl
  | cons a l ih =>
    rw [List.mapM_cons, List.mapM_cons]
    exact outcomeOf_bind (h a s) _ fun b s' => outcomeOf_bind (ih s') _ fun bs s'' => rfl

/-- Going over a list, where the first item of a kind is a fault. -/
theorem mapM_eq_find? {bad : α → Bool} {fault : α → Fault} {value : α → β} (l : List α) :
    l.mapM (fun a => if bad a then Except.error (fault a) else .ok (value a))
      = match l.find? bad with
        | some a => .error (fault a)
        | none => .ok (l.map value) := by
  induction l with
  | nil => rfl
  | cons a l ih =>
    rw [List.mapM_cons, ih, List.find?_cons]
    cases bad a with
    | true => rfl
    | false => cases l.find? bad <;> rfl

/-! ## Filling -/

namespace Template

theorem fill_eq (value : Placeholder → String) (t : Template) :
    t.fill value = String.ofList
      (t.lead ++ (t.tail.map fun part => (value part.1).toList ++ part.2).flatten) := by
  unfold fill fillM
  simp only [bind_pure_comp, map_pure, List.mapM_pure, Id.run_pure]

/-- The first placeholder with more digits than are read. -/
def overlong? (t : Template) : Option Placeholder :=
  (t.tail.map Prod.fst).find? Placeholder.tooLong

end Template

/-- The text for the argument of an index: nothing where there is none. -/
def argumentText (files : φ → SourceFile) (values : List (Argument φ)) (index : Nat) : String :=
  (values[index]?).elim "" (Argument.text files)

theorem outcomeOf_replacement (files : φ → SourceFile) (template : String)
    (values : List (Argument φ)) (p : Placeholder) (journal : Journal) :
    outcomeOf (replacement files template values p) journal
      = if p.tooLong then .error (.placeholderTooLong p.digits.length)
        else .ok (argumentText files values p.index) := by
  unfold replacement argumentText
  split
  · rfl
  · cases values[p.index]? <;> rfl

theorem outcomeOf_format (files : φ → SourceFile) (template : String) (args : List (Argument φ))
    (journal : Journal) : outcomeOf (format files template args) journal
      = match (Template.ofString template).overlong? with
        | some p => .error (.placeholderTooLong p.digits.length)
        | none => .ok ((Template.ofString template).fill fun p =>
            argumentText files (Argument.unwrap args) p.index) := by
  let t := Template.ofString template
  let values := Argument.unwrap args
  have hpart (part : Placeholder × List Char) (journal : Journal) :
      outcomeOf (do return (← replacement files template values part.1).toList ++ part.2) journal
        = if part.1.tooLong then .error (.placeholderTooLong part.1.digits.length)
          else .ok ((argumentText files values part.1.index).toList ++ part.2) := by
    refine (outcomeOf_bind (outcomeOf_replacement files template values part.1 journal)
      (fun text => .ok (text.toList ++ part.2)) fun _ _ => rfl).trans ?_
    split <;> rfl
  have hformat : outcomeOf (format files template args) journal
      = (t.tail.mapM fun part => if part.1.tooLong
          then Except.error (.placeholderTooLong part.1.digits.length)
          else .ok ((argumentText files values part.1.index).toList ++ part.2))
        >>= fun parts => .ok (String.ofList (t.lead ++ parts.flatten)) :=
    outcomeOf_bind (outcomeOf_mapM hpart t.tail journal)
      (fun parts => .ok (String.ofList (t.lead ++ parts.flatten))) fun _ _ => rfl
  rw [hformat, mapM_eq_find?, Template.fill_eq, Template.overlong?, List.find?_map]
  change _ = match (t.tail.find? fun part => part.1.tooLong).map Prod.fst with
    | some p => _
    | none => _
  cases t.tail.find? fun part => part.1.tooLong with
  | none => rfl
  | some part => rfl

/-! ## Reading a placeholder -/

theorem isDecimalDigit_openMark : isDecimalDigit openMark = false := by decide

theorem isDecimalDigit_closeMark : isDecimalDigit closeMark = false := by decide

namespace Template

theorem read_digits {digits : List Char} (h : ∀ c ∈ digits, isDecimalDigit c = true)
    {opened : List Char} (hne : opened ++ digits ≠ []) (rest : List Char) :
    read (some opened) (digits ++ closeMark :: rest)
      = prependPlaceholder ⟨opened.reverse ++ digits⟩ (read none rest) := by
  induction digits generalizing opened with
  | nil =>
    rw [List.append_nil] at hne ⊢
    rw [List.nil_append, read, isDecimalDigit_closeMark, if_neg Bool.false_ne_true,
      if_pos ⟨rfl, hne⟩]
  | cons c digits ih =>
    rw [List.forall_mem_cons] at h
    rw [List.cons_append, read, h.1, if_pos rfl, ih h.2 (List.cons_ne_nil c _),
      List.reverse_cons, List.append_assoc, List.singleton_append]

theorem read_placeholder {p : Placeholder} (h : ∀ c ∈ p.digits, isDecimalDigit c = true)
    (hne : p.digits ≠ []) (rest : List Char) :
    read none (p.chars ++ rest) = prependPlaceholder p (read none rest) := by
  have hread : read (some []) (p.digits ++ closeMark :: rest)
      = prependPlaceholder ⟨p.digits⟩ (read none rest) :=
    read_digits h (List.append_ne_nil_of_right_ne_nil [] hne) rest
  rw [Placeholder.chars, List.cons_append, List.cons_append, List.append_assoc,
    List.singleton_append, read, if_pos rfl, hread]

theorem ofString_placeholder {p : Placeholder} (h : ∀ c ∈ p.digits, isDecimalDigit c = true)
    (hne : p.digits ≠ []) : ofString p.written = ⟨[], [(p, [])]⟩ := by
  have hread := read_placeholder h hne []
  rw [List.append_nil] at hread
  unfold ofString Placeholder.written
  rw [String.toList_ofList, hread]
  rfl

end Template

end GrammarDiagnostics
