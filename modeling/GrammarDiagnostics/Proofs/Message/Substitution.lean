import GrammarDiagnostics.Proofs.Message.Filling
import GrammarDiagnostics.Proofs.Text.DecimalValue
import Mathlib.Data.List.Infix
import Mathlib.Data.List.TakeWhile

/-! # Templates cut at their placeholders

* `Placeholder.Valid`: there are digits between the braces, and nothing else;
  `PlaceholderFree text`: no valid placeholder stands in the text.
* `digits_unique`: where a run of digits ends; `placeholderFree_opened_append`: a brace that is not
  closed begins no placeholder.
* `Template.Cuts t text`: the pieces of `t` are those of the text, cut at all its placeholders.
* `Template.cuts_read`: reading cuts a text; `Template.read_of_cuts`: whatever cuts it, is read.
* `format_substitutes`: every text is cut in exactly one way, and filling it replaces each
  placeholder once.
-/

set_option autoImplicit false

namespace GrammarDiagnostics

/-! ## Texts without placeholders -/

/-- Between the braces there are decimal digits, at least one. -/
structure Placeholder.Valid (p : Placeholder) : Prop where
  digits_ne_nil : p.digits ≠ []
  isDecimalDigit : ∀ c ∈ p.digits, isDecimalDigit c = true

/-- No placeholder stands in the text. -/
def PlaceholderFree (text : List Char) : Prop :=
  ∀ p : Placeholder, p.Valid → ¬ p.chars <:+: text

/-- A text does not begin with a digit. -/
def DigitsEnd (text : List Char) : Prop := ∀ c, text.head? = some c → isDecimalDigit c = false

theorem digitsEnd_nil : DigitsEnd [] := fun _ h => nomatch h

theorem digitsEnd_cons {c : Char} (h : isDecimalDigit c = false) (text : List Char) :
    DigitsEnd (c :: text) := by
  rintro d hd
  rw [← Option.some.inj hd, h]

theorem takeWhile_isDecimalDigit {digits text : List Char}
    (h : ∀ c ∈ digits, isDecimalDigit c = true) (hend : DigitsEnd text) :
    (digits ++ text).takeWhile isDecimalDigit = digits := by
  rw [List.takeWhile_append_of_pos h]
  cases text with
  | nil => exact List.append_nil digits
  | cons c text =>
    rw [List.takeWhile_cons_of_neg (Bool.not_eq_true _ ▸ hend c rfl), List.append_nil]

theorem digits_unique {digits digits' text text' : List Char}
    (h : ∀ c ∈ digits, isDecimalDigit c = true) (h' : ∀ c ∈ digits', isDecimalDigit c = true)
    (hend : DigitsEnd text) (hend' : DigitsEnd text')
    (heq : digits ++ text = digits' ++ text') : digits = digits' ∧ text = text' := by
  have hdigits : digits = digits' := by
    rw [← takeWhile_isDecimalDigit h hend, heq, takeWhile_isDecimalDigit h' hend']
  subst hdigits
  exact ⟨rfl, List.append_cancel_left heq⟩

variable {c : Char} {digits text : List Char}

theorem placeholderFree_nil : PlaceholderFree [] := by
  intro p _ h
  exact absurd (List.infix_nil.1 h) (List.cons_ne_nil _ _)

theorem PlaceholderFree.of_append {front : List Char} (h : PlaceholderFree (front ++ text)) :
    PlaceholderFree text :=
  fun p hp hstands => h p hp (hstands.trans (List.suffix_append front text).isInfix)

theorem placeholderFree_cons_iff :
    PlaceholderFree (c :: text) ↔
      (∀ p : Placeholder, p.Valid → ¬ p.chars <+: c :: text) ∧ PlaceholderFree text := by
  unfold PlaceholderFree
  simp only [List.infix_cons_iff, not_or, forall_and]

theorem placeholderFree_cons_of_ne (h : c ≠ openMark) :
    PlaceholderFree (c :: text) ↔ PlaceholderFree text := by
  rw [placeholderFree_cons_iff, and_iff_right]
  rintro p _ hp
  exact h (List.cons_prefix_cons.1 hp).1.symm

theorem placeholderFree_digits_append (h : ∀ c ∈ digits, isDecimalDigit c = true) :
    PlaceholderFree (digits ++ text) ↔ PlaceholderFree text := by
  induction digits with
  | nil => rfl
  | cons c digits ih =>
    have hne : c ≠ openMark := by
      rintro rfl
      exact absurd (h openMark List.mem_cons_self) (by decide)
    rw [List.cons_append, placeholderFree_cons_of_ne hne,
      ih fun d hd => h d (List.mem_cons_of_mem c hd)]

/-- A brace and digits begin no placeholder if no brace closes behind them. -/
theorem placeholderFree_opened_append (h : ∀ c ∈ digits, isDecimalDigit c = true)
    (hend : DigitsEnd text) (hclose : text.head? = some closeMark → digits = []) :
    PlaceholderFree (Template.opened digits ++ text) ↔ PlaceholderFree text := by
  have hreverse : ∀ c ∈ digits.reverse, isDecimalDigit c = true :=
    fun c hc => h c (List.mem_reverse.1 hc)
  rw [Template.opened, List.cons_append, placeholderFree_cons_iff,
    placeholderFree_digits_append hreverse, and_iff_right]
  rintro p hp ⟨rest, hrest⟩
  have hrun : p.digits ++ closeMark :: rest = digits.reverse ++ text := by
    rw [Placeholder.chars, List.cons_append, List.cons_append, List.append_assoc,
      List.singleton_append] at hrest
    exact (List.cons.inj hrest).2
  obtain ⟨hdigits, rfl⟩ := digits_unique hp.isDecimalDigit hreverse
    (digitsEnd_cons isDecimalDigit_closeMark rest) hend hrun
  apply hp.digits_ne_nil
  rw [hdigits, hclose rfl, List.reverse_nil]

/-! ## Cuts -/

namespace Template

/-- The pieces of a template are those of a text that is cut at all its placeholders. -/
structure Cuts (t : Template) (text : List Char) : Prop where
  chars_eq : t.chars = text
  valid : ∀ part ∈ t.tail, part.1.Valid
  lead_free : PlaceholderFree t.lead
  tail_free : ∀ part ∈ t.tail, PlaceholderFree part.2

theorem prepend_prepend (front next : List Char) (t : Template) :
    prepend front (prepend next t) = prepend (front ++ next) t := by
  unfold prepend
  rw [List.append_assoc]

theorem chars_prepend (front : List Char) (t : Template) :
    (prepend front t).chars = front ++ t.chars :=
  List.append_assoc _ _ _

theorem chars_prependPlaceholder (p : Placeholder) (t : Template) :
    (prependPlaceholder p t).chars = p.chars ++ t.chars := by
  unfold prependPlaceholder chars
  rw [List.nil_append, List.flatMap_cons, List.append_assoc]

namespace Cuts

variable {t : Template}

theorem of_free (h : PlaceholderFree text) : Cuts ⟨text, []⟩ text where
  chars_eq := List.append_nil text
  valid := List.forall_mem_nil _
  lead_free := h
  tail_free := List.forall_mem_nil _

theorem prepend (h : t.Cuts text) {front : List Char} (hfree : PlaceholderFree (front ++ t.lead)) :
    (t.prepend front).Cuts (front ++ text) where
  chars_eq := by rw [chars_prepend, h.chars_eq]
  valid := h.valid
  lead_free := hfree
  tail_free := h.tail_free

theorem prepend_char (h : t.Cuts text) (hc : c ≠ openMark) : (t.prepend [c]).Cuts (c :: text) :=
  h.prepend ((placeholderFree_cons_of_ne hc).2 h.lead_free)

theorem prepend_opened (h : t.Cuts text) (hdigits : ∀ c ∈ digits, isDecimalDigit c = true)
    (hend : DigitsEnd t.lead) (hclose : t.lead.head? = some closeMark → digits = []) :
    (t.prepend (opened digits)).Cuts (opened digits ++ text) :=
  h.prepend ((placeholderFree_opened_append hdigits hend hclose).2 h.lead_free)

theorem prependPlaceholder (h : t.Cuts text) {p : Placeholder} (hp : p.Valid) :
    (Template.prependPlaceholder p t).Cuts (p.chars ++ text) where
  chars_eq := by rw [chars_prependPlaceholder, h.chars_eq]
  valid := List.forall_mem_cons.2 ⟨hp, h.valid⟩
  lead_free := placeholderFree_nil
  tail_free := List.forall_mem_cons.2 ⟨h.lead_free, h.tail_free⟩

theorem head?_lead (h : t.Cuts text) {d : Char} (hd : t.lead.head? = some d) :
    text.head? = some d := by
  rw [← h.chars_eq, chars, List.head?_append, hd]
  rfl

end Cuts

/-! ## Reading cuts -/

/-- The characters of a placeholder that is still open, if one is. -/
def pending : Option (List Char) → List Char
  | none => []
  | some digits => opened digits

/-- A placeholder that is still open has only digits so far. -/
def ReadsDigits (state : Option (List Char)) : Prop :=
  ∀ digits, state = some digits → ∀ c ∈ digits, isDecimalDigit c = true

theorem readsDigits_none : ReadsDigits none := fun _ h => nomatch h

theorem readsDigits_cons {digits : List Char} (h : ReadsDigits (some digits)) {c : Char}
    (hc : isDecimalDigit c = true) : ReadsDigits (some (c :: digits)) := by
  rintro _ ⟨⟩
  exact List.forall_mem_cons.2 ⟨hc, h digits rfl⟩

theorem readsDigits_nil : ReadsDigits (some []) := by
  rintro _ ⟨⟩
  exact List.forall_mem_nil _

theorem opened_cons_append (c : Char) (digits rest : List Char) :
    opened (c :: digits) ++ rest = opened digits ++ c :: rest := by
  unfold opened
  rw [List.reverse_cons, List.cons_append, List.cons_append, List.append_assoc,
    List.singleton_append]

theorem opened_append_closeMark (digits rest : List Char) :
    opened digits ++ closeMark :: rest = Placeholder.chars ⟨digits.reverse⟩ ++ rest := by
  rw [Placeholder.chars, List.append_assoc]
  rfl

theorem valid_of_opened {digits : List Char} (h : ReadsDigits (some digits)) (hne : digits ≠ []) :
    Placeholder.Valid ⟨digits.reverse⟩ where
  digits_ne_nil := fun hnil => hne (List.reverse_eq_nil_iff.1 hnil)
  isDecimalDigit := fun c hc => h digits rfl c (List.mem_reverse.1 hc)

theorem cuts_read {state : Option (List Char)} (h : ReadsDigits state) (text : List Char) :
    (read state text).Cuts (pending state ++ text) := by
  -- An opened brace is counted with the text that is still to be read, until it is closed or given
  -- up. When it is given up, no placeholder may arise across the seam.
  fun_induction read state text with
  | case1 => exact .of_free placeholderFree_nil
  | case2 rest ih => exact ih readsDigits_nil
  | case3 c rest hopen ih => exact (ih h).prepend_char hopen
  | case4 digits =>
    have hcuts := (Cuts.of_free placeholderFree_nil).prepend_opened (h digits rfl) digitsEnd_nil
      fun hc => nomatch hc
    rw [prepend, List.append_nil] at hcuts
    rw [pending, List.append_nil]
    exact hcuts
  | case5 digits c rest hc ih =>
    have hrest := ih (readsDigits_cons h hc)
    rw [pending, opened_cons_append] at hrest
    exact hrest
  | case6 digits c rest hc hclose ih =>
    obtain ⟨rfl, hne⟩ := hclose
    have hcuts := (ih readsDigits_none).prependPlaceholder (valid_of_opened h hne)
    rw [pending, opened_append_closeMark]
    exact hcuts
  | case7 digits rest hc hclose ih =>
    have hrest := ih readsDigits_nil
    have hend : DigitsEnd (read (some []) rest).lead := by
      intro d hd
      obtain rfl := Option.some.inj (hrest.head?_lead hd)
      exact isDecimalDigit_openMark
    have hhead : (read (some []) rest).lead.head? = some closeMark → digits = [] := by
      intro hd
      have hmark : openMark = closeMark := Option.some.inj (hrest.head?_lead hd)
      exact absurd hmark (by decide)
    exact hrest.prepend_opened (h digits rfl) hend hhead
  | case8 digits c rest hc hclose hopen ih =>
    have hrest := (ih readsDigits_none).prepend_char hopen
    have hhead : (c :: (read none rest).lead).head? = some closeMark → digits = [] := by
      intro hd
      by_contra hne
      exact hclose ⟨Option.some.inj hd, hne⟩
    have hcuts := hrest.prepend_opened (h digits rfl)
      (digitsEnd_cons (Bool.eq_false_iff.2 hc) _) hhead
    rw [prepend_prepend] at hcuts
    exact hcuts

/-! ## Cuts are read -/

/-- If anything stands in the text, a placeholder can begin there. -/
def CanOpen (text : List Char) : Prop := ∀ c, text.head? = some c → c = openMark

theorem canOpen_nil : CanOpen [] := fun _ h => nomatch h

theorem canOpen_placeholder (p : Placeholder) (text : List Char) : CanOpen (p.chars ++ text) :=
  fun _ h => (Option.some.inj h).symm

/-- What is still open when the next placeholder can begin, stands for itself. -/
theorem read_some_of_canOpen {text : List Char} (h : CanOpen text) (digits : List Char) :
    read (some digits) text = prepend (opened digits) (read none text) := by
  cases text with
  | nil => rw [read, read, prepend, List.append_nil]
  | cons c text =>
    obtain rfl := h c rfl
    have hmark : ¬ (openMark = closeMark ∧ digits ≠ []) := fun hclose =>
      absurd hclose.1 (by decide)
    have hnone : read none (openMark :: text) = read (some []) text := by rw [read, if_pos rfl]
    rw [hnone, read, isDecimalDigit_openMark, if_neg Bool.false_ne_true, if_neg hmark, if_pos rfl]

/-- A text without placeholders stands for itself, up to where the next one can begin. -/
theorem read_append {state : Option (List Char)} (h : ReadsDigits state) {text rest : List Char}
    (hfree : PlaceholderFree (pending state ++ text)) (hrest : CanOpen rest) :
    read state (text ++ rest) = prepend (pending state ++ text) (read none rest) := by
  fun_induction read state text with
  | case1 => rfl
  | case2 text ih =>
    rw [List.cons_append, read, if_pos rfl, ih readsDigits_nil hfree]
    rfl
  | case3 c text hopen ih =>
    rw [List.cons_append, read, if_neg hopen, ih h ((placeholderFree_cons_of_ne hopen).1 hfree),
      prepend_prepend]
    rfl
  | case4 digits => rw [List.nil_append, read_some_of_canOpen hrest, List.append_nil, pending]
  | case5 digits c text hc ih =>
    rw [pending, ← opened_cons_append] at hfree
    rw [List.cons_append, read, if_pos hc, ih (readsDigits_cons h hc) hfree, pending, pending,
      opened_cons_append]
  | case6 digits c text hc hclose ih =>
    obtain ⟨rfl, hne⟩ := hclose
    refine absurd ?_ (hfree _ (valid_of_opened h hne))
    rw [pending, opened_append_closeMark]
    exact (List.prefix_append _ _).isInfix
  | case7 digits text hc hclose ih =>
    rw [List.cons_append, read, if_neg hc, if_neg hclose, if_pos rfl,
      ih readsDigits_nil hfree.of_append, prepend_prepend]
    rfl
  | case8 digits c text hc hclose hopen ih =>
    have hfree' : PlaceholderFree text :=
      ((placeholderFree_cons_of_ne hopen).1 hfree.of_append)
    rw [List.cons_append, read, if_neg hc, if_neg hclose, if_neg hopen,
      ih readsDigits_none hfree', prepend_prepend, List.append_assoc]
    rfl

theorem chars_cons (lead : List Char) (p : Placeholder) (text : List Char)
    (tail : List (Placeholder × List Char)) :
    chars ⟨lead, (p, text) :: tail⟩ = lead ++ (p.chars ++ chars ⟨text, tail⟩) := by
  unfold chars
  rw [List.flatMap_cons, List.append_assoc]

theorem read_of_cuts {t : Template} {text : List Char} (h : t.Cuts text) : read none text = t := by
  obtain ⟨lead, tail⟩ := t
  obtain ⟨rfl, hvalid, hlead, htail⟩ := h
  induction tail generalizing lead with
  | nil =>
    have hread := read_append readsDigits_none hlead canOpen_nil
    rw [pending, List.nil_append, read, prepend, List.append_nil] at hread
    rw [chars, List.flatMap_nil, List.append_nil]
    exact hread
  | cons part tail ih =>
    obtain ⟨p, text⟩ := part
    rw [List.forall_mem_cons] at hvalid htail
    rw [chars_cons, read_append readsDigits_none hlead (canOpen_placeholder p _),
      read_placeholder hvalid.1.isDecimalDigit hvalid.1.digits_ne_nil,
      ih text hvalid.2 htail.1 htail.2, pending, List.nil_append, prepend, prependPlaceholder,
      List.append_nil]

/-- What is read is the only way to cut a text. -/
theorem cuts_iff {t : Template} {s : String} : t.Cuts s.toList ↔ t = ofString s :=
  ⟨fun h => (read_of_cuts h).symm, fun h => h ▸ cuts_read readsDigits_none s.toList⟩

/-! ## Placeholders that are too long -/

theorem overlong?_eq_none {t : Template} (h : ∀ part ∈ t.tail, part.1.digits.length ≤ 4300) :
    t.overlong? = none := by
  unfold overlong?
  rw [List.find?_eq_none]
  intro p hp
  obtain ⟨part, hpart, rfl⟩ := List.mem_map.1 hp
  rw [Placeholder.tooLong_iff]
  exact Nat.not_lt_of_le (h part hpart)

theorem overlong?_eq_some {t : Template} {before after : List (Placeholder × List Char)}
    {p : Placeholder} {text : List Char} (ht : t.tail = before ++ (p, text) :: after)
    (h : ∀ part ∈ before, part.1.digits.length ≤ 4300) (hp : 4300 < p.digits.length) :
    t.overlong? = some p := by
  have hbefore := overlong?_eq_none (t := ⟨[], before⟩) h
  unfold overlong? at hbefore ⊢
  rw [ht, List.map_append, List.find?_append, hbefore, Option.none_or, List.map_cons,
    List.find?_cons_of_pos (Placeholder.tooLong_iff.2 hp)]

end Template

/-! ## The theorem -/

/-- A text is cut at its placeholders in exactly one way. Filling it replaces each placeholder by
the argument whose number its digits write, or by nothing where there is no such argument, and keeps
all else; or it fails at the first placeholder with more digits than are read, and tells how many it
has. -/
theorem format_substitutes {φ : Type} (files : φ → SourceFile) (template : String)
    (args : List (Argument φ)) (journal : Journal) :
    (∃! t : Template, t.Cuts template.toList) ∧
      ∀ t : Template, t.Cuts template.toList →
        (∀ part ∈ t.tail, WritesNumber part.1.digits part.1.index) ∧
        ((∀ part ∈ t.tail, part.1.digits.length ≤ 4300) →
          outcomeOf (format files template args) journal
            = .ok (String.ofList (t.lead ++ t.tail.flatMap fun part =>
                (argumentText files (Argument.unwrap args) part.1.index).toList ++ part.2))) ∧
        ∀ before p text after, t.tail = before ++ (p, text) :: after →
          (∀ part ∈ before, part.1.digits.length ≤ 4300) → 4300 < p.digits.length →
          ∃ fault, outcomeOf (format files template args) journal = .error fault ∧
            fault = .placeholderTooLong p.digits.length ∧
            fault.message = "Exceeds the limit (" ++ decimal 4300
              ++ " digits) for integer string conversion: value has " ++ decimal p.digits.length
              ++ " digits; use sys.set_int_max_str_digits() to increase the limit" := by
  refine ⟨⟨_, Template.cuts_iff.2 rfl, fun t ht => Template.cuts_iff.1 ht⟩, fun t ht => ?_⟩
  have hread : Template.ofString template = t := (Template.cuts_iff.1 ht).symm
  refine ⟨fun part hpart => writesNumber_decimalValue (ht.valid part hpart).isDecimalDigit,
    fun hshort => ?_, fun before p text after htail hbefore hp => ⟨_, ?_, rfl, rfl⟩⟩
  · rw [outcomeOf_format, hread, Template.overlong?_eq_none hshort]
    dsimp only
    rw [Template.fill_eq, List.flatMap_def]
  · rw [outcomeOf_format, hread, Template.overlong?_eq_some htail hbefore hp]

/-- Braces that enclose no digits, a digit of another script, and an argument that looks like a
placeholder; then a placeholder with a digit too many. -/
theorem format_substitutes_scripts :
    let files : Nat → SourceFile := fun _ => { filename := "a" }
    let t : Template := ⟨[openMark, '0'], [(⟨['0']⟩, [closeMark]), (⟨['0', '\u0663']⟩, ['x'])]⟩
    let p : Placeholder := ⟨List.replicate 4301 '9'⟩
    (t.Cuts "\x7b0\x7b0\x7d\x7d\x7b0\u0663\x7dx".toList ∧
        ∀ part ∈ t.tail, part.1.digits.length ≤ 4300) ∧
      outcomeOf (format files "\x7b0\x7b0\x7d\x7d\x7b0\u0663\x7dx" [.string "\x7b1\x7d"]) #[]
        = .ok "\x7b0\x7b1\x7d\x7dx" ∧
      (Template.mk [] [(p, [])]).Cuts p.written.toList ∧ 4300 < p.digits.length ∧
      outcomeOf (format files p.written []) #[] = .error (.placeholderTooLong p.digits.length) := by
  intro files t p
  have hcuts : t.Cuts "\x7b0\x7b0\x7d\x7d\x7b0\u0663\x7dx".toList :=
    Template.cuts_iff.2 (by decide)
  have hshort : ∀ part ∈ t.tail, part.1.digits.length ≤ 4300 := by decide
  have hlong : 4300 < p.digits.length := by
    change 4300 < (List.replicate 4301 '9').length
    rw [List.length_replicate]
    decide
  have hdigits : ∀ c ∈ p.digits, isDecimalDigit c = true := by
    intro c hc
    rw [List.eq_of_mem_replicate hc]
    decide
  have hlongCuts : (Template.mk [] [(p, [])]).Cuts p.written.toList :=
    Template.cuts_iff.2 (Template.ofString_placeholder hdigits (List.ne_nil_of_length_pos
      (Nat.lt_trans (by decide) hlong))).symm
  obtain ⟨_, hfilled, _⟩ := (format_substitutes files _ [.string "\x7b1\x7d"] #[]).2 t hcuts
  obtain ⟨_, _, hfails⟩ := (format_substitutes files p.written [] #[]).2 _ hlongCuts
  obtain ⟨fault, houtcome, rfl, _⟩ := hfails [] p [] [] rfl (List.forall_mem_nil _) hlong
  exact ⟨⟨hcuts, hshort⟩, (hfilled hshort).trans (by decide), hlongCuts, hlong, houtcome⟩

end GrammarDiagnostics
