import GrammarDiagnostics.Proofs.Text.Delimited
import GrammarDiagnostics.Proofs.Token.Alternatives

/-! # Kinds that are read off a list of alternatives

* `Kind.opening`, `Kind.closing`, `Kind.core`: a kind is shown by a text between two marks, and the
  closing mark does not occur in it; `Kind.display_append_inj`: so the end of a kind is seen.
* `Kind.ofSpelling?_of_spelling`: a fixed text belongs to one kind.
* `separator_eq`: what follows a separator is no part of it, since every kind begins with a mark;
  `continuation_kinds_inj`, `alternation_kinds_inj`: so the kinds are read off one by one.
* `disjunction_determines_kinds`: different lists of kinds have different texts, and different
  messages that expect them.
-/

set_option autoImplicit false

namespace GrammarDiagnostics

namespace Kind

variable {k l : Kind} {rest rest' : List Char}

/-! ## One kind -/

theorem ofSpelling?_of_spelling {s : String} (h : k.spelling? = some s) :
    ofSpelling? s = some k := by
  cases k <;> cases h <;> decide

def opening (k : Kind) : Char := if k.spelling?.isSome then '\'' else '«'

def closing (k : Kind) : Char := if k.spelling?.isSome then '\'' else '»'

/-- What stands between the marks: the fixed text of a kind, or else its name. -/
def core (k : Kind) : String := k.spelling?.getD k.name

theorem toList_display (k : Kind) :
    (k.display true).toList = k.opening :: (k.core.toList ++ [k.closing]) := by
  unfold display opening closing core
  cases k.spelling? <;> simp

theorem display_ne_empty (k : Kind) : k.display true ≠ "" := by
  simp [← String.toList_inj, toList_display]

theorem opening_ne_o (k : Kind) : k.opening ≠ 'o' := by
  unfold opening
  split <;> decide

theorem closing_notMem_core (k : Kind) : k.closing ∉ k.core.toList := by
  cases k <;> decide

theorem isSome_spelling?_congr (h : k.opening = l.opening) :
    k.spelling?.isSome = l.spelling?.isSome := by
  unfold opening at h
  cases hk : k.spelling?.isSome <;> cases hl : l.spelling?.isSome <;> simp_all

theorem eq_of_core_eq (hopening : k.opening = l.opening) (hcore : k.core = l.core) : k = l := by
  have hsome := isSome_spelling?_congr hopening
  unfold core at hcore
  cases hk : k.spelling? <;> cases hl : l.spelling? <;> simp only [hk, hl] at hsome hcore
  case none.none =>
    have hname : ofName? k.name = ofName? l.name := congrArg ofName? hcore
    rw [ofName?_name, ofName?_name] at hname
    exact Option.some.inj hname
  case none.some => cases hsome
  case some.none => cases hsome
  case some.some s s' =>
    obtain rfl : s = s' := hcore
    exact Option.some.inj ((ofSpelling?_of_spelling hk).symm.trans (ofSpelling?_of_spelling hl))

theorem display_append_inj
    (h : (k.display true).toList ++ rest = (l.display true).toList ++ rest') :
    k = l ∧ rest = rest' := by
  simp only [toList_display, List.cons_append, List.append_assoc, List.nil_append] at h
  obtain ⟨hopening, htail⟩ := List.cons.inj h
  have hclosing : k.closing = l.closing := by
    unfold closing
    rw [isSome_spelling?_congr hopening]
  rw [← hclosing] at htail
  obtain ⟨hcore, hrest⟩ :=
    append_mark_inj k.closing_notMem_core (hclosing ▸ l.closing_notMem_core) htail
  exact ⟨eq_of_core_eq hopening (String.toList_inj.1 hcore), hrest⟩

end Kind

/-! ## Lists of kinds -/

variable {k l : Kind} {ks ls : List Kind} {rest rest' : List Char} {word word' : String}

/-- What can stand between two alternatives. -/
def separators : List String := [", ", " or ", ", or "]

/-- Of two separators with a mark behind them none begins the other: the comma is followed by a mark
or by the word, and the word begins with no mark. -/
theorem separator_eq {s s' : String} (hs : s ∈ separators) (hs' : s' ∈ separators)
    (h : s.toList ++ k.opening :: rest = s'.toList ++ l.opening :: rest') : s = s' := by
  have hk := k.opening_ne_o
  have hl := l.opening_ne_o.symm
  simp only [separators, List.mem_cons, List.not_mem_nil, or_false] at hs hs'
  rcases hs with rfl | rfl | rfl <;> rcases hs' with rfl | rfl | rfl <;> simp [hk, hl] at h ⊢

theorem separated_inj {s s' : String} (hs : s ∈ separators) (hs' : s' ∈ separators)
    (h : s.toList ++ ((k.display true).toList ++ rest)
      = s'.toList ++ ((l.display true).toList ++ rest')) : k = l ∧ rest = rest' := by
  have hseparators : s = s' := by
    simp only [Kind.toList_display, List.cons_append] at h
    exact separator_eq hs hs' h
  rw [hseparators] at h
  exact Kind.display_append_inj (List.append_cancel_left h)

theorem wordBeforeLast_mem (n : Nat) : wordBeforeLast n ∈ separators := by
  unfold wordBeforeLast
  split <;> decide

theorem continuation_cons (word x : String) (texts : List String) : continuation word (x :: texts)
    = (if texts = [] then word else ", ") ++ (x ++ continuation word texts) := by
  cases texts <;> simp [continuation, String.append_assoc]

theorem separator_mem (hword : word ∈ separators) (texts : List String) :
    (if texts = [] then word else ", ") ∈ separators := by
  split
  · exact hword
  · decide

theorem continuation_kinds_eq_empty_iff :
    continuation word (ks.map (Kind.display true)) = "" ↔ ks = [] := by
  cases ks <;> simp [continuation_cons, continuation, Kind.display_ne_empty]

theorem continuation_kinds_inj (hword : word ∈ separators) (hword' : word' ∈ separators)
    (h : continuation word (ks.map (Kind.display true))
      = continuation word' (ls.map (Kind.display true))) : ks = ls := by
  induction ks generalizing ls with
  | nil => exact (continuation_kinds_eq_empty_iff.1 h.symm).symm
  | cons k ks ih =>
    cases ls with
    | nil => exact continuation_kinds_eq_empty_iff.1 h
    | cons l ls =>
      have hlist := congrArg String.toList h
      simp only [List.map_cons, continuation_cons, String.toList_append] at hlist
      obtain ⟨rfl, hrest⟩ := separated_inj (separator_mem hword _) (separator_mem hword' _) hlist
      rw [ih (String.toList_inj.1 hrest)]

theorem alternation_kinds_eq_empty_iff :
    alternation (ks.map (Kind.display true)) = "" ↔ ks = [] := by
  cases ks with
  | nil => exact iff_of_true rfl rfl
  | cons k ks => simp [alternation_cons, Kind.display_ne_empty]

theorem alternation_kinds_inj
    (h : alternation (ks.map (Kind.display true)) = alternation (ls.map (Kind.display true))) :
    ks = ls := by
  cases ks with
  | nil => exact (alternation_kinds_eq_empty_iff.1 h.symm).symm
  | cons k ks =>
    cases ls with
    | nil => exact alternation_kinds_eq_empty_iff.1 h
    | cons l ls =>
      have hlist := congrArg String.toList h
      simp only [List.map_cons, alternation_cons, String.toList_append] at hlist
      obtain ⟨rfl, hrest⟩ := Kind.display_append_inj hlist
      rw [continuation_kinds_inj (wordBeforeLast_mem _) (wordBeforeLast_mem _)
        (String.toList_inj.1 hrest)]

/-! ## The theorem -/

theorem disjunction_kinds (ks : List Kind) : disjunction (Token.display true) (ks.map Token.kind)
    = alternation (ks.map (Kind.display true)) := by
  rw [disjunction, List.map_map]
  rfl

theorem outcomeOf_format_expected {φ : Type} (files : φ → SourceFile) (s : String)
    (journal : Journal) :
    outcomeOf (format files "\x7b0\x7d expected." [.string s]) journal
      = .ok (s ++ " expected.") := by
  have hread : Template.ofString "\x7b0\x7d expected."
      = ⟨[], [(⟨['0']⟩, " expected.".toList)]⟩ := by decide
  have hshort : (Template.ofString "\x7b0\x7d expected.").overlong? = none := by
    rw [hread]
    rfl
  rw [outcomeOf_format, hshort]
  simp only [hread, Template.fill_eq, Except.ok.injEq, ← String.toList_inj]
  simp [Placeholder.index, decimalValue, digitValue?, digitZeros, argumentText, Argument.unwrap,
    Argument.text]

/-- The text of a list of kinds tells which kinds these are, how many, and in what order, also when
they are shown by a comma, the word or braces; and so does the message that expects them. -/
theorem disjunction_determines_kinds {φ : Type} (files : φ → SourceFile) (ks ls : List Kind) :
    let text (ks : List Kind) := disjunction (Token.display true) (ks.map Token.kind)
    let message (ks : List Kind) := format files "\x7b0\x7d expected." [.string (text ks)]
    (text ks = text ls ↔ ks = ls) ∧
      ∀ journal, outcomeOf (message ks) journal = .ok (text ks ++ " expected.") ∧
        (outcomeOf (message ks) journal = outcomeOf (message ls) journal ↔ ks = ls) := by
  intro text message
  have htext (ks ls : List Kind) : text ks = text ls ↔ ks = ls := by
    simp only [text, disjunction_kinds]
    exact ⟨alternation_kinds_inj, fun h => h ▸ rfl⟩
  refine ⟨htext ks ls, fun journal => ⟨outcomeOf_format_expected files _ journal, ?_⟩⟩
  simp only [message, outcomeOf_format_expected, Except.ok.injEq]
  rw [String.append_left_inj, htext]

end GrammarDiagnostics
