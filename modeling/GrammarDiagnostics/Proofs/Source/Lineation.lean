import GrammarDiagnostics.Source.LineStarts
import Mathlib.Data.List.Chain
import Mathlib.Logic.ExistsUnique

/-! # Texts written line by line

* `LineEnd`: the six ways in which a line can end; `Line`: a body and its end.
* `Lineation`: lines that are ended, and the body of the last line, which is not. No body holds a
  line break, and no carriage return stands right before a line feed that ends a line of its own.
* `Lineation.chars`: the text that is written; `Lineation.start`: where each line starts in it.
* `lineStarts_chars`: the line starts of the text are those of the lines.
* `splitLines`: reads the lines back; `existsUnique_lineation`: every text is written in one way.
-/

set_option autoImplicit false

namespace GrammarDiagnostics

/-! ## Lines -/

inductive LineEnd where
  | returnFeed
  | lineFeed
  | carriageReturn
  | lineSeparator
  | paragraphSeparator
  | nextLine
  deriving DecidableEq, Repr

def LineEnd.chars : LineEnd → List Char
  | .returnFeed => ['\r', '\n']
  | .lineFeed => ['\n']
  | .carriageReturn => ['\r']
  | .lineSeparator => ['\u2028']
  | .paragraphSeparator => ['\u2029']
  | .nextLine => ['\u0085']

/-- A line that is ended. -/
structure Line where
  body : List Char
  ending : LineEnd
  deriving DecidableEq, Repr

def Line.chars (l : Line) : List Char := l.body ++ l.ending.chars

/-- A carriage return and the line feed that ends the empty line after it would be read as one
end. -/
def Line.Fuses (l next : Line) : Prop :=
  l.ending = .carriageReturn ∧ next.body = [] ∧ next.ending = .lineFeed

instance (l next : Line) : Decidable (l.Fuses next) :=
  inferInstanceAs (Decidable (_ ∧ _ ∧ _))

def Unbroken (body : List Char) : Prop := ∀ c ∈ body, isLineBreak c = false

instance (body : List Char) : Decidable (Unbroken body) :=
  List.decidableBAll (fun c => isLineBreak c = false) body

/-- No body holds a line break, and no two ends would be read as one. -/
structure Lineated (ended : List Line) (last : List Char) : Prop where
  unbroken_ended : ∀ l ∈ ended, Unbroken l.body
  unbroken_last : Unbroken last
  apart : ended.IsChain fun l next => ¬ l.Fuses next

/-- The lines of a text: those that are ended, and what stands after the last end. -/
structure Lineation where
  ended : List Line
  last : List Char
  lineated : Lineated ended last

def joined (ended : List Line) (last : List Char) : List Char := ended.flatMap Line.chars ++ last

theorem joined_cons (l : Line) (ended : List Line) (last : List Char) :
    joined (l :: ended) last = l.body ++ (l.ending.chars ++ joined ended last) := by
  unfold joined
  rw [List.flatMap_cons, Line.chars, List.append_assoc, List.append_assoc]

namespace Lineation

def chars (d : Lineation) : List Char := joined d.ended d.last

def text (d : Lineation) : String := String.ofList d.chars

/-- The bodies of the lines, one more than there are ends. -/
def bodies (d : Lineation) : List (List Char) := d.ended.map Line.body ++ [d.last]

/-- The length of everything before a line. -/
def start (d : Lineation) (i : Nat) : Nat := ((d.ended.take i).flatMap Line.chars).length

def starts (d : Lineation) : List Nat := (List.range (d.ended.length + 1)).map d.start

end Lineation

/-! ## One line less -/

theorem Unbroken.head?_ne {body : List Char} (h : Unbroken body) : body.head? ≠ some '\n' := by
  intro hhead
  have hbreak := h '\n' (List.mem_of_mem_head? hhead)
  exact absurd hbreak (by decide)

theorem LineEnd.head?_chars_append {e : LineEnd} {rest : List Char}
    (h : (e.chars ++ rest).head? = some '\n') : e = .lineFeed := by
  cases e with
  | lineFeed => rfl
  | _ => exact absurd h (by simp [chars])

namespace Lineated

variable {l : Line} {ended : List Line} {last : List Char}

theorem tail (h : Lineated (l :: ended) last) : Lineated ended last :=
  ⟨fun m hm => h.unbroken_ended m (List.mem_cons_of_mem l hm), h.unbroken_last, h.apart.tail⟩

theorem unbroken_body (h : Lineated (l :: ended) last) : Unbroken l.body :=
  h.unbroken_ended l List.mem_cons_self

/-- What follows a carriage return that ends a line does not begin with a line feed. -/
theorem head?_joined_ne (h : Lineated (l :: ended) last) (hl : l.ending = .carriageReturn) :
    (joined ended last).head? ≠ some '\n' := by
  intro hhead
  cases ended with
  | nil => exact h.unbroken_last.head?_ne hhead
  | cons m ended =>
    rw [joined_cons] at hhead
    have hfuses : ¬ l.Fuses m := (List.isChain_cons_cons.1 h.apart).1
    cases hbody : m.body with
    | nil =>
      rw [hbody, List.nil_append] at hhead
      exact hfuses ⟨hl, hbody, LineEnd.head?_chars_append hhead⟩
    | cons c body =>
      have hm := h.tail.unbroken_body
      rw [hbody] at hm hhead
      exact hm.head?_ne hhead

end Lineated

/-! ## The line starts -/

theorem startsAfter_append {body : List Char} (h : Unbroken body) (pos : Nat) (rest : List Char) :
    startsAfter pos (body ++ rest) = startsAfter (pos + body.length) rest := by
  induction body generalizing pos with
  | nil => rfl
  | cons c body ih =>
    have hc : isLineBreak c = false := h c List.mem_cons_self
    have hends : endsLine c (body ++ rest) = false := by
      unfold endsLine
      rw [hc, Bool.false_and]
    have hbody : Unbroken body := fun a ha => h a (List.mem_cons_of_mem c ha)
    rw [List.cons_append, startsAfter, hends, if_neg Bool.false_ne_true, ih hbody,
      List.length_cons, Nat.add_assoc, Nat.add_comm 1]

theorem startsAfter_lineEnd {e : LineEnd} {rest : List Char}
    (h : e = .carriageReturn → rest.head? ≠ some '\n') (pos : Nat) :
    startsAfter pos (e.chars ++ rest)
      = (pos + e.chars.length) :: startsAfter (pos + e.chars.length) rest := by
  cases e with
  | carriageReturn =>
    have hends : endsLine '\r' rest = true := by simp [endsLine, isLineBreak, h rfl]
    simp [LineEnd.chars, startsAfter, hends]
  | _ => simp [LineEnd.chars, startsAfter, endsLine, isLineBreak]

theorem startsAfter_joined {ended : List Line} {last : List Char} (h : Lineated ended last)
    (pos : Nat) :
    startsAfter pos (joined ended last)
      = (List.range ended.length).map fun i =>
          pos + ((ended.take (i + 1)).flatMap Line.chars).length := by
  induction ended generalizing pos with
  | nil =>
    have hlast := startsAfter_append h.unbroken_last pos []
    rw [List.append_nil] at hlast
    exact hlast
  | cons l ended ih =>
    have hlength : pos + l.body.length + l.ending.chars.length = pos + l.chars.length := by
      unfold Line.chars
      rw [List.length_append, Nat.add_assoc]
    rw [joined_cons, startsAfter_append h.unbroken_body, startsAfter_lineEnd h.head?_joined_ne,
      hlength, ih h.tail, List.length_cons, List.range_succ_eq_map, List.map_cons, List.map_map]
    congr 1
    · simp
    · apply List.map_congr_left
      intro i _
      simp [Nat.add_assoc]

theorem lineStarts_chars (d : Lineation) : lineStarts d.chars = d.starts := by
  unfold lineStarts Lineation.chars Lineation.starts Lineation.start
  rw [startsAfter_joined d.lineated, List.range_succ_eq_map, List.map_cons, List.map_map]
  congr 1
  apply List.map_congr_left
  intro i _
  exact Nat.zero_add _

/-! ## Reading lines back -/

def LineEnd.ofChar? (c : Char) : Option LineEnd :=
  if c = '\n' then some .lineFeed
  else if c = '\r' then some .carriageReturn
  else if c = '\u2028' then some .lineSeparator
  else if c = '\u2029' then some .paragraphSeparator
  else if c = '\u0085' then some .nextLine
  else none

/-- An end in front of lines: it ends an empty line. -/
def beginWithEnd (e : LineEnd) (lines : List Line × List Char) : List Line × List Char :=
  (⟨[], e⟩ :: lines.1, lines.2)

/-- A character in front of lines: it belongs to the body of the first. -/
def beginWithChar (c : Char) : List Line × List Char → List Line × List Char
  | ([], last) => ([], c :: last)
  | (l :: ended, last) => ({ l with body := c :: l.body } :: ended, last)

/-- The lines of a text: those that are ended, and what stands after the last end. -/
def splitLines : List Char → List Line × List Char
  | '\r' :: '\n' :: rest => beginWithEnd .returnFeed (splitLines rest)
  | c :: rest =>
    match LineEnd.ofChar? c with
    | some e => beginWithEnd e (splitLines rest)
    | none => beginWithChar c (splitLines rest)
  | [] => ([], [])

theorem LineEnd.chars_of_ofChar? {c : Char} {e : LineEnd} (h : ofChar? c = some e) :
    e.chars = [c] := by
  unfold ofChar? at h
  split_ifs at h with h1 h2 h3 h4 h5 <;> obtain rfl := Option.some.inj h <;> simp [chars, *]

theorem LineEnd.ofChar?_eq_none_iff {c : Char} : ofChar? c = none ↔ isLineBreak c = false := by
  unfold ofChar?
  split_ifs <;> simp_all [isLineBreak]

theorem joined_beginWithEnd (e : LineEnd) (lines : List Line × List Char) :
    joined (beginWithEnd e lines).1 (beginWithEnd e lines).2
      = e.chars ++ joined lines.1 lines.2 := by
  unfold beginWithEnd
  rw [joined_cons]
  rfl

theorem joined_beginWithChar (c : Char) (lines : List Line × List Char) :
    joined (beginWithChar c lines).1 (beginWithChar c lines).2 = c :: joined lines.1 lines.2 := by
  obtain ⟨_ | ⟨l, ended⟩, last⟩ := lines
  · rfl
  · unfold beginWithChar
    rw [joined_cons, joined_cons, List.cons_append]

theorem joined_splitLines (cs : List Char) : joined (splitLines cs).1 (splitLines cs).2 = cs := by
  fun_induction splitLines cs with
  | case1 rest ih => rw [joined_beginWithEnd, ih]; rfl
  | case2 c rest _ e he ih => rw [joined_beginWithEnd, ih, LineEnd.chars_of_ofChar? he]; rfl
  | case3 c rest _ he ih => rw [joined_beginWithChar, ih]
  | case4 => rfl

theorem lineated_beginWithEnd {e : LineEnd} {lines : List Line × List Char}
    (h : Lineated lines.1 lines.2)
    (he : e = .carriageReturn → (joined lines.1 lines.2).head? ≠ some '\n') :
    Lineated (beginWithEnd e lines).1 (beginWithEnd e lines).2 where
  unbroken_ended := by
    intro l hl
    rcases List.mem_cons.1 hl with rfl | hl
    · exact fun c hc => absurd hc List.not_mem_nil
    · exact h.unbroken_ended l hl
  unbroken_last := h.unbroken_last
  apart := by
    refine List.isChain_cons.2 ⟨fun m hm hfuses => ?_, h.apart⟩
    obtain ⟨rest, hrest⟩ : ∃ rest, lines.1 = m :: rest := by
      obtain ⟨_ | ⟨l, rest⟩, last⟩ := lines
      · cases hm
      · exact ⟨rest, by rw [Option.some.inj hm]⟩
    refine he hfuses.1 ?_
    rw [hrest, joined_cons, hfuses.2.1, hfuses.2.2]
    rfl

theorem lineated_beginWithChar {c : Char} {lines : List Line × List Char}
    (h : Lineated lines.1 lines.2) (hc : isLineBreak c = false) :
    Lineated (beginWithChar c lines).1 (beginWithChar c lines).2 := by
  have hcons {body : List Char} (hbody : Unbroken body) : Unbroken (c :: body) := by
    intro a ha
    rcases List.mem_cons.1 ha with rfl | ha
    · exact hc
    · exact hbody a ha
  obtain ⟨_ | ⟨l, ended⟩, last⟩ := lines
  · exact ⟨h.unbroken_ended, hcons h.unbroken_last, h.apart⟩
  · refine ⟨fun m hm => ?_, h.unbroken_last, ?_⟩
    · rcases List.mem_cons.1 hm with rfl | hm
      · exact hcons h.unbroken_body
      · exact h.tail.unbroken_ended m hm
    · -- whether two ends fuse does not depend on the body before the first of them
      obtain ⟨hfirst, hrest⟩ := List.isChain_cons.1 h.apart
      exact List.isChain_cons.2 ⟨hfirst, hrest⟩

theorem lineated_splitLines (cs : List Char) :
    Lineated (splitLines cs).1 (splitLines cs).2 := by
  fun_induction splitLines cs with
  | case1 rest ih => exact lineated_beginWithEnd ih (fun h => nomatch h)
  | case2 c rest hno e he ih =>
    refine lineated_beginWithEnd ih fun hcr hhead => ?_
    rw [joined_splitLines] at hhead
    have hchars := LineEnd.chars_of_ofChar? he
    rw [hcr] at hchars
    obtain ⟨rest', rfl⟩ := List.head?_eq_some_iff.1 hhead
    exact hno rest' (List.singleton_inj.1 hchars).symm rfl
  | case3 c rest _ he ih => exact lineated_beginWithChar ih (LineEnd.ofChar?_eq_none_iff.1 he)
  | case4 =>
    exact ⟨fun l hl => absurd hl List.not_mem_nil, fun c hc => absurd hc List.not_mem_nil,
      List.isChain_nil⟩

/-! ## One lineation for every text -/

theorem splitLines_cons_of_unbroken {c : Char} (h : isLineBreak c = false) (rest : List Char) :
    splitLines (c :: rest) = beginWithChar c (splitLines rest) := by
  rw [splitLines, LineEnd.ofChar?_eq_none_iff.2 h]
  rintro rest' rfl
  exact absurd h (by decide)

theorem splitLines_append {body : List Char} (h : Unbroken body) (rest : List Char) :
    splitLines (body ++ rest) = body.foldr beginWithChar (splitLines rest) := by
  induction body with
  | nil => rfl
  | cons c body ih =>
    rw [List.cons_append, splitLines_cons_of_unbroken (h c List.mem_cons_self),
      ih fun a ha => h a (List.mem_cons_of_mem c ha), List.foldr_cons]

theorem splitLines_lineEnd {e : LineEnd} {rest : List Char}
    (h : e = .carriageReturn → rest.head? ≠ some '\n') :
    splitLines (e.chars ++ rest) = beginWithEnd e (splitLines rest) := by
  cases e with
  | carriageReturn =>
    change splitLines ('\r' :: rest) = _
    rw [splitLines]
    · rfl
    · rintro rest' - rfl
      exact h rfl rfl
  | returnFeed => rw [LineEnd.chars, List.cons_append, List.singleton_append, splitLines]
  | _ =>
    rw [LineEnd.chars, List.singleton_append, splitLines]
    · rfl
    · intro rest' hc
      exact absurd hc (by decide)

theorem foldr_beginWithChar_beginWithEnd (body : List Char) (e : LineEnd)
    (lines : List Line × List Char) :
    body.foldr beginWithChar (beginWithEnd e lines) = (⟨body, e⟩ :: lines.1, lines.2) := by
  induction body with
  | nil => rfl
  | cons c body ih =>
    rw [List.foldr_cons, ih]
    rfl

theorem foldr_beginWithChar_nil (body : List Char) :
    body.foldr beginWithChar ([], []) = ([], body) := by
  induction body with
  | nil => rfl
  | cons c body ih =>
    rw [List.foldr_cons, ih]
    rfl

theorem splitLines_joined {ended : List Line} {last : List Char} (h : Lineated ended last) :
    splitLines (joined ended last) = (ended, last) := by
  induction ended with
  | nil =>
    have hlast := splitLines_append h.unbroken_last []
    rw [List.append_nil, splitLines, foldr_beginWithChar_nil] at hlast
    exact hlast
  | cons l ended ih =>
    rw [joined_cons, splitLines_append h.unbroken_body, splitLines_lineEnd h.head?_joined_ne,
      ih h.tail, foldr_beginWithChar_beginWithEnd]

def Lineation.ofText (text : String) : Lineation :=
  ⟨(splitLines text.toList).1, (splitLines text.toList).2, lineated_splitLines text.toList⟩

theorem Lineation.text_ofText (text : String) : (ofText text).text = text := by
  change String.ofList (joined (splitLines text.toList).1 (splitLines text.toList).2) = text
  rw [joined_splitLines, String.ofList_toList]

theorem Lineation.ofText_text (d : Lineation) : ofText d.text = d := by
  obtain ⟨ended, last, h⟩ := d
  have hsplit : splitLines (String.ofList (joined ended last)).toList = (ended, last) := by
    rw [String.toList_ofList, splitLines_joined h]
  unfold ofText
  simp only [Lineation.text, Lineation.chars, hsplit]

theorem existsUnique_lineation (text : String) : ∃! d : Lineation, d.text = text := by
  refine ⟨.ofText text, Lineation.text_ofText text, fun d hd => ?_⟩
  rw [← hd, d.ofText_text]

end GrammarDiagnostics
