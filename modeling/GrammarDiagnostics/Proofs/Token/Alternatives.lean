import GrammarDiagnostics.Proofs.Message.Filling
import GrammarDiagnostics.Token.Disjunction
import Mathlib.Data.List.Basic

/-! # Alternatives in words

* `format_alternatives`: two alternatives are the template of the catalog, filled;
  `alternatives_eq`: whatever they look like, they stand on both sides of the word.
* `alternation_of_three`: from three alternatives on, there are commas.
* `continuation word texts`: how a list of alternatives goes on behind the first one;
  `alternation_cons`.
* `separator n i`: what stands in front of one of `n` alternatives; `alternation_eq_join`.
* `disjunction_in_words`: the text of a list of tokens, for every way of showing a token.
-/

set_option autoImplicit false

namespace GrammarDiagnostics

variable {texts : List String}

/-! ## Two alternatives -/

theorem ofString_alternatives : Template.ofString Catalog.alternatives.message
    = ⟨[], [(⟨['0']⟩, [' ', 'o', 'r', ' ']), (⟨['1']⟩, [])]⟩ := by decide

theorem alternatives_eq (first second : String) :
    alternatives first second = first ++ " or " ++ second := by
  unfold alternatives
  rw [ofString_alternatives, Template.fill_eq, ← String.toList_inj]
  simp [Placeholder.index, decimalValue, digitValue?, digitZeros]

/-- Filling the template with two texts gives the alternatives, and notes nothing. -/
theorem format_alternatives {φ : Type} (files : φ → SourceFile) (first second : String)
    (journal : Journal) :
    format files Catalog.alternatives.message [.string first, .string second] journal
      = .ok (alternatives first second) journal := rfl

/-! ## Three and more -/

theorem intercalate_space_map_comma (h : texts ≠ []) :
    String.intercalate " " (texts.map (· ++ ",")) = String.intercalate ", " texts ++ "," := by
  induction texts with
  | nil => exact absurd rfl h
  | cons x texts ih =>
    cases texts with
    | nil => simp
    | cons y texts =>
      have hrest := ih (List.cons_ne_nil y texts)
      rw [List.map_cons] at hrest
      rw [List.map_cons, List.map_cons, String.intercalate_cons_cons, hrest,
        String.intercalate_cons_cons]
      simp [← String.toList_inj]

theorem ne_nil_of_three (h : 3 ≤ texts.length) : texts ≠ [] :=
  List.ne_nil_of_length_pos (by omega)

theorem alternation_of_three (h : 3 ≤ texts.length) : alternation texts
    = String.intercalate ", " texts.dropLast ++ ", or " ++ texts.getLast (ne_nil_of_three h) := by
  match texts, h with
  | x :: y :: z :: rest, _ =>
    have hfront : (x :: y :: z :: rest).dropLast ≠ [] := List.cons_ne_nil _ _
    rw [alternation, alternatives_eq, intercalate_space_map_comma hfront]
    simp [← String.toList_inj]

/-! ## Behind the first one -/

/-- How a list of alternatives goes on behind the first one, with the given word before the last. -/
def continuation (word : String) : List String → String
  | [] => ""
  | [x] => word ++ x
  | x :: y :: rest => ", " ++ x ++ continuation word (y :: rest)

theorem intercalate_dropLast (word x y : String) (rest : List String) :
    String.intercalate ", " (x :: y :: rest).dropLast ++ word
        ++ (x :: y :: rest).getLast (List.cons_ne_nil _ _)
      = x ++ continuation word (y :: rest) := by
  induction rest generalizing x y with
  | nil => simp [continuation, String.append_assoc]
  | cons z rest ih =>
    have hrest := ih y z
    simp only [String.append_assoc] at hrest
    have hfront : (y :: z :: rest).dropLast ≠ [] := List.cons_ne_nil _ _
    rw [List.dropLast_cons_of_ne_nil (List.cons_ne_nil _ _),
      String.intercalate_cons_of_ne_nil hfront,
      List.getLast_cons (List.cons_ne_nil _ _), continuation]
    simp only [String.append_assoc, hrest]

/-- The word before the last of `n` alternatives: from three on, a comma stands before it. -/
def wordBeforeLast (n : Nat) : String := if n = 2 then " or " else ", or "

theorem alternation_cons (x : String) (rest : List String) :
    alternation (x :: rest) = x ++ continuation (wordBeforeLast (x :: rest).length) rest := by
  match rest with
  | [] => simp [alternation, continuation]
  | [y] => simp [alternation, continuation, wordBeforeLast, alternatives_eq, String.append_assoc]
  | y :: z :: rest =>
    rw [alternation_of_three (by simp), intercalate_dropLast, wordBeforeLast, if_neg (by simp)]

/-! ## Separators -/

/-- What stands in front of an alternative, by its place among `n` of them. -/
def separator (n i : Nat) : String :=
  if i = 0 then "" else if i + 1 < n then ", " else wordBeforeLast n

theorem continuation_eq_join (word : String) (texts : List String) : continuation word texts
    = String.join (texts.mapIdx fun i x => (if i + 1 < texts.length then ", " else word) ++ x) := by
  induction texts with
  | nil => rfl
  | cons x texts ih =>
    cases texts with
    | nil => simp [continuation]
    | cons y rest => rw [continuation, ih, List.mapIdx_cons (l := y :: rest)]; simp

theorem alternation_eq_join (texts : List String) :
    alternation texts = String.join (texts.mapIdx fun i x => separator texts.length i ++ x) := by
  cases texts with
  | nil => rfl
  | cons x rest =>
    rw [alternation_cons, continuation_eq_join, List.mapIdx_cons, String.join_cons]
    simp [separator]

/-! ## The theorem -/

/-- Tokens in words: one stands alone, two have the word between them, and from three on there are
commas, also before the word. However tokens are shown, each stands there as it is shown, in order,
and the template that joins two texts is filled once. -/
theorem disjunction_in_words (render : Token → String) :
    disjunction render [] = "" ∧ (∀ t, disjunction render [t] = render t) ∧
      (∀ t u, disjunction render [t, u] = render t ++ " or " ++ render u) ∧
      (∀ front last, 2 ≤ front.length → disjunction render (front ++ [last])
        = String.intercalate ", " (front.map render) ++ ", or " ++ render last) ∧
      (∀ tokens, disjunction render tokens
        = String.join (tokens.mapIdx fun i t => separator tokens.length i ++ render t)) ∧
      ∀ {φ : Type} (files : φ → SourceFile) first second journal,
        format files Catalog.alternatives.message [.string first, .string second] journal
          = .ok (alternatives first second) journal := by
  refine ⟨rfl, fun t => rfl, fun t u => alternatives_eq _ _, fun front last h => ?_,
    fun tokens => ?_, format_alternatives⟩
  · have hthree : 3 ≤ ((front ++ [last]).map render).length := by simpa using h
    rw [disjunction, alternation_of_three hthree]
    simp
  · rw [disjunction, alternation_eq_join]
    congr 1
    exact List.ext_getElem (by simp) (by simp)

/-- Tokens that look like placeholders of the template, around the comma. -/
theorem disjunction_in_words_placeholders :
    let front : List Token := [.text "\x7b1\x7d", .kind .comma]
    2 ≤ front.length ∧ disjunction (Token.display true) (front ++ [.text "\x7b0\x7d"])
      = "\x7b1\x7d, ',', or \x7b0\x7d" := by
  intro front
  have hlength : 2 ≤ front.length := by decide
  obtain ⟨_, _, _, hthree, _⟩ := disjunction_in_words (Token.display true)
  exact ⟨hlength, (hthree front _ hlength).trans (by decide)⟩

end GrammarDiagnostics
