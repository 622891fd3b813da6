import GrammarDiagnostics.Proofs.Session.Entries
import GrammarDiagnostics.Proofs.Session.Stability

/-! # Arguments of reports

The arguments of a report are unwrapped when it is made, and rendering the entry unwraps what is
kept. Together this is the one unwrapping of a template that is filled directly.

* `Argument.unwrap_eq_self_iff`: unwrapping does nothing but to a single sequence.
* `format_unwrap`: filling a template with unwrapped arguments, kept in a sequence.
* `Entry.wording_of_args`, `Entry.wording_of_no_args`: what an entry says, with and without
  arguments.
* `Session.entryAt?_report`: the entry of a report, after whatever is done later.
* `report_formats_alike`: what is answered for a report, and when a sequence as the only argument is
  the same as its items.
-/

set_option autoImplicit false

namespace GrammarDiagnostics

open Session

variable {φ : Type}

/-! ## Unwrapping -/

namespace Argument

def IsSequence : Argument φ → Prop
  | list _ | tuple _ => True
  | _ => False

/-- No sequence is its own only item. -/
theorem items_ne_singleton {a : Argument φ} {items : List (Argument φ)}
    (h : a = list items ∨ a = tuple items) : items ≠ [a] := by
  rintro rfl
  rcases h with h | h
  · have hsize := congrArg sizeOf h
    simp only [list.sizeOf_spec, List.cons.sizeOf_spec] at hsize
    omega
  · have hsize := congrArg sizeOf h
    simp only [tuple.sizeOf_spec, List.cons.sizeOf_spec] at hsize
    omega

theorem unwrap_eq_self_iff (args : List (Argument φ)) :
    unwrap args = args ↔ ¬ ∃ a, args = [a] ∧ a.IsSequence := by
  constructor
  · rintro hself ⟨a, rfl, ha⟩
    cases a with
    | list items => exact items_ne_singleton (.inl rfl) hself
    | tuple items => exact items_ne_singleton (.inr rfl) hself
    | _ => exact ha
  · intro h
    unfold unwrap
    split
    · exact absurd ⟨_, rfl, trivial⟩ h
    · exact absurd ⟨_, rfl, trivial⟩ h
    · rfl

theorem unwrap_sequence {xs : List (Argument φ)} {sequence : Argument φ}
    (h : sequence ∈ [list xs, tuple xs]) : unwrap [sequence] = xs := by
  simp only [List.mem_cons, List.not_mem_nil, or_false] at h
  rcases h with rfl | rfl <;> rfl

end Argument

theorem format_unwrap (files : φ → SourceFile) (template : String) (args : List (Argument φ)) :
    format files template [.tuple (Argument.unwrap args)] = format files template args := by
  unfold format
  rw [Argument.unwrap_tuple]

theorem format_congr {args args' : List (Argument φ)}
    (h : Argument.unwrap args = Argument.unwrap args') (files : φ → SourceFile)
    (template : String) : format files template args = format files template args' := by
  unfold format
  rw [h]

/-! ## Entries with and without arguments -/

namespace Entry

variable {e : Entry φ} {args : List (Argument φ)}

theorem arguments?_of_ne_nil (h : e.arguments = args) (hne : args ≠ []) :
    e.arguments? = some args := by
  rw [arguments?_eq, h, nonempty?, if_neg (by simpa using hne)]

theorem arguments?_of_nil (h : e.arguments = []) : e.arguments? = none := by
  rw [arguments?_eq, h]
  rfl

theorem wording_of_args (h : e.arguments = Argument.unwrap args)
    (hne : Argument.unwrap args ≠ []) (files : φ → SourceFile) :
    e.wording files = outcomeOf (format files e.diagnostic.message args) #[] := by
  unfold wording
  rw [arguments?_of_ne_nil h hne, ← format_unwrap]

theorem wording_of_no_args (h : e.arguments = []) (files : φ → SourceFile) :
    e.wording files = .ok e.diagnostic.message := by
  unfold wording
  rw [arguments?_of_nil h]

end Entry

/-! ## The entry of a report -/

theorem Log.entryAt?_append_size (log : Log φ) (e : Entry φ) :
    (log.append e).entryAt? log.size = some e := by
  rw [entryAt?_natCast]
  change (log.entries.push e).toList[log.entries.size]? = some e
  rw [Array.toList_push, ← Array.length_toList, List.getElem?_concat_length]

section Session

variable [DecidableEq φ]

theorem Step.stateAfter_report (s : Session φ) (pos : Option Int) (d : Diagnostic)
    (args : List (Argument φ)) :
    stateAfter (Step.run (.report pos d args)) s = (Move.report (.atOffset pos d args)).after s :=
  Step.stateAfter_of_move? rfl s

theorem Step.stateAfter_reportNode (s : Session φ) (node : Option Node) (d : Diagnostic)
    (args : List (Argument φ)) :
    stateAfter (Step.run (.reportNode node d args)) s
      = (Move.report (.atNode node d args)).after s :=
  Step.stateAfter_of_move? rfl s

theorem Session.entryAt?_report {s : Session φ} (h : s.Records) (e : Entry φ)
    (later : List (Step φ)) :
    (afterRun later ((Move.report e).after s)).sink.entryAt? s.sink.size = some e := by
  obtain ⟨log, hlog, _⟩ := h
  have hsink := Move.sink_report hlog e
  have hkeeps : Keeps (fun _ => False) ((Move.report e).after s)
      (afterRun later ((Move.report e).after s)) := keeps_afterRun (fun _ _ _ _ h => h) _
  have hlt : (s.sink.size : Int) < ((Move.report e).after s).sink.size := by
    rw [hsink, hlog]
    exact Int.ofNat_lt.2 (Nat.lt_of_lt_of_eq (Nat.lt_succ_self _) (log.size_append e).symm)
  rw [hkeeps.sink.entryAt? _ hlt, hsink, hlog]
  exact log.entryAt?_append_size e

theorem Session.after_report_eq_iff {s : Session φ} (h : s.Records) (e e' : Entry φ) :
    (Move.report e).after s = (Move.report e').after s ↔ e = e' := by
  constructor
  · intro hsame
    have he := entryAt?_report h e []
    have he' := entryAt?_report h e' []
    rw [hsame] at he
    exact Option.some.inj (he.symm.trans he')
  · rintro rfl
    rfl

/-- Both kinds of report make an entry with the same diagnostic and the same arguments. -/
theorem Step.exists_report {step : Step φ} {pos : Option Int} {node : Option Node} {d : Diagnostic}
    {args : List (Argument φ)} (h : step ∈ [Step.report pos d args, .reportNode node d args])
    (s : Session φ) :
    ∃ e : Entry φ, e.diagnostic = d ∧ e.arguments = Argument.unwrap args ∧
      stateAfter step.run s = (Move.report e).after s ∧ outcomeOf step.run s = .ok .done := by
  simp only [List.mem_cons, List.not_mem_nil, or_false] at h
  rcases h with rfl | rfl
  · have hrun : (Step.report pos d args).run s = .ok .done _ :=
      Step.run_of_move? rfl (by rintro ⟨⟩) s
    exact ⟨_, rfl, rfl, stateAfter_of_ok hrun, outcomeOf_of_ok hrun⟩
  · have hrun : (Step.reportNode node d args).run s = .ok .done _ :=
      Step.run_of_move? rfl (by rintro ⟨⟩) s
    exact ⟨_, rfl, rfl, stateAfter_of_ok hrun, outcomeOf_of_ok hrun⟩

theorem outcomeOf_arguments {t : Session φ} {index : Int} {e : Entry φ}
    (he : t.sink.entryAt? index = some e) :
    outcomeOf (Query.arguments index).run t = .ok (.arguments e.arguments?) := by
  have he' : t.view.sink.entryAt? index = some e := he
  rw [(yields_query _).outcomeOf_eq]
  simp only [View.answer, he', Option.bind_some]
  rfl

/-- What is answered for a report: its arguments, unwrapped once, and the message that filling its
template with them gives, files among them as they are by then; without arguments the template is
the message. That stays so whatever is done later. A list or tuple as the only argument of a report,
or of a template, is the same as its items, but for a single item that is a list or tuple itself. -/
theorem report_formats_alike (files : φ → SourceFile) (before : List (Step φ)) (pos : Option Int)
    (node : Option Node) (d : Diagnostic) (args : List (Argument φ)) :
    let s := afterRun before (recording files)
    (∀ step ∈ [Step.report pos d args, .reportNode node d args],
      outcomeOf step.run s = .ok .done ∧
      (stateAfter step.run s).sink.size = s.sink.size + 1 ∧
      ∀ later : List (Step φ),
        let t := afterRun later (stateAfter step.run s)
        (Argument.unwrap args ≠ [] →
          outcomeOf (Query.arguments s.sink.size).run t
            = .ok (.arguments (some (Argument.unwrap args))) ∧
          outcomeOf (message s.sink.size false) t
            = outcomeOf (format t.files d.message args) #[]) ∧
        (Argument.unwrap args = [] →
          outcomeOf (Query.arguments s.sink.size).run t = .ok (.arguments none) ∧
          outcomeOf (message s.sink.size false) t = .ok d.message)) ∧
    ∀ xs : List (Argument φ), ∀ sequence ∈ [Argument.list xs, .tuple xs],
      (stateAfter (Step.run (.report pos d [sequence])) s
          = stateAfter (Step.run (.report pos d xs)) s
        ↔ ¬ ∃ a, xs = [a] ∧ a.IsSequence) ∧
      (stateAfter (Step.run (.reportNode node d [sequence])) s
          = stateAfter (Step.run (.reportNode node d xs)) s
        ↔ ¬ ∃ a, xs = [a] ∧ a.IsSequence) ∧
      ((¬ ∃ a, xs = [a] ∧ a.IsSequence) →
        ∀ files' template, format files' template [sequence] = format files' template xs) := by
  intro s
  have hrecords : s.Records := records_afterRun files before
  constructor
  · intro step hstep
    obtain ⟨e, hd, hargs, hafter, hdone⟩ := Step.exists_report hstep s
    refine ⟨hdone, ?_, fun later => ?_⟩
    · obtain ⟨log, hlog, _⟩ := hrecords
      rw [hafter, Move.sink_report hlog, hlog]
      exact log.size_append e
    · intro t
      have he : t.sink.entryAt? s.sink.size = some e := by
        have hentry := entryAt?_report hrecords e later
        rwa [← hafter] at hentry
      rw [outcomeOf_arguments he, outcomeOf_message_false he, ← hd]
      constructor
      · intro hne
        rw [Entry.arguments?_of_ne_nil hargs hne]
        exact ⟨rfl, Entry.wording_of_args hargs hne t.files⟩
      · intro hnil
        rw [Entry.arguments?_of_nil (hargs.trans hnil)]
        exact ⟨rfl, Entry.wording_of_no_args (hargs.trans hnil) t.files⟩
  · intro xs sequence hsequence
    have hunwrap := Argument.unwrap_sequence hsequence
    have hself := Argument.unwrap_eq_self_iff xs
    refine ⟨?_, ?_, fun h => format_congr (hunwrap.trans (hself.2 h).symm)⟩
    · rw [Step.stateAfter_report, Step.stateAfter_report, after_report_eq_iff hrecords, ← hself]
      unfold Entry.atOffset
      rw [hunwrap, Entry.mk.injEq]
      simp only [true_and, and_true, eq_comm]
    · rw [Step.stateAfter_reportNode, Step.stateAfter_reportNode, after_report_eq_iff hrecords,
        ← hself]
      unfold Entry.atNode
      rw [hunwrap, Entry.mk.injEq]
      simp only [true_and, and_true, eq_comm]

/-- A file, a report, and a question about it. -/
def shortRun : List (Step Nat) :=
  [.register (some 0),
   .report none ⟨1000, "Constant expected.", "error"⟩ [],
   .ask (.message 0 true)]

theorem report_formats_alike_nested :
    let s := afterRun shortRun (recording fun _ => { filename := "a", text := some "b\nc" })
    let d : Diagnostic := ⟨1001, "\x7b0\x7d or \x7b1\x7d expected.", "error"⟩
    let nested : List (Argument Nat) := [.list [.list [.list [.string "a"]]]]
    let xs : List (Argument Nat) := [.sourceFile 0, .tuple [.int 1]]
    let byNode : Step Nat := .reportNode none d nested
    let byOffset : Step Nat := .report (some 3) d [.tuple []]
    (byNode ∈ [.report (some 3) d nested, .reportNode none d nested] ∧
      Argument.unwrap nested ≠ [] ∧
      let t := afterRun [.register none] (stateAfter byNode.run s)
      outcomeOf (Query.arguments s.sink.size).run t
        = .ok (.arguments (some (Argument.unwrap nested))) ∧
      outcomeOf (message s.sink.size false) t
        = outcomeOf (format t.files d.message nested) #[]) ∧
    (byOffset ∈ [.report (some 3) d [.tuple []], .reportNode none d [.tuple []]] ∧
      Argument.unwrap [.tuple []] = ([] : List (Argument Nat)) ∧
      let t := afterRun [.rename 0 "b"] (stateAfter byOffset.run s)
      outcomeOf (Query.arguments s.sink.size).run t = .ok (.arguments none) ∧
      outcomeOf (message s.sink.size false) t = .ok "\x7b0\x7d or \x7b1\x7d expected.") ∧
    (Argument.tuple xs ∈ [Argument.list xs, .tuple xs] ∧ (¬ ∃ a, xs = [a] ∧ a.IsSequence) ∧
      stateAfter (Step.run (.report (some 3) d [.tuple xs])) s
        = stateAfter (Step.run (.report (some 3) d xs)) s ∧
      format s.files d.message [.tuple xs] = format s.files d.message xs) := by
  intro s d nested xs byNode byOffset
  have hnode : byNode ∈ [.report (some 3) d nested, .reportNode none d nested] :=
    .tail _ (.head _)
  have hne : Argument.unwrap nested ≠ [] := List.cons_ne_nil _ _
  have hoffset : byOffset ∈ [.report (some 3) d [.tuple []], .reportNode none d [.tuple []]] :=
    .head _
  have hxs : Argument.tuple xs ∈ [Argument.list xs, .tuple xs] := .tail _ (.head _)
  have htwo : ¬ ∃ a, xs = [a] ∧ a.IsSequence := fun ⟨_, ha, _⟩ => nomatch (List.cons.inj ha).2
  obtain ⟨hfirst, hsequences⟩ := report_formats_alike
    (fun _ => { filename := "a", text := some "b\nc" }) shortRun (some 3) none d nested
  obtain ⟨hsecond, _⟩ := report_formats_alike
    (fun _ => { filename := "a", text := some "b\nc" }) shortRun (some 3) none d [.tuple []]
  obtain ⟨hreport, _, hformat⟩ := hsequences xs (.tuple xs) hxs
  exact ⟨⟨hnode, hne, ((hfirst _ hnode).2.2 [.register none]).1 hne⟩,
    ⟨hoffset, rfl, ((hsecond _ hoffset).2.2 [.rename 0 "b"]).2 rfl⟩,
    ⟨hxs, htwo, hreport.2 htwo, hformat htwo s.files d.message⟩⟩

end Session

end GrammarDiagnostics
