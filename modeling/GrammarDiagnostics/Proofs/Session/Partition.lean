import GrammarDiagnostics.Proofs.Session.Agreement
import GrammarDiagnostics.Proofs.Session.LineMaps
import Mathlib.Data.List.Nodup

/-! # The log by files

The snapshots of a file are found by asking of every index to which file it belongs. So the files
share out the log among them: each entry is found under one file, and there once.

* `Sink.indicesOf`: the indices that belong to a file; `Log.indicesOf_append`,
  `Log.indicesOf_register`: what additions do to them.
* `indicesUnder`: the indices of the reports that are made while a file is the active one;
  `Session.indicesOf_afterMoves`: these are the indices that belong to the file.
* `gives_infosOf_indices`: the snapshots of a file are those of its indices.
* `infosOf_partition`: what this makes of the log of a run.
-/

set_option autoImplicit false

namespace GrammarDiagnostics

open Session

variable {φ : Type}

theorem View.exists_info {v : View φ} {index : Nat} (hindex : index < v.sink.size)
    {options : InfoOptions} {found : Option (Info φ)} (h : v.info? index options = .ok found) :
    ∃ info, v.info? index options = .ok (some info) ∧ info.index = index ∧
      info.file = v.sink.fileAt? index := by
  obtain ⟨e, he⟩ := Sink.exists_entryAt? hindex
  obtain ⟨formatted, rfl⟩ := View.snapshot_of_info? he h
  exact ⟨_, h, rfl, rfl⟩

variable [DecidableEq φ]

/-! ## The indices of a file -/

def Sink.indicesOf (sink : Sink φ) (file : Option φ) : List Nat :=
  (List.range sink.size).filter fun (index : Nat) => sink.fileAt? index = file

namespace Log

theorem indicesOf_append (log : Log φ) (e : Entry φ) (file : Option φ) :
    (Sink.recording (log.append e)).indicesOf file
      = (Sink.recording log).indicesOf file ++ if log.active = file then [log.size] else [] := by
  have hsize : (Sink.recording (log.append e)).size = log.size + 1 := log.size_append e
  have hlast : (Sink.recording (log.append e)).fileAt? log.size = log.active :=
    log.fileAt?_of_size_le (Int.le_refl _)
  unfold Sink.indicesOf
  rw [hsize, List.range_succ, List.filter_append]
  congr 1
  by_cases h : log.active = file
  · simp [hlast, h]
  · simp [hlast, h]

/-- A registration is not for the entries that are there. -/
theorem indicesOf_register (log : Log φ) (f file : Option φ) :
    (Sink.recording (log.register f)).indicesOf file = (Sink.recording log).indicesOf file := by
  apply List.filter_congr
  intro index hindex
  have hlt : (index : Int) < log.size := Int.ofNat_lt.2 (List.mem_range.1 hindex)
  have hfile : (Sink.recording (log.register f)).fileAt? index
      = (Sink.recording log).fileAt? index := log.fileAt?_register_of_lt f hlt
  rw [hfile]

end Log

/-! ## The reports under a file -/

/-- The indices of those reports among some moves that are made while a file is the active one. The
file that is active before the moves and the index of their first report are given. -/
def indicesUnder (file : Option φ) : Option φ → Nat → List (Move φ) → List Nat
  | _, _, [] => []
  | _, next, .register f :: moves => indicesUnder file f next moves
  | active, next, .report _ :: moves =>
    (if active = file then [next] else []) ++ indicesUnder file active (next + 1) moves
  | active, next, _ :: moves => indicesUnder file active next moves

theorem Session.indicesOf_afterMoves {s : Session φ} {log : Log φ} (h : s.sink = .recording log)
    (file : Option φ) (moves : List (Move φ)) :
    (s.afterMoves moves).sink.indicesOf file
      = s.sink.indicesOf file ++ indicesUnder file log.active log.size moves := by
  induction moves generalizing s log with
  | nil => exact (List.append_nil _).symm
  | cons m moves ih =>
    change ((m.after s).afterMoves moves).sink.indicesOf file = _
    cases m with
    | read f =>
      have hsink := Move.sink_read f s
      rw [ih (hsink.trans h), hsink]
      rfl
    | note records => exact ih (s := (Move.note records).after s) h
    | print line => exact ih (s := (Move.print line).after s) h
    | register f =>
      have hsink := Move.sink_register h f
      rw [ih hsink, hsink, Log.indicesOf_register, Log.active_register, Log.size_register, h]
      rfl
    | report e =>
      have hsink := Move.sink_report h e
      rw [ih hsink, hsink, Log.indicesOf_append, Log.active_append, Log.size_append, h,
        indicesUnder, List.append_assoc]
    | setText f text => exact ih (s := (Move.setText f text).after s) h
    | rename f filename => exact ih (s := (Move.rename f filename).after s) h

/-- While a file is not registered, nothing is reported under it. -/
theorem indicesUnder_of_not_registered {f : φ} {moves : List (Move φ)}
    (h : .register (some f) ∉ moves) {active : Option φ} (hactive : active ≠ some f) (next : Nat) :
    indicesUnder (some f) active next moves = [] := by
  induction moves generalizing active next with
  | nil => rfl
  | cons m moves ih =>
    obtain ⟨hm, hmoves⟩ := not_or.1 (fun hor => h (List.mem_cons.2 hor))
    cases m with
    | register file =>
      have hne : file ≠ some f := fun heq => hm (by rw [heq])
      exact ih hmoves hne next
    | report e =>
      rw [indicesUnder, if_neg hactive, List.nil_append]
      exact ih hmoves hactive (next + 1)
    | read g => exact ih hmoves hactive next
    | note records => exact ih hmoves hactive next
    | print line => exact ih hmoves hactive next
    | setText g text => exact ih hmoves hactive next
    | rename g filename => exact ih hmoves hactive next

/-! ## The snapshots of a file -/

theorem gives_infosOf_indices {v : View φ} {options : InfoOptions} {info : Nat → Info φ}
    (h : ∀ index : Nat, index < v.sink.size →
      Gives v (info? index options) (some (info index))) (file : Option φ) :
    Gives v (infosOf file options) ((v.sink.indicesOf file).map info) := by
  have hfound : (v.sink.indicesOf file).map info = (List.range v.sink.size).filterMap
      fun (index : Nat) => if v.sink.fileAt? index = file then some (info index) else none := by
    unfold Sink.indicesOf
    rw [← List.filterMap_eq_map, List.filterMap_filter]
    simp only [decide_eq_true_eq, Function.comp_apply]
  rw [hfound]
  exact gives_infosOf h file

/-- Of the indices of a file a given one is found once, if it belongs to the file, else never. -/
theorem Sink.filter_indicesOf {sink : Sink φ} {index : Nat} (h : index < sink.size)
    (file : Option φ) : (sink.indicesOf file).filter (fun i => i = index)
      = if file = sink.fileAt? index then [index] else [] := by
  have hcount : (List.range sink.size).count index = 1 :=
    List.count_eq_one_of_mem List.nodup_range (List.mem_range.2 h)
  unfold Sink.indicesOf
  by_cases hfile : file = sink.fileAt? index
  · have hmine : decide (sink.fileAt? index = file) = true := by simp [hfile]
    have hcount' : ((List.range sink.size).filter
        fun (i : Nat) => sink.fileAt? i = file).count index = 1 := by
      rw [List.count_filter (p := fun (i : Nat) => decide (sink.fileAt? i = file)) hmine, hcount]
    rw [if_pos hfile, List.filter_eq, hcount', List.replicate_one]
  · rw [if_neg hfile, List.filter_eq_nil_iff]
    intro i hi heq
    have hother := of_decide_eq_true (List.mem_filter.1 hi).2
    obtain rfl := of_decide_eq_true heq
    exact hfile hother.symm

section Snapshots

variable {sink : Sink φ} {info : Nat → Info φ}

theorem Sink.lt_size_of_mem {file : Option φ} {index : Nat} (h : index ∈ sink.indicesOf file) :
    index < sink.size :=
  List.mem_range.1 (List.mem_filter.1 h).1

theorem filter_snapshots_index (hindex : ∀ index < sink.size, (info index).index = index)
    {index : Nat} (h : index < sink.size) (file : Option φ) :
    ((sink.indicesOf file).map info).filter (fun found => found.index = (index : Int))
      = if file = sink.fileAt? index then [info index] else [] := by
  have hsame : ∀ i ∈ sink.indicesOf file,
      decide ((info i).index = (index : Int)) = decide (i = index) := by
    intro i hi
    rw [hindex i (Sink.lt_size_of_mem hi)]
    exact decide_eq_decide.2 Int.ofNat_inj
  rw [List.filter_map]
  refine (congrArg (List.map info) (List.filter_congr hsame)).trans ?_
  rw [Sink.filter_indicesOf h]
  split <;> rfl

theorem snapshots_eq_filter (hfile : ∀ index < sink.size, (info index).file = sink.fileAt? index)
    (file : Option φ) : (sink.indicesOf file).map info
      = ((List.range sink.size).map info).filter fun found => found.file = file := by
  have hsame : ∀ i ∈ List.range sink.size,
      decide (sink.fileAt? i = file) = decide ((info i).file = file) := by
    intro i hi
    rw [hfile i (List.mem_range.1 hi)]
  rw [List.filter_map]
  exact congrArg (List.map info) (List.filter_congr hsame)

theorem pairwise_snapshots (hindex : ∀ index < sink.size, (info index).index = index)
    (file : Option φ) :
    ((sink.indicesOf file).map info).Pairwise fun a b => a.index < b.index := by
  have hascending : (sink.indicesOf file).Pairwise fun a b => a < b :=
    List.pairwise_lt_range.filter _
  rw [List.pairwise_map]
  refine hascending.imp_of_mem fun {a b} ha hb hab => ?_
  rw [hindex a (Sink.lt_size_of_mem ha), hindex b (Sink.lt_size_of_mem hb)]
  exact Int.ofNat_lt.2 hab

end Snapshots

/-- In a run that leaves a log whose entries can be shown with the given options, each entry is
found under one file, which is the one that the log tells for it, and there once. The snapshots of a
file are in the order of reporting. They are those of the reports made while the file was the active
one, in one stretch of the run or in several; so there are none of a file that is not registered,
whatever other files it resembles. -/
theorem infosOf_partition (files : φ → SourceFile) {run : List (Step φ)} {moves : List (Move φ)}
    (hcourse : (recording files).Course run moves) {options : InfoOptions}
    (hrender : ∀ index : Nat, index < (afterRun run (recording files)).sink.size →
      ∃ found, outcomeOf (info? index options) (afterRun run (recording files)) = .ok found) :
    let s := afterRun run (recording files)
    ∃ (infos : List (Info φ)) (perFile : Option φ → List (Info φ)),
      outcomeOf (Session.infos options) s = .ok infos ∧
      (∀ file, outcomeOf (infosOf file options) s = .ok (perFile file)) ∧
      infos.length = s.sink.size ∧
      (∀ index : Nat, index < s.sink.size → ∃ info file, infos[index]? = some info ∧
        outcomeOf (Query.file index).run s = .ok (.file file) ∧
        ∀ g, (perFile g).filter (fun found => found.index = (index : Int))
          = if g = file then [info] else []) ∧
      (∀ file, perFile file = infos.filter fun found => found.file = file) ∧
      (∀ file, (perFile file).Pairwise fun a b => a.index < b.index) ∧
      (∀ file, (perFile file).map Info.index = (indicesUnder file none 0 moves).map Int.ofNat) ∧
      ∀ f, .register (some f) ∉ moves → perFile (some f) = [] := by
  intro s
  have hinfo : ∀ index : Nat, index < s.sink.size → ∃ info,
      s.view.info? index options = .ok (some info) ∧ info.index = index ∧
        info.file = s.sink.fileAt? index := by
    intro index hindex
    obtain ⟨found, hfound⟩ := hrender index hindex
    rw [(yields_info? index options).outcomeOf_eq] at hfound
    exact View.exists_info hindex hfound
  -- Past the log there are no snapshots, but to choose one there must be one of something.
  have : Nonempty (Info φ) := ⟨⟨0, 0, "", none, false, none, none, none, none, none⟩⟩
  choose! info hinfo hindex hfile using hinfo
  have hgives : ∀ index : Nat, index < s.sink.size →
      Gives s.view (info? index options) (some (info index)) :=
    fun index h => .of_yields (yields_info? index options) (hinfo index h)
  have hindices (file : Option φ) : s.sink.indicesOf file = indicesUnder file none 0 moves := by
    have hmoves : s = (recording files).afterMoves moves := hcourse.reaches.eq_afterMoves
    have hstart : (recording files).sink = .recording .empty := rfl
    rw [hmoves, indicesOf_afterMoves hstart]
    rfl
  refine ⟨(List.range s.sink.size).map info, fun file => (s.sink.indicesOf file).map info,
    ?_, fun file => ?_, ?_, fun index hlt => ⟨info index, s.sink.fileAt? index, ?_, ?_, fun file =>
      filter_snapshots_index hindex hlt file⟩, snapshots_eq_filter hfile,
    pairwise_snapshots hindex, fun file => ?_, fun f hf => ?_⟩
  · rw [← List.filterMap_eq_map]
    exact (gives_infos hgives).outcomeOf_eq rfl
  · exact (gives_infosOf_indices hgives file).outcomeOf_eq rfl
  · rw [List.length_map, List.length_range]
  · rw [List.getElem?_map, List.getElem?_range hlt, Option.map_some]
  · exact outcomeOf_of_ok (bind_of_ok (fileAt?_eq s index))
  · rw [List.map_map, ← hindices]
    exact List.map_congr_left fun i hi => hindex i (Sink.lt_size_of_mem hi)
  · have hnone : indicesUnder (some f) none 0 moves = [] :=
      indicesUnder_of_not_registered hf (Option.some_ne_none f).symm 0
    exact List.map_eq_nil_iff.2 ((hindices (some f)).trans hnone)

/-- A report without a file, a file with reports in two stretches and another in between, and a
report after a registration of no file. -/
def alternatingRun : List (Step Nat) :=
  [.report none ⟨1000, "Constant expected.", "error"⟩ [],
   .register (some 0),
   .report (some 2) ⟨1009, "Obsolete.", "warning"⟩ [],
   .register (some 0),
   .register (some 1),
   .report (some 2) ⟨1009, "Obsolete.", "warning"⟩ [],
   .register (some 0),
   .reportNode (some ⟨.identifier, 0, 1⟩) ⟨2000, "Cannot find name.", "error"⟩ [],
   .register none,
   .report (some 2) ⟨1009, "Obsolete.", "warning"⟩ []]

theorem infosOf_partition_alternating :
    let files : Nat → SourceFile := fun _ => { filename := "a", text := some "b\nc" }
    let s := afterRun alternatingRun (recording files)
    ∃ moves, (recording files).Course alternatingRun moves ∧
      (∀ index : Nat, index < s.sink.size →
        ∃ found, outcomeOf (info? index {}) s = .ok found) ∧
      .register (some 2) ∉ moves ∧
      ∃ perFile : Option Nat → List (Info Nat),
        (∀ file, outcomeOf (infosOf file {}) s = .ok (perFile file)) ∧
        (perFile (some 0)).map Info.index = [1, 3] ∧ (perFile (some 1)).map Info.index = [2] ∧
        perFile (some 2) = [] ∧ (perFile none).map Info.index = [0, 4] := by
  intro files s
  let moves : List (Move Nat) := alternatingRun.filterMap Step.move?
  have hcourse : (recording files).Course alternatingRun moves := course_of_moves rfl _
  have hrender : ∀ index : Nat, index < s.sink.size →
      ∃ found, outcomeOf (info? index {}) s = .ok found := by
    intro index hindex
    obtain ⟨info, hinfo⟩ := exists_info? hindex
    exact ⟨some info, hinfo⟩
  have hunregistered : .register (some 2) ∉ moves := by
    simp [moves, alternatingRun, Step.move?]
  obtain ⟨_, perFile, _, hperFile, _, _, _, _, hindices, hnone⟩ :=
    infosOf_partition files hcourse hrender
  exact ⟨moves, hcourse, hrender, hunregistered, perFile, hperFile, hindices (some 0),
    hindices (some 1), hnone 2 hunregistered, hindices none⟩

end GrammarDiagnostics
