import GrammarDiagnostics.Proofs.Session.View
import GrammarDiagnostics.Session.Step

/-! # Moves of a session

A session is changed by moves: the line map of a file is read, records are noted, a line is printed,
an addition is made to the log, or a file is changed.

* `stateAfter`: the session that work leaves, whether or not it ends in a fault.
* `Session.outcomes`, `Session.afterRun`: what the steps of a run end in, one after the other, and
  the session that the run leaves.
* `Move`, `Move.after`: a move, and the session after it.
* `Session.Reaches`: from one session to another by moves that are allowed at their moment;
  `Session.Reaches.keeps`: what every move keeps, they keep.
* `Goes`: work that changes the session by allowed moves only; `Goes.pure`, `Goes.bind`,
  `Goes.mapM`, `Goes.filterMapM`: such work put together; `Goes.dispatch`: work that the two sinks
  do each in its own way.
-/

set_option autoImplicit false

namespace GrammarDiagnostics

variable {φ α β : Type}

/-! ## The session that work leaves -/

/-- The session that work leaves, whether or not it ends in a fault. -/
def stateAfter {σ : Type} (work : EStateM Fault σ α) (state : σ) : σ :=
  match work state with
  | .ok _ state' => state'
  | .error _ state' => state'

section StateAfter

variable {σ : Type} {x : EStateM Fault σ α} {k : α → EStateM Fault σ β} {a : α} {fault : Fault}
  {s s' : σ}

theorem stateAfter_of_ok (h : x s = .ok a s') : stateAfter x s = s' := by
  unfold stateAfter
  rw [h]

theorem stateAfter_of_error (h : x s = .error fault s') : stateAfter x s = s' := by
  unfold stateAfter
  rw [h]

theorem stateAfter_congr {x y : EStateM Fault σ α} (h : x s = y s) :
    stateAfter x s = stateAfter y s := by
  unfold stateAfter
  rw [h]

theorem stateAfter_bind_of_ok (h : x s = .ok a s') :
    stateAfter (x >>= k) s = stateAfter (k a) s' := by
  change (match EStateM.bind x k s with | .ok _ s' => s' | .error _ s' => s') = _
  unfold EStateM.bind
  rw [h]
  rfl

theorem stateAfter_bind_of_error (h : x s = .error fault s') : stateAfter (x >>= k) s = s' := by
  change (match EStateM.bind x k s with | .ok _ s' => s' | .error _ s' => s') = _
  unfold EStateM.bind
  rw [h]

theorem stateAfter_bind_cases {P : σ → Prop} (hx : P (stateAfter x s))
    (hk : ∀ a s', P s' → P (stateAfter (k a) s')) : P (stateAfter (x >>= k) s) := by
  cases h : x s with
  | error fault s' =>
    rw [stateAfter_bind_of_error h]
    rwa [stateAfter_of_error h] at hx
  | ok a s' =>
    rw [stateAfter_bind_of_ok h]
    rw [stateAfter_of_ok h] at hx
    exact hk a s' hx

theorem stateAfter_bind_pure (f : α → β) (x : EStateM Fault σ α) (s : σ) :
    stateAfter (x >>= fun a => pure (f a)) s = stateAfter x s := by
  cases h : x s with
  | error fault s' => rw [stateAfter_bind_of_error h, stateAfter_of_error h]
  | ok a s' => rw [stateAfter_bind_of_ok h, stateAfter_of_ok h]; rfl

end StateAfter

theorem Yields.read {work : Work φ α} {outcome : View φ → Except Fault α} (h : Yields work outcome)
    (s : Session φ) : Session.Read s (stateAfter work s) := by
  obtain ⟨s', hread, hwork⟩ := h s
  cases houtcome : outcome s.view with
  | ok a =>
    rw [houtcome] at hwork
    rwa [stateAfter_of_ok hwork]
  | error fault =>
    rw [houtcome] at hwork
    rwa [stateAfter_of_error hwork]

/-! ## Runs -/

section Runs

variable [DecidableEq φ]

namespace Session

/-- The session after a run. Each step is a series of its own, so that the run goes on after one
that is a fault. -/
def afterRun (run : List (Step φ)) (s : Session φ) : Session φ :=
  (perform (run.map fun step => [step]) s).2

/-- What the steps of a run end in. -/
def outcomes (run : List (Step φ)) (s : Session φ) : List (Outcome φ) :=
  (perform (run.map fun step => [step]) s).1.map Prod.fst

theorem attempt_singleton (step : Step φ) (s : Session φ) :
    attempt [step] s
      = ((fun answer => [answer]) <$> outcomeOf step.run s, stateAfter step.run s) := by
  unfold attempt outcomeOf stateAfter
  rw [Step.runAll]
  cases h : step.run s with
  | ok answer s' => rw [bind_of_ok h]; rfl
  | error fault s' => rw [bind_of_error h]; rfl

@[simp] theorem afterRun_cons (step : Step φ) (run : List (Step φ)) (s : Session φ) :
    afterRun (step :: run) s = afterRun run (stateAfter step.run s) := by
  simp only [afterRun, List.map_cons, perform, attempt_singleton]

@[simp] theorem outcomes_cons (step : Step φ) (run : List (Step φ)) (s : Session φ) :
    outcomes (step :: run) s = ((fun answer => [answer]) <$> outcomeOf step.run s)
      :: outcomes run (stateAfter step.run s) := by
  simp only [outcomes, List.map_cons, perform, attempt_singleton]

end Session

end Runs

/-! ## Moves -/

/-- One thing done to a session. -/
inductive Move (φ : Type) where
  | read (f : φ)
  | note (records : List Record)
  | print (line : String)
  | register (file : Option φ)
  | report (e : Entry φ)
  | setText (f : φ) (text : Option String)
  | rename (f : φ) (filename : String)

section Moves

variable [DecidableEq φ]

/-- The session after a move. -/
def Move.after (s : Session φ) : Move φ → Session φ
  | .read f => stateAfter (Session.table f) s
  | .note records => stateAfter (Session.note records) s
  | .print line => stateAfter (Session.print line) s
  | .register file => stateAfter (Session.register file) s
  | .report e => stateAfter (Session.report e) s
  | .setText f text => stateAfter (Session.setText f text) s
  | .rename f filename => stateAfter (Session.rename f filename) s

/-- From one session to another by moves that are allowed at their moment. -/
inductive Session.Reaches (allowed : Session φ → Move φ → Prop) :
    Session φ → List (Move φ) → Session φ → Prop where
  | refl (s : Session φ) : Reaches allowed s [] s
  | next {s : Session φ} {m : Move φ} {moves : List (Move φ)} {t : Session φ} (h : allowed s m)
      (rest : Reaches allowed (m.after s) moves t) : Reaches allowed s (m :: moves) t

namespace Session.Reaches

variable {allowed allowed' : Session φ → Move φ → Prop} {s t u : Session φ}
  {moves moves' : List (Move φ)} {m : Move φ}

theorem single (h : allowed s m) : Reaches allowed s [m] (m.after s) := .next h (.refl _)

theorem trans (h : Reaches allowed s moves t) (h' : Reaches allowed t moves' u) :
    Reaches allowed s (moves ++ moves') u := by
  induction h with
  | refl s => exact h'
  | next hm _ ih => exact .next hm (ih h')

theorem mono (h : Reaches allowed s moves t) (himp : ∀ s m, allowed s m → allowed' s m) :
    Reaches allowed' s moves t := by
  induction h with
  | refl s => exact .refl s
  | next hm _ ih => exact .next (himp _ _ hm) ih

/-- What every allowed move keeps is kept from the first session to the last. -/
theorem keeps {R : Session φ → Session φ → Prop} (hrefl : ∀ s, R s s)
    (htrans : ∀ {s t u}, R s t → R t u → R s u)
    (hmove : ∀ s m, allowed s m → R s (m.after s)) (h : Reaches allowed s moves t) : R s t := by
  induction h with
  | refl s => exact hrefl s
  | next hm _ ih => exact htrans (hmove _ _ hm) ih

theorem and_invariant {P : Session φ → Prop} (h : Reaches allowed s moves t) (hs : P s)
    (hmove : ∀ s m, P s → allowed s m → P (m.after s)) :
    Reaches (fun s m => P s ∧ allowed s m) s moves t := by
  induction h with
  | refl s => exact .refl s
  | next hm _ ih => exact .next ⟨hs, hm⟩ (ih (hmove _ _ hs hm))

end Session.Reaches

/-! ### What each move changes -/

theorem SourceFile.read_of_records {f : SourceFile} (h : f.records.isEmpty) : f.read = f := by
  obtain ⟨filename, text, kept⟩ := f
  cases kept with
  | none =>
    cases text with
    | none => rfl
    | some text => simp [records, lineMap, LineMap.records, LineMap.ofText] at h
  | some m =>
    cases m with
    | pending text => simp [records, lineMap, LineMap.records] at h
    | computed table => rfl

theorem Move.files_read (f : φ) (s : Session φ) (g : φ) :
    ((Move.read f).after s).files g = if g = f then (s.files f).read else s.files g := by
  have h : (Move.read f).after s = _ := stateAfter_of_ok (Session.table_eq f s)
  rw [h]
  by_cases hrecords : (s.files f).records.isEmpty
  · rw [if_pos hrecords, SourceFile.read_of_records hrecords]
    by_cases hg : g = f
    · rw [if_pos hg, hg]
    · rw [if_neg hg]
  · rw [if_neg hrecords]

@[simp] theorem Move.sink_read (f : φ) (s : Session φ) : ((Move.read f).after s).sink = s.sink :=
  ((yields_table f).read s).sink

theorem Move.files_register (file : Option φ) (s : Session φ) :
    ((Move.register file).after s).files = s.files := by
  obtain ⟨files, sink, journal, printed⟩ := s
  cases sink with
  | discarding => rfl
  | recording log => cases file <;> rfl

theorem Move.files_report (e : Entry φ) (s : Session φ) :
    ((Move.report e).after s).files = s.files := by
  obtain ⟨files, sink, journal, printed⟩ := s
  cases sink <;> rfl

theorem Move.printed_read (f : φ) (s : Session φ) :
    ((Move.read f).after s).printed = s.printed := by
  have h : (Move.read f).after s = _ := stateAfter_of_ok (Session.table_eq f s)
  rw [h]
  split <;> rfl

theorem Move.after_note (records : List Record) (s : Session φ) :
    (Move.note records).after s = { s with journal := s.journal ++ records } := rfl

theorem stateAfter_noted (work : Noted α) (s : Session φ) :
    stateAfter (Session.noted work : Work φ α) s
      = (Move.note (stateAfter work #[]).toList).after s := by
  have happend (records : Journal) : s.journal ++ records.toList = s.journal ++ records :=
    Array.toList_inj.1 (by rw [Array.toList_append, Array.toList_appendList])
  rw [Move.after_note, happend]
  unfold Session.noted stateAfter
  cases work #[] <;> rfl

/-! ## Work that goes by moves -/

/-- What the work does to the session, it does by allowed moves. -/
def Goes (allowed : Session φ → Move φ → Prop) (work : Work φ α) (s : Session φ) : Prop :=
  ∃ moves, Session.Reaches allowed s moves (stateAfter work s)

namespace Goes

variable {allowed allowed' : Session φ → Move φ → Prop} {s : Session φ} {x : Work φ α}
  {k : α → Work φ β}

theorem pure (a : α) : Goes allowed (Pure.pure a : Work φ α) s := ⟨[], .refl s⟩

theorem ofExcept (outcome : Except Fault α) :
    Goes allowed (MonadExcept.ofExcept outcome : Work φ α) s := by
  cases outcome <;> exact ⟨[], .refl s⟩

theorem mono (h : Goes allowed x s) (himp : ∀ s m, allowed s m → allowed' s m) :
    Goes allowed' x s :=
  h.imp fun _ hmoves => hmoves.mono himp

theorem bind (hx : Goes allowed x s) (hk : ∀ a s', x s = .ok a s' → Goes allowed (k a) s') :
    Goes allowed (x >>= k) s := by
  obtain ⟨moves, hmoves⟩ := hx
  cases h : x s with
  | error fault s' =>
    rw [stateAfter_of_error h] at hmoves
    refine ⟨moves, ?_⟩
    rwa [stateAfter_bind_of_error h]
  | ok a s' =>
    rw [stateAfter_of_ok h] at hmoves
    obtain ⟨moves', hmoves'⟩ := hk a s' h
    refine ⟨moves ++ moves', ?_⟩
    rw [stateAfter_bind_of_ok h]
    exact hmoves.trans hmoves'

theorem map (f : α → β) (h : Goes allowed x s) : Goes allowed (f <$> x) s := by
  rw [map_eq_pure_bind]
  exact h.bind fun a _ _ => Goes.pure (f a)

theorem dispatch {recording : Log φ → Work φ α} {discarding : Work φ α}
    (hrecording : ∀ log, s.sink = .recording log → Goes allowed (recording log) s)
    (hdiscarding : s.sink = .discarding → Goes allowed discarding s) :
    Goes allowed (Session.dispatch recording discarding) s := by
  cases hs : s.sink with
  | recording log =>
    obtain ⟨moves, hmoves⟩ := hrecording log hs
    exact ⟨moves, by rwa [stateAfter_congr (Session.dispatch_of_recording hs)]⟩
  | discarding =>
    obtain ⟨moves, hmoves⟩ := hdiscarding hs
    exact ⟨moves, by rwa [stateAfter_congr (Session.dispatch_of_discarding hs)]⟩

theorem bind_of_ok {a : α} (hx : x s = .ok a s) (hk : Goes allowed (k a) s) :
    Goes allowed (x >>= k) s := by
  obtain ⟨moves, hmoves⟩ := hk
  exact ⟨moves, by rwa [stateAfter_bind_of_ok hx]⟩

theorem mapM {f : α → Work φ β} (h : ∀ a s, Goes allowed (f a) s) (l : List α) :
    Goes allowed (l.mapM f) s := by
  induction l generalizing s with
  | nil => exact Goes.pure []
  | cons a l ih =>
    simp only [List.mapM_cons]
    exact (h a s).bind fun b _ _ => ih.bind fun bs _ _ => Goes.pure (b :: bs)

theorem filterMapM {f : α → Work φ (Option β)} (h : ∀ a s, Goes allowed (f a) s) (l : List α) :
    Goes allowed (l.filterMapM f) s := by
  induction l generalizing s with
  | nil => exact Goes.pure []
  | cons a l ih =>
    simp only [List.filterMapM_cons]
    refine (h a s).bind fun b _ _ => ?_
    cases b with
    | none => exact ih
    | some b => exact ih.bind fun bs _ _ => Goes.pure (b :: bs)

end Goes

end Moves

end GrammarDiagnostics
