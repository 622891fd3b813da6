import GrammarDiagnostics.Proofs.Session.LineMaps
import GrammarDiagnostics.Proofs.Session.Reentrancy

/-! # The moments of a run

The moments of a run are the sessions before, between and after its steps, those of its callbacks
included. They all lie between the moves of the run.

* `Session.Passes`: a session that there is after the first of some moves.
* `GoesBy`: work that goes by allowed moves and passes certain sessions; `GoesBy.bind`,
  `GoesBy.mapM`, `GoesBy.filterMapM`: such work put together; `GoesBy.dispatch`: work that the two
  sinks do each in its own way.
* `Step.Inner`, `Step.Moments`: the moments inside a step, and those of a series of steps;
  `Step.goesBy`, `Step.goesByAll`: the moves of a step, and of a series, pass them.
* `Session.Moment`: the moments of a run; `Session.exists_trace`: one course of the run passes all
  of them.
-/

set_option autoImplicit false

namespace GrammarDiagnostics

open Session

variable {φ α β : Type} [DecidableEq φ]

/-! ## Sessions between moves -/

def Session.Passes (s : Session φ) (moves : List (Move φ)) (t : Session φ) : Prop :=
  ∃ earlier later, moves = earlier ++ later ∧ t = s.afterMoves earlier

namespace Session.Passes

variable {s t : Session φ} {moves moves' : List (Move φ)}

theorem first (s : Session φ) (moves : List (Move φ)) : s.Passes moves s := ⟨[], moves, rfl, rfl⟩

theorem last (s : Session φ) (moves : List (Move φ)) : s.Passes moves (s.afterMoves moves) :=
  ⟨moves, [], (List.append_nil moves).symm, rfl⟩

theorem append_right (h : s.Passes moves t) : s.Passes (moves ++ moves') t := by
  obtain ⟨earlier, later, rfl, rfl⟩ := h
  exact ⟨earlier, later ++ moves', List.append_assoc _ _ _, rfl⟩

theorem append_left (h : (s.afterMoves moves).Passes moves' t) : s.Passes (moves ++ moves') t := by
  obtain ⟨earlier, later, rfl, rfl⟩ := h
  refine ⟨moves ++ earlier, later, (List.append_assoc _ _ _).symm, ?_⟩
  exact List.foldl_append.symm

end Session.Passes

theorem Session.Reaches.of_append {allowed : Session φ → Move φ → Prop} {s t : Session φ}
    {earlier later : List (Move φ)} (h : Reaches allowed s (earlier ++ later) t) :
    Reaches allowed s earlier (s.afterMoves earlier) ∧
      Reaches allowed (s.afterMoves earlier) later t := by
  induction earlier generalizing s with
  | nil => exact ⟨.refl s, h⟩
  | cons m earlier ih =>
    cases h with
    | next hm rest =>
      obtain ⟨hearlier, hlater⟩ := ih rest
      exact ⟨.next hm hearlier, hlater⟩

/-! ## Work that passes sessions -/

/-- The work goes by allowed moves, and the sessions with the property lie between them. -/
def GoesBy (allowed : Session φ → Move φ → Prop) (P : Session φ → Prop) (work : Work φ α)
    (s : Session φ) : Prop :=
  ∃ moves, Reaches allowed s moves (stateAfter work s) ∧ ∀ t, P t → s.Passes moves t

/-- The sessions that are passed by doing work for one item of a list after the other, up to the
first fault. -/
def Loop (work : α → Work φ β) (P : α → Session φ → Session φ → Prop) :
    List α → Session φ → Session φ → Prop
  | [], _, _ => False
  | a :: l, s, t => P a s t ∨ ∃ b s', work a s = .ok b s' ∧ Loop work P l s' t

namespace GoesBy

variable {allowed allowed' : Session φ → Move φ → Prop} {P Q : Session φ → Prop} {s : Session φ}
  {x : Work φ α} {k : α → Work φ β}

theorem of_goes (h : Goes allowed x s) : GoesBy allowed (fun _ => False) x s := by
  obtain ⟨moves, hmoves⟩ := h
  exact ⟨moves, hmoves, fun t ht => ht.elim⟩

theorem mono (h : GoesBy allowed P x s) (hallowed : ∀ s m, allowed s m → allowed' s m)
    (hQ : ∀ t, Q t → P t) : GoesBy allowed' Q x s := by
  obtain ⟨moves, hmoves, hpasses⟩ := h
  exact ⟨moves, hmoves.mono hallowed, fun t ht => hpasses t (hQ t ht)⟩

/-- The sessions before and after the work are passed anyway. -/
theorem ends (h : GoesBy allowed P x s) :
    GoesBy allowed (fun t => t = s ∨ P t ∨ t = stateAfter x s) x s := by
  obtain ⟨moves, hmoves, hpasses⟩ := h
  refine ⟨moves, hmoves, ?_⟩
  rintro t (rfl | ht | rfl)
  · exact .first _ moves
  · exact hpasses t ht
  · rw [hmoves.eq_afterMoves]
    exact .last s moves

theorem bind {Q : α → Session φ → Session φ → Prop} (hx : GoesBy allowed P x s)
    (hk : ∀ a s', x s = .ok a s' → GoesBy allowed (Q a s') (k a) s') :
    GoesBy allowed (fun t => P t ∨ ∃ a s', x s = .ok a s' ∧ Q a s' t) (x >>= k) s := by
  obtain ⟨moves, hmoves, hpasses⟩ := hx
  cases h : x s with
  | error fault s' =>
    rw [stateAfter_of_error h] at hmoves
    refine ⟨moves, ?_, ?_⟩
    · rwa [stateAfter_bind_of_error h]
    · rintro t (ht | ⟨_, _, hok, _⟩)
      · exact hpasses t ht
      · exact nomatch hok
  | ok a s' =>
    rw [stateAfter_of_ok h] at hmoves
    obtain ⟨moves', hmoves', hpasses'⟩ := hk a s' h
    refine ⟨moves ++ moves', ?_, ?_⟩
    · rw [stateAfter_bind_of_ok h]
      exact hmoves.trans hmoves'
    · rintro t (ht | ⟨_, _, hok, ht⟩)
      · exact (hpasses t ht).append_right
      · cases hok
        have ht := hpasses' t ht
        rw [hmoves.eq_afterMoves] at ht
        exact ht.append_left

theorem bind_pure (h : GoesBy allowed P x s) (f : α → β) :
    GoesBy allowed P (x >>= fun a => pure (f a)) s := by
  obtain ⟨moves, hmoves, hpasses⟩ := h
  exact ⟨moves, by rwa [stateAfter_bind_pure], hpasses⟩

theorem dispatch {recording : Log φ → Work φ α} {discarding : Work φ α}
    (hrecording : ∀ log, s.sink = .recording log → GoesBy allowed P (recording log) s)
    (hdiscarding : s.sink = .discarding → GoesBy allowed P discarding s) :
    GoesBy allowed P (Session.dispatch recording discarding) s := by
  cases hs : s.sink with
  | recording log =>
    obtain ⟨moves, hmoves, hpasses⟩ := hrecording log hs
    exact ⟨moves, by rwa [stateAfter_congr (dispatch_of_recording hs)], hpasses⟩
  | discarding =>
    obtain ⟨moves, hmoves, hpasses⟩ := hdiscarding hs
    exact ⟨moves, by rwa [stateAfter_congr (dispatch_of_discarding hs)], hpasses⟩

theorem mapM {f : α → Work φ β} {P : α → Session φ → Session φ → Prop}
    (h : ∀ a s, GoesBy allowed (P a s) (f a) s) (l : List α) :
    GoesBy allowed (Loop f P l s) (l.mapM f) s := by
  induction l generalizing s with
  | nil => exact of_goes (Goes.pure [])
  | cons a l ih =>
    rw [List.mapM_cons]
    exact (h a s).bind fun b s' _ => ih.bind_pure fun bs => b :: bs

theorem filterMapM {f : α → Work φ (Option β)} {P : α → Session φ → Session φ → Prop}
    (h : ∀ a s, GoesBy allowed (P a s) (f a) s) (l : List α) :
    GoesBy allowed (Loop f P l s) (l.filterMapM f) s := by
  induction l generalizing s with
  | nil => exact of_goes (Goes.pure [])
  | cons a l ih =>
    rw [List.filterMapM_cons]
    refine (h a s).bind fun b s' _ => ?_
    cases b with
    | none => exact ih
    | some b => exact ih.bind_pure fun bs => b :: bs

end GoesBy

/-! ## The moments of steps -/

mutual

/-- The moments inside a step: those of the series of steps that its callbacks do. -/
def Step.Inner : Step φ → Session φ → Session φ → Prop
  | .forEach each, s, t =>
    Loop (fun (index : Nat) => do
        noting each (← message index true) index)
      (fun index s t => ∃ text s', message index true s = .ok text s' ∧
        Step.Moments (each text index) s' t)
      (List.range s.sink.size) s t
  | .iterate before each, s, t =>
    Step.Moments before s t ∨ ∃ answers s', Step.runAll before s = .ok answers s' ∧
      Loop (fun (index : Nat) => do
          let some info ← info? index {} | return none
          doing each info
          return some info)
        (fun index s t => ∃ info s', info? index {} s = .ok (some info) s' ∧
          Step.Moments (each info) s' t)
        (List.range s'.sink.size) s' t
  | _, _, _ => False

/-- The moments of a series of steps, which ends with the first fault. -/
def Step.Moments : List (Step φ) → Session φ → Session φ → Prop
  | [], s, t => t = s
  | step :: steps, s, t => (t = s ∨ step.Inner s t ∨ t = stateAfter step.run s) ∨
    ∃ answer s', step.run s = .ok answer s' ∧ Step.Moments steps s' t

end

section Loops

variable {allowed : Session φ → Move φ → Prop}

theorem goesBy_forEach {callback : String → Nat → Work φ α}
    {P : String → Nat → Session φ → Session φ → Prop}
    (hread : ∀ s m, Reading (fun sink f => ∃ index, sink.Locates index f) s m → allowed s m)
    (hcallback : ∀ text index s, GoesBy allowed (P text index s) (callback text index) s)
    (s : Session φ) :
    GoesBy allowed
      (Loop (fun (index : Nat) => do callback (← message index true) index)
        (fun index s t => ∃ text s', message index true s = .ok text s' ∧ P text index s' t)
        (List.range s.sink.size) s)
      (forEach callback) s := by
  refine GoesBy.dispatch (fun log hlog => ?_) fun hnone => ?_
  · rw [hlog]
    refine GoesBy.mapM (fun index s' => ?_) _
    have hmessage : Goes allowed (message index true) s' :=
      (goes_message s' index true).mono fun t m hm => hread t m (hm.mono fun _ hf => ⟨index, hf.2⟩)
    have hcall := (GoesBy.of_goes hmessage).bind fun text s'' _ => hcallback text index s''
    exact hcall.mono (fun _ _ hm => hm) fun t ht => .inr ht
  · rw [hnone]
    exact .of_goes (Goes.pure [])

theorem goesBy_iterate {before : Work φ Unit} {each : Info φ → Work φ Unit} {Q : Session φ → Prop}
    {P : Info φ → Session φ → Session φ → Prop} {s : Session φ}
    (hread : ∀ s m, Reading (fun sink f => ∃ index, sink.Attributes index f) s m → allowed s m)
    (hbefore : GoesBy allowed Q before s)
    (heach : ∀ info s, GoesBy allowed (P info s) (each info) s) :
    GoesBy allowed
      (fun t => Q t ∨ ∃ a s', before s = .ok a s' ∧
        Loop (fun (index : Nat) => do
            let some info ← info? index {} | return none
            each info
            return some info)
          (fun index s t => ∃ info s', info? index {} s = .ok (some info) s' ∧ P info s' t)
          (List.range s'.sink.size) s' t)
      (iterate before each) s := by
  refine hbefore.bind fun _ s' _ => GoesBy.dispatch (fun log hlog => ?_) fun hnone => ?_
  · rw [hlog]
    refine GoesBy.filterMapM (fun index u => ?_) _
    have hinfo : Goes allowed (info? index {}) u :=
      (goes_info? u index {}).mono fun t m hm => hread t m (hm.mono fun _ hf => ⟨index, hf⟩)
    refine (GoesBy.bind (Q := fun found s t => ∃ info, found = some info ∧ P info s t)
      (.of_goes hinfo) fun found s'' _ => ?_).mono (fun _ _ hm => hm) ?_
    · cases found with
      | none =>
        refine (GoesBy.of_goes (Goes.pure none)).mono (fun _ _ hm => hm) ?_
        rintro t ⟨info, hfound, _⟩
        exact nomatch hfound
      | some info =>
        refine ((heach info s'').bind_pure _).mono (fun _ _ hm => hm) ?_
        rintro t ⟨_, hsame, ht⟩
        obtain rfl := Option.some.inj hsame
        exact ht
    · rintro t ⟨info, s'', hok, ht⟩
      exact .inr ⟨_, s'', hok, info, rfl, ht⟩
  · rw [hnone]
    exact .of_goes (Goes.pure [])

end Loops

theorem GoesBy.made_mono {parts parts' : Set (Step φ)} {P : Session φ → Prop} {x : Work φ α}
    {s : Session φ} (h : GoesBy (Made parts) P x s) (hparts : parts ⊆ parts') :
    GoesBy (Made parts') P x s :=
  h.mono (fun _ _ hm => hm.mono hparts) fun _ ht => ht

mutual

-- The recursion is that of `Step.run`.
theorem Step.goesBy (step : Step φ) (s : Session φ) :
    GoesBy (Made step.parts) (step.Inner s) step.run s := by
  cases step with
  | forEach each =>
    have hcall (text : String) (index : Nat) (s' : Session φ) :=
      ((Step.goesByAll (each text index) s').made_mono
        (Step.partsAll_subset_forEach each text index)).bind_pure fun _ => (text, index)
    refine (goesBy_forEach ?_ hcall s).bind_pure _
    exact fun t m hm => hm.made fun f hf => ⟨_, .inl rfl, hf⟩
  | iterate before each =>
    have hbefore := ((Step.goesByAll before s).made_mono
      (Step.partsAll_subset_before before each)).bind_pure fun _ => ()
    have heach (info : Info φ) (s' : Session φ) := ((Step.goesByAll (each info) s').made_mono
      (Step.partsAll_subset_each before each info)).bind_pure fun _ => ()
    have hiterate := goesBy_iterate ?_ hbefore heach
    · refine (hiterate.bind_pure _).mono (fun _ _ hm => hm) ?_
      rintro t (ht | ⟨answers, s', hok, ht⟩)
      · exact .inl ht
      · exact .inr ⟨(), s', bind_of_ok hok, ht⟩
    · exact fun t m hm => hm.made fun f hf => ⟨_, .inl rfl, hf⟩
  | ask q => exact .of_goes (Step.goes _ s)
  | register file => exact .of_goes (Step.goes _ s)
  | report pos d args => exact .of_goes (Step.goes _ s)
  | reportNode node d args => exact .of_goes (Step.goes _ s)
  | setText f text => exact .of_goes (Step.goes _ s)
  | rename f filename => exact .of_goes (Step.goes _ s)

theorem Step.goesByAll (steps : List (Step φ)) (s : Session φ) :
    GoesBy (Made (Step.partsAll steps)) (Step.Moments steps s) (Step.runAll steps) s := by
  cases steps with
  | nil => exact (GoesBy.of_goes (Goes.pure [])).ends.mono (fun _ _ hm => hm) fun _ ht => .inl ht
  | cons step steps =>
    have hstep := (Step.goesBy step s).ends.made_mono
      (Set.subset_union_left (t := Step.partsAll steps))
    refine hstep.bind fun answer s' _ => ?_
    have hsteps := (Step.goesByAll steps s').made_mono (Set.subset_union_right (s := step.parts))
    exact hsteps.bind_pure _

end

/-! ## The moments of a run -/

/-- The moments of a run, which goes on after a fault. -/
def Session.Moment : List (Step φ) → Session φ → Session φ → Prop
  | [], s, t => t = s
  | step :: run, s, t => t = s ∨ step.Inner s t ∨ Session.Moment run (stateAfter step.run s) t

theorem Session.exists_trace (run : List (Step φ)) (s : Session φ) :
    ∃ moves, s.Course run moves ∧ ∀ t, Session.Moment run s t → s.Passes moves t := by
  induction run generalizing s with
  | nil =>
    refine ⟨[], .nil s, ?_⟩
    rintro t rfl
    exact .first _ []
  | cons step run ih =>
    obtain ⟨moves, hmoves, hinner⟩ := Step.goesBy step s
    obtain ⟨moves', hcourse, hlater⟩ := ih (stateAfter step.run s)
    refine ⟨moves ++ moves', .cons hmoves hcourse, ?_⟩
    rintro t (rfl | ht | ht)
    · exact .first _ _
    · exact (hinner t ht).append_right
    · have ht := hlater t ht
      rw [hmoves.eq_afterMoves] at ht
      exact ht.append_left

end GrammarDiagnostics
