import GrammarDiagnostics.Proofs.Session.Answers
import GrammarDiagnostics.Proofs.Session.Effects
import Mathlib.Data.List.Forall2

/-! # Questions that are not asked

A question has files keep their line tables, and it does so even when it ends in a fault. The
session after it and the session without it differ in what has been kept, but they show the same,
and what they show is all that later steps depend on, as long as no text is changed.

* `Tracks`: work that ends as other work does, from any two sessions that show the same.
  `Tracks.bind`, `Tracks.mapM`, `Tracks.filterMapM`: such work put together; `Tracks.dispatch`: work
  that the two sinks do each in its own way.
* `Step.tracks`: a step that changes no text tracks itself.
* `Step.IsQuery`: steps that only ask; `Step.Thins`: a step without some of the questions that its
  callbacks ask.
* `outcomes_leaveOut`: what the other steps of a run end in when questions are left out.
-/

set_option autoImplicit false

namespace GrammarDiagnostics

open Session

variable {φ α β γ δ : Type}

/-! ## Work that ends alike -/

/-- Where the first work gives a result, the second gives a related one from every session with the
same view, and leaves a session with the same view. Where the first ends in a fault, the second ends
in the same fault, if faults are to be tracked. -/
structure Tracks (faults : Prop) (R : α → β → Prop) (x : Work φ α) (y : Work φ β) : Prop where
  ok : ∀ {s t s' : Session φ} {a : α}, t.view = s.view → x s = .ok a s' →
    ∃ b t', y t = .ok b t' ∧ R a b ∧ t'.view = s'.view
  error : faults → ∀ {s t s' : Session φ} {fault : Fault}, t.view = s.view →
    x s = .error fault s' → ∃ t', y t = .error fault t' ∧ t'.view = s'.view

namespace Tracks

variable {faults : Prop} {R : α → β → Prop} {R' : γ → δ → Prop}

/-- Work with the same outcome from any two sessions with the same view. -/
theorem of_ending {x y : Work φ α} (h : ∀ s t : Session φ, t.view = s.view → ∃ outcome s' t',
    x s = ending outcome s' ∧ y t = ending outcome t' ∧ t'.view = s'.view) :
    Tracks faults Eq x y where
  ok := fun {s t _ _} hview hx => by
    obtain ⟨outcome, s', t', hx', hy, hview'⟩ := h s t hview
    cases outcome with
    | error fault => exact nomatch hx'.symm.trans hx
    | ok a =>
      obtain ⟨rfl, rfl⟩ := EStateM.Result.ok.inj (hx'.symm.trans hx)
      exact ⟨a, t', hy, rfl, hview'⟩
  error := fun _ {s t _ _} hview hx => by
    obtain ⟨outcome, s', t', hx', hy, hview'⟩ := h s t hview
    cases outcome with
    | ok a => exact nomatch hx'.symm.trans hx
    | error fault =>
      obtain ⟨rfl, rfl⟩ := EStateM.Result.error.inj (hx'.symm.trans hx)
      exact ⟨t', hy, hview'⟩

theorem of_yields {x : Work φ α} {outcome : View φ → Except Fault α} (h : Yields x outcome) :
    Tracks faults Eq x x := by
  refine of_ending fun s t hview => ?_
  obtain ⟨s', hread, hs⟩ := h s
  obtain ⟨t', hread', ht⟩ := h t
  rw [hview] at ht
  exact ⟨_, s', t', hs, ht, by rw [hread.view_eq, hread'.view_eq, hview]⟩

theorem pure {a : α} {b : β} (h : R a b) :
    Tracks faults R (Pure.pure a : Work φ α) (Pure.pure b) where
  ok := fun {s t _ _} hview hx => by
    obtain ⟨rfl, rfl⟩ := EStateM.Result.ok.inj hx
    exact ⟨b, t, rfl, h, hview⟩
  error := fun _ {s t _ _} _ hx => nomatch hx

theorem weaken {x : Work φ α} {y : Work φ β} (h : Tracks True R x y) : Tracks faults R x y :=
  ⟨h.ok, fun _ => h.error trivial⟩

theorem bind {x : Work φ α} {y : Work φ β} {k : α → Work φ γ} {l : β → Work φ δ}
    (hxy : Tracks faults R x y) (hkl : ∀ a b, R a b → Tracks faults R' (k a) (l b)) :
    Tracks faults R' (x >>= k) (y >>= l) where
  ok := fun {s t _ _} hview h => by
    cases hx : x s with
    | error fault s' => exact nomatch (bind_of_error hx).symm.trans h
    | ok a s' =>
      rw [bind_of_ok hx] at h
      obtain ⟨b, t', hy, hab, hview'⟩ := hxy.ok hview hx
      obtain ⟨c, t'', hl, hR', hview''⟩ := (hkl a b hab).ok hview' h
      exact ⟨c, t'', (bind_of_ok hy).trans hl, hR', hview''⟩
  error := fun hfaults {s t _ _} hview h => by
    cases hx : x s with
    | error fault s' =>
      rw [bind_of_error hx] at h
      obtain ⟨rfl, rfl⟩ := EStateM.Result.error.inj h
      obtain ⟨t', hy, hview'⟩ := hxy.error hfaults hview hx
      exact ⟨t', bind_of_error hy, hview'⟩
    | ok a s' =>
      rw [bind_of_ok hx] at h
      obtain ⟨b, t', hy, hab, hview'⟩ := hxy.ok hview hx
      obtain ⟨t'', hl, hview''⟩ := (hkl a b hab).error hfaults hview' h
      exact ⟨t'', (bind_of_ok hy).trans hl, hview''⟩

/-- Work that only reads, done by the first and not by the second. -/
theorem skip {x : Work φ α} {outcome : View φ → Except Fault α} {k : α → Work φ γ} {y : Work φ δ}
    (hx : Yields x outcome) (hk : ∀ a, Tracks False R' (k a) y) :
    Tracks False R' (x >>= k) y where
  ok := fun {s t _ _} hview h => by
    have hread := hx.read s
    cases hx' : x s with
    | error fault s' => exact nomatch (bind_of_error hx').symm.trans h
    | ok a s' =>
      rw [bind_of_ok hx'] at h
      rw [stateAfter_of_ok hx'] at hread
      exact (hk a).ok (hview.trans hread.view_eq.symm) h
  error := False.elim

theorem mapM {f g : α → Work φ β} (h : ∀ a, Tracks faults Eq (f a) (g a)) (l : List α) :
    Tracks faults Eq (l.mapM f) (l.mapM g) := by
  induction l with
  | nil => exact Tracks.pure rfl
  | cons a l ih =>
    simp only [List.mapM_cons]
    refine (h a).bind ?_
    rintro b _ rfl
    refine ih.bind ?_
    rintro bs _ rfl
    exact Tracks.pure rfl

theorem filterMapM {f g : α → Work φ (Option β)} (h : ∀ a, Tracks faults Eq (f a) (g a))
    (l : List α) : Tracks faults Eq (l.filterMapM f) (l.filterMapM g) := by
  induction l with
  | nil => exact Tracks.pure rfl
  | cons a l ih =>
    simp only [List.filterMapM_cons]
    refine (h a).bind ?_
    rintro b _ rfl
    cases b with
    | none => exact ih
    | some b =>
      refine ih.bind ?_
      rintro bs _ rfl
      exact Tracks.pure rfl

theorem dispatch {recording : Log φ → Work φ α} {recording' : Log φ → Work φ β}
    {discarding : Work φ α} {discarding' : Work φ β}
    (hrecording : ∀ log, Tracks faults R (recording log) (recording' log))
    (hdiscarding : Tracks faults R discarding discarding') :
    Tracks faults R (Session.dispatch recording discarding)
      (Session.dispatch recording' discarding') where
  ok := fun {s t _ _} hview hx => by
    have hsink : t.sink = s.sink := congrArg View.sink hview
    cases hs : s.sink with
    | recording log =>
      rw [dispatch_of_recording hs] at hx
      rw [dispatch_of_recording (hsink.trans hs)]
      exact (hrecording log).ok hview hx
    | discarding =>
      rw [dispatch_of_discarding hs] at hx
      rw [dispatch_of_discarding (hsink.trans hs)]
      exact hdiscarding.ok hview hx
  error := fun hfaults {s t _ _} hview hx => by
    have hsink : t.sink = s.sink := congrArg View.sink hview
    cases hs : s.sink with
    | recording log =>
      rw [dispatch_of_recording hs] at hx
      rw [dispatch_of_recording (hsink.trans hs)]
      exact (hrecording log).error hfaults hview hx
    | discarding =>
      rw [dispatch_of_discarding hs] at hx
      rw [dispatch_of_discarding (hsink.trans hs)]
      exact hdiscarding.error hfaults hview hx

theorem mapLeft {S : γ → β → Prop} {x : Work φ α} {y : Work φ β} {f : α → γ}
    (h : Tracks faults R x y) (hS : ∀ a b, R a b → S (f a) b) :
    Tracks faults S (do return f (← x)) y := by
  have hbind : Tracks faults S (do return f (← x)) (y >>= fun b => Pure.pure b) :=
    h.bind fun a b hab => Tracks.pure (hS a b hab)
  rwa [bind_pure] at hbind

theorem andThen {x : Work φ α} {y : Work φ β} (h : Tracks faults R x y) (c : γ) :
    Tracks faults Eq (do let _ ← x; return c) (do let _ ← y; return c) :=
  h.bind fun _ _ _ => Tracks.pure rfl

theorem same {x y : Work φ α} {s t : Session φ} (h : Tracks faults Eq x y)
    (hfaults : faults ∨ ∃ a, outcomeOf x s = .ok a) (hview : t.view = s.view) :
    outcomeOf y t = outcomeOf x s ∧ (stateAfter y t).view = (stateAfter x s).view := by
  unfold outcomeOf stateAfter at *
  cases hx : x s with
  | ok a s' =>
    obtain ⟨_, t', hy, rfl, hview'⟩ := h.ok hview hx
    rw [hy]
    exact ⟨rfl, hview'⟩
  | error fault s' =>
    rw [hx] at hfaults
    obtain ⟨t', hy, hview'⟩ := h.error (hfaults.resolve_right fun ⟨a, ha⟩ => nomatch ha) hview hx
    rw [hy]
    exact ⟨rfl, hview'⟩

end Tracks

/-! ## Steps track themselves -/

/-- A step that gives a file another text. -/
def Step.SetsText : Step φ → Prop
  | .setText _ _ => True
  | _ => False

section Steps

variable {faults : Prop}

theorem tracks_register (file : Option φ) : Tracks faults Eq (register file) (register file) := by
  refine Tracks.of_ending fun s t hview => ?_
  obtain ⟨files, sink, journal, printed⟩ := s
  obtain ⟨files', sink', journal', printed'⟩ := t
  obtain ⟨hfiles, hsink⟩ := View.mk.inj hview
  change sink' = sink at hsink
  subst hsink
  cases sink' with
  | discarding => exact ⟨.ok (), _, _, rfl, rfl, hview⟩
  | recording log =>
    have hview' : (⟨files', .recording (log.register file), journal', printed'⟩ : Session φ).view
        = (⟨files, .recording (log.register file), journal, printed⟩ : Session φ).view :=
      congrArg (View.mk · _) hfiles
    cases file with
    | none => exact ⟨.error .noFileToRegister, _, _, rfl, rfl, hview'⟩
    | some f => exact ⟨.ok (), _, _, rfl, rfl, hview'⟩

theorem tracks_report (e : Entry φ) : Tracks faults Eq (report e : Work φ Unit) (report e) := by
  refine Tracks.of_ending fun s t hview => ?_
  obtain ⟨files, sink, journal, printed⟩ := s
  obtain ⟨files', sink', journal', printed'⟩ := t
  obtain ⟨hfiles, hsink⟩ := View.mk.inj hview
  change sink' = sink at hsink
  subst hsink
  cases sink' with
  | discarding => exact ⟨.ok (), _, _, rfl, rfl, hview⟩
  | recording log => exact ⟨.ok (), _, _, rfl, rfl, congrArg (View.mk · _) hfiles⟩

variable [DecidableEq φ]

theorem tracks_rename (f : φ) (filename : String) :
    Tracks faults Eq (rename f filename) (rename f filename) := by
  refine Tracks.of_ending fun s t hview => ⟨.ok (), _, _, rfl, rfl, ?_⟩
  obtain ⟨hfiles, hsink⟩ := View.mk.inj hview
  unfold Session.view
  congr 1
  funext g
  by_cases hg : g = f
  · have hf : (t.files f).view = (s.files f).view := congrFun hfiles f
    simp only [hg, if_true]
    exact congrArg (fun v : FileView => { v with filename }) hf
  · simp only [if_neg hg]
    exact congrFun hfiles g

theorem tracks_forEach {callback callback' : String → Nat → Work φ α}
    (h : ∀ text index, Tracks faults Eq (callback text index) (callback' text index)) :
    Tracks faults Eq (forEach callback) (forEach callback') := by
  refine Tracks.dispatch (fun log => Tracks.mapM (fun (index : Nat) => ?_) _) (Tracks.pure rfl)
  refine (Tracks.of_yields (yields_message index true)).bind ?_
  rintro text _ rfl
  exact h text index

theorem tracks_iterate {before before' : Work φ Unit} {each each' : Info φ → Work φ Unit}
    (hbefore : Tracks faults Eq before before')
    (heach : ∀ info, Tracks faults Eq (each info) (each' info)) :
    Tracks faults Eq (iterate before each) (iterate before' each') := by
  refine hbefore.bind fun _ _ _ => Tracks.dispatch
    (fun log => Tracks.filterMapM (fun (index : Nat) => ?_) _) (Tracks.pure rfl)
  refine (Tracks.of_yields (yields_info? index {})).bind ?_
  rintro found _ rfl
  cases found with
  | none => exact Tracks.pure rfl
  | some info => exact (heach info).andThen (some info)

mutual

/-- A step that changes no text ends alike in sessions that show the same. -/
theorem Step.tracks (step : Step φ) (h : ∀ part ∈ step.parts, ¬ part.SetsText) :
    Tracks True Eq step.run step.run := by
  cases step with
  | ask q => exact .of_yields (yields_query q)
  | register file => exact (tracks_register file).andThen Answer.done
  | report pos d args => exact (tracks_report _).andThen Answer.done
  | reportNode node d args => exact (tracks_report _).andThen Answer.done
  | setText f text => exact absurd trivial (h (.setText f text) rfl)
  | rename f filename => exact (tracks_rename f filename).andThen Answer.done
  | forEach each =>
    rw [Step.forall_mem_parts_forEach] at h
    have heach (text : String) (index : Nat) := Step.tracksAll (each text index) (h.2 text index)
    refine (tracks_forEach fun text index => (heach text index).andThen (text, index)).bind ?_
    rintro calls _ rfl
    exact Tracks.pure rfl
  | iterate before each =>
    rw [Step.forall_mem_parts_iterate] at h
    have hbefore := Step.tracksAll before h.2.1
    have heach (info : Info φ) := Step.tracksAll (each info) (h.2.2 info)
    refine (tracks_iterate (hbefore.andThen ()) fun info => (heach info).andThen ()).bind ?_
    rintro infos _ rfl
    exact Tracks.pure rfl

theorem Step.tracksAll (steps : List (Step φ)) (h : ∀ part ∈ Step.partsAll steps, ¬ part.SetsText) :
    Tracks True Eq (Step.runAll steps) (Step.runAll steps) := by
  cases steps with
  | nil => exact Tracks.pure rfl
  | cons step steps =>
    rw [Step.forall_mem_partsAll_cons] at h
    refine (Step.tracks step h.1).bind ?_
    rintro answer _ rfl
    refine (Step.tracksAll steps h.2).bind ?_
    rintro answers _ rfl
    exact Tracks.pure rfl

end

end Steps

/-! ## Leaving questions out -/

/-- A step that only asks: a question, or an enumeration whose callbacks do nothing. -/
def Step.IsQuery : Step φ → Prop
  | .ask _ => True
  | .forEach each => ∀ text index, each text index = []
  | .iterate before each => before = [] ∧ ∀ info, each info = []
  | _ => False

mutual

/-- The second step is the first without some of the questions that its callbacks ask. -/
inductive Step.Thins : Step φ → Step φ → Prop where
  | same (step : Step φ) : Thins step step
  | forEach {each each' : String → Nat → List (Step φ)}
      (h : ∀ text index, ThinsAll (each text index) (each' text index)) :
      Thins (.forEach each) (.forEach each')
  | iterate {before before' : List (Step φ)} {each each' : Info φ → List (Step φ)}
      (hbefore : ThinsAll before before') (heach : ∀ info, ThinsAll (each info) (each' info)) :
      Thins (.iterate before each) (.iterate before' each')

/-- The second steps are the first without some questions. -/
inductive Step.ThinsAll : List (Step φ) → List (Step φ) → Prop where
  | nil : ThinsAll [] []
  | drop {step : Step φ} {steps steps' : List (Step φ)} (h : step.IsQuery)
      (rest : ThinsAll steps steps') : ThinsAll (step :: steps) steps'
  | keep {step step' : Step φ} {steps steps' : List (Step φ)} (h : Thins step step')
      (rest : ThinsAll steps steps') : ThinsAll (step :: steps) (step' :: steps')

end

/-- What is left of a list without the places that are dropped. -/
def leaveOut (dropped : Nat → Bool) : List α → List α
  | [] => []
  | a :: l =>
    if dropped 0 then
      leaveOut (fun i => dropped (i + 1)) l
    else
      a :: leaveOut (fun i => dropped (i + 1)) l

section Thinning

variable [DecidableEq φ]

theorem Step.IsQuery.yields {step : Step φ} (h : step.IsQuery) :
    ∃ outcome, Yields step.run outcome := by
  cases step with
  | ask q => exact ⟨_, yields_query q⟩
  | forEach each =>
    obtain rfl : each = fun _ _ => [] := funext fun text => funext (h text)
    exact ⟨_, (yields_forEach Prod.mk).bind fun calls => Yields.pure _⟩
  | iterate before each =>
    obtain ⟨rfl, heach⟩ := h
    obtain rfl : each = fun _ => [] := funext heach
    exact ⟨_, yields_iterate.bind fun infos => Yields.pure _⟩
  | register file => exact h.elim
  | report pos d args => exact h.elim
  | reportNode node d args => exact h.elim
  | setText f text => exact h.elim
  | rename f filename => exact h.elim

mutual

/-- A step that gives a result gives the same without questions in its callbacks. -/
theorem Step.Thins.tracks {step step' : Step φ} (h : Step.Thins step step')
    (hset : ∀ part ∈ step.parts, ¬ part.SetsText) : Tracks False Eq step.run step'.run := by
  cases h with
  | same => exact (Step.tracks step hset).weaken
  | forEach h =>
    rw [Step.forall_mem_parts_forEach] at hset
    have heach (text : String) (index : Nat) := (h text index).tracks (hset.2 text index)
    refine (tracks_forEach fun text index => (heach text index).andThen (text, index)).bind ?_
    rintro calls _ rfl
    exact Tracks.pure rfl
  | iterate hbefore heach =>
    rw [Step.forall_mem_parts_iterate] at hset
    have hbefore' := hbefore.tracks hset.2.1
    have heach' (info : Info φ) := (heach info).tracks (hset.2.2 info)
    refine (tracks_iterate (hbefore'.andThen ()) fun info => (heach' info).andThen ()).bind ?_
    rintro infos _ rfl
    exact Tracks.pure rfl

theorem Step.ThinsAll.tracks {steps steps' : List (Step φ)} (h : Step.ThinsAll steps steps')
    (hset : ∀ part ∈ Step.partsAll steps, ¬ part.SetsText) :
    Tracks False (fun _ _ => True) (Step.runAll steps) (Step.runAll steps') := by
  cases h with
  | nil => exact Tracks.pure trivial
  | drop hquery rest =>
    rw [Step.forall_mem_partsAll_cons] at hset
    obtain ⟨outcome, hyields⟩ := hquery.yields
    exact Tracks.skip hyields fun answer => (rest.tracks hset.2).mapLeft fun _ _ _ => trivial
  | keep h rest =>
    rw [Step.forall_mem_partsAll_cons] at hset
    exact (h.tracks hset.1).bind fun _ _ _ =>
      (rest.tracks hset.2).bind fun _ _ _ => Tracks.pure trivial

end

theorem Step.IsQuery.view_eq {step : Step φ} (h : step.IsQuery) (s : Session φ) :
    (stateAfter step.run s).view = s.view := by
  obtain ⟨outcome, hyields⟩ := h.yields
  exact (hyields.read s).view_eq

/-- As `outcomes_leaveOut`, from another session that shows the same. -/
theorem outcomes_leaveOut_of_view {run thinned : List (Step φ)}
    (hthins : List.Forall₂ Step.Thins run thinned) {dropped : Nat → Bool} {s t : Session φ}
    (hview : t.view = s.view) (hset : ∀ part ∈ Step.partsAll run, ¬ part.SetsText)
    (hdropped : ∀ i step, run[i]? = some step → dropped i = true → step.IsQuery)
    (hends : ∀ i : Nat, thinned[i]? ≠ run[i]? →
      ∃ answers, (outcomes run s)[i]? = some (Except.ok answers)) :
    outcomes (leaveOut dropped thinned) t = leaveOut dropped (outcomes run s) := by
  induction hthins generalizing dropped s t with
  | nil => rfl
  | @cons step step' run thinned hthins _ ih =>
    rw [outcomes_cons] at hends ⊢
    rw [Step.forall_mem_partsAll_cons] at hset
    -- The two runs go on from different sessions; that these show the same is what is carried on.
    have hrest {t' : Session φ} (hview' : t'.view = (stateAfter step.run s).view) :
        outcomes (leaveOut (fun i => dropped (i + 1)) thinned) t'
          = leaveOut (fun i => dropped (i + 1)) (outcomes run (stateAfter step.run s)) :=
      ih hview' hset.2 (fun i => hdropped (i + 1)) (fun i => hends (i + 1))
    unfold leaveOut
    by_cases h : dropped 0
    · rw [if_pos h, if_pos h]
      exact hrest (hview.trans ((hdropped 0 step rfl h).view_eq s).symm)
    · have hsame : outcomeOf step'.run t = outcomeOf step.run s ∧
          (stateAfter step'.run t).view = (stateAfter step.run s).view := by
        by_cases heq : step' = step
        · rw [heq]
          exact (Step.tracks step hset.1).same (.inl trivial) hview
        · obtain ⟨answers, hanswers⟩ := hends 0 fun hsome => heq (Option.some.inj hsome)
          refine (hthins.tracks hset.1).same (.inr ?_) hview
          cases hout : outcomeOf step.run s with
          | ok answer => exact ⟨answer, rfl⟩
          | error fault =>
            rw [hout] at hanswers
            exact nomatch Option.some.inj hanswers
      rw [if_neg h, if_neg h, outcomes_cons, hsame.1, hrest hsame.2]

/-- In a run that changes no text, questions may be left out: any of the steps that only ask,
whether or not they end in a fault, and questions asked by the callbacks of a step that ends well.
All other steps end as they do in the whole run. -/
theorem outcomes_leaveOut {run thinned : List (Step φ)}
    (hthins : List.Forall₂ Step.Thins run thinned) {dropped : Nat → Bool} {s : Session φ}
    (hset : ∀ part ∈ Step.partsAll run, ¬ part.SetsText)
    (hdropped : ∀ i step, run[i]? = some step → dropped i = true → step.IsQuery)
    (hends : ∀ i : Nat, thinned[i]? ≠ run[i]? →
      ∃ answers, (outcomes run s)[i]? = some (Except.ok answers)) :
    outcomes (leaveOut dropped thinned) s = leaveOut dropped (outcomes run s) :=
  outcomes_leaveOut_of_view hthins rfl hset hdropped hends

end Thinning

/-- Before the first entry an enumeration that asks and registers, then an entry, questions about
it, a registration that is a fault, and a last question. -/
def inquisitiveRun : List (Step Nat) :=
  [.iterate [.ask .size, .register (some 0)] fun _ => [],
   .report (some 4) ⟨1009, "Obsolete.", "warning"⟩ [],
   .ask (.message 0 true),
   .forEach fun _ _ => [],
   .iterate [] fun _ => [],
   .register none,
   .ask .dump]

theorem outcomes_leaveOut_inquisitiveRun :
    let s : Session Nat := recording fun _ => { filename := "a", text := some "b\nc" }
    let thinned := .iterate [.register (some 0)] (fun _ => []) :: inquisitiveRun.tail
    let dropped (i : Nat) : Bool := 2 ≤ i ∧ i < 5
    List.Forall₂ Step.Thins inquisitiveRun thinned ∧
      (∀ part ∈ Step.partsAll inquisitiveRun, ¬ part.SetsText) ∧
      (∀ i step, inquisitiveRun[i]? = some step → dropped i = true → step.IsQuery) ∧
      (∀ i : Nat, thinned[i]? ≠ inquisitiveRun[i]? →
        ∃ answers, (outcomes inquisitiveRun s)[i]? = some (Except.ok answers)) ∧
      outcomes (leaveOut dropped thinned) s = leaveOut dropped (outcomes inquisitiveRun s) := by
  intro s thinned dropped
  have hthins : List.Forall₂ Step.Thins inquisitiveRun thinned := by
    refine .cons (.iterate (.drop trivial (.keep (.same _) .nil)) fun _ => .nil) ?_
    exact List.forall₂_same.2 fun step _ => .same step
  have hset : ∀ part ∈ Step.partsAll inquisitiveRun, ¬ part.SetsText := by
    simp only [inquisitiveRun, Step.forall_mem_partsAll_cons, Step.forall_mem_partsAll_nil,
      Step.forall_mem_parts_forEach, Step.forall_mem_parts_iterate]
    simp only [Step.parts, Set.mem_singleton_iff, forall_eq]
    simp [Step.SetsText]
  have hdropped : ∀ i step, inquisitiveRun[i]? = some step → dropped i = true → step.IsQuery := by
    intro i step hstep hi
    obtain ⟨h2, h5⟩ := of_decide_eq_true hi
    obtain rfl | rfl | rfl : i = 2 ∨ i = 3 ∨ i = 4 := by omega
    all_goals
      cases hstep
      simp [Step.IsQuery]
  have hends : ∀ i : Nat, thinned[i]? ≠ inquisitiveRun[i]? →
      ∃ answers, (outcomes inquisitiveRun s)[i]? = some (Except.ok answers) := by
    intro i hi
    cases i with
    | zero => exact ⟨_, rfl⟩
    | succ i => exact absurd rfl hi
  exact ⟨hthins, hset, hdropped, hends, outcomes_leaveOut hthins hset hdropped hends⟩

end GrammarDiagnostics
