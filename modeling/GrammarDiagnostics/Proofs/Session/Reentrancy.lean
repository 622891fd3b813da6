import GrammarDiagnostics.Proofs.Session.Stability
import Mathlib.Tactic.Choose

/-! # Enumerations during which the log grows

An enumeration goes over the entries that are there when it begins, and tells of each what it would
have told then, whatever its callback adds to the log meanwhile.

* `Session.firstCalls`, `Session.firstItems`: the first calls of a callback, and the first items
  that an iteration hands out, with all that is done after each.
* `Session.CallsSucceed`, `Session.ItemsSucceed`: what is done after a call, or after an item, ends
  well.
* `mapM_range_ok`, `filterMapM_range_ok`: going over the indices, one after the other.
* `enumerations_reentrant`: the calls are those of a callback that does nothing, and the items are
  the snapshots at the moment at which the first is asked for.
-/

set_option autoImplicit false

namespace GrammarDiagnostics

open Session

variable {φ β : Type}

/-! ## Going over indices -/

section Ranges

variable {f : Nat → Work φ β} {g : Nat → β} {P : Session φ → Prop} {s : Session φ}

/-- Going over the indices succeeds when each can be dealt with in the session that dealing with the
earlier ones has left. -/
theorem mapM_range_ok (hs : P s) {n : Nat}
    (h : ∀ k < n, ∀ t, P t → (List.range k).mapM f s = .ok ((List.range k).map g) t →
      ∃ t', f k t = .ok (g k) t' ∧ P t') :
    ∃ t, (List.range n).mapM f s = .ok ((List.range n).map g) t ∧ P t := by
  induction n with
  | zero => exact ⟨s, rfl, hs⟩
  | succ n ih =>
    obtain ⟨t, hearlier, ht⟩ := ih fun k hk => h k (Nat.lt_succ_of_lt hk)
    obtain ⟨t', hlast, ht'⟩ := h n (Nat.lt_succ_self n) t ht hearlier
    refine ⟨t', ?_, ht'⟩
    rw [List.range_succ, List.mapM_append, bind_of_ok hearlier, List.mapM_cons, List.mapM_nil,
      List.map_append, bind_assoc, bind_of_ok hlast]
    rfl

theorem filterMapM_eq_mapM {α : Type} (f : α → Work φ (Option β)) (l : List α) :
    l.filterMapM f = List.filterMap id <$> l.mapM f := by
  induction l with
  | nil => rfl
  | cons a l ih =>
    simp only [List.filterMapM_cons, List.mapM_cons, ih, map_bind]
    congr 1
    funext b
    cases b with
    | none =>
      simp only [map_pure]
      exact map_eq_pure_bind _ _
    | some b =>
      simp only [map_eq_pure_bind, bind_assoc, pure_bind]
      rfl

theorem filterMapM_of_mapM {f : Nat → Work φ (Option β)} {l : List Nat} {t : Session φ}
    (h : l.mapM f s = .ok (l.map fun k => some (g k)) t) : l.filterMapM f s = .ok (l.map g) t := by
  have hvalues : (l.map fun k => some (g k)).filterMap id = l.map g := by
    rw [List.filterMap_map]
    exact congrFun List.filterMap_eq_map l
  rw [filterMapM_eq_mapM, map_eq_pure_bind, bind_of_ok h, hvalues]
  rfl

theorem filterMapM_range_ok {f : Nat → Work φ (Option β)} (hs : P s) {n : Nat}
    (h : ∀ k < n, ∀ t, P t → (List.range k).filterMapM f s = .ok ((List.range k).map g) t →
      ∃ t', f k t = .ok (some (g k)) t' ∧ P t') :
    ∃ t, (List.range n).filterMapM f s = .ok ((List.range n).map g) t ∧ P t := by
  obtain ⟨t, hall, ht⟩ := mapM_range_ok (g := fun k => some (g k)) hs
    fun k hk t ht hearlier => h k hk t ht (filterMapM_of_mapM hearlier)
  exact ⟨t, filterMapM_of_mapM hall, ht⟩

end Ranges

theorem Sink.exists_entryAt? {sink : Sink φ} {index : Nat} (h : index < sink.size) :
    ∃ e, sink.entryAt? index = some e := by
  cases sink with
  | discarding => exact absurd h (Nat.not_lt_zero index)
  | recording log => exact log.exists_entryAt? h

/-! ## Callbacks -/

section Callbacks

variable [DecidableEq φ]

/-- A callback that does steps and tells what it was called with. -/
def Session.noting (each : String → Nat → List (Step φ)) (text : String) (index : Nat) :
    Work φ (String × Nat) := do
  let _ ← Step.runAll (each text index)
  return (text, index)

/-- What is done after an item. -/
def Session.doing (next : Info φ → List (Step φ)) (info : Info φ) : Work φ Unit := do
  let _ ← Step.runAll (next info)

/-- The first calls of an enumeration, with all that the callback does. -/
def Session.firstCalls (each : String → Nat → List (Step φ)) (k : Nat) :
    Work φ (List (String × Nat)) :=
  (List.range k).mapM fun (index : Nat) => do
    noting each (← message index true) index

/-- The first items of an iteration, with all that is done after each. -/
def Session.firstItems (next : Info φ → List (Step φ)) (k : Nat) : Work φ (List (Info φ)) :=
  (List.range k).filterMapM fun (index : Nat) => do
    let some info ← info? index {} | return none
    doing next info
    return some info

/-- Whatever a callback does, when it is called by an enumeration that begins in a given session,
ends well. -/
def Session.CallsSucceed (each : String → Nat → List (Step φ)) (s : Session φ) : Prop :=
  ∀ k < s.sink.size, ∀ calls t text t', firstCalls each k s = .ok calls t →
    message k true t = .ok text t' → ∃ answers t'', Step.runAll (each text k) t' = .ok answers t''

/-- Whatever is done after the items of an iteration that begins in a given session, ends well. -/
def Session.ItemsSucceed (next : Info φ → List (Step φ)) (s : Session φ) : Prop :=
  ∀ k < s.sink.size, ∀ items t info t', firstItems next k s = .ok items t →
    info? k {} t = .ok (some info) t' → ∃ answers t'', Step.runAll (next info) t' = .ok answers t''

theorem forEach_noting (each : String → Nat → List (Step φ)) (s : Session φ) :
    forEach (noting each) s = firstCalls each s.sink.size s := by
  cases hs : s.sink with
  | recording log => exact dispatch_of_recording hs
  | discarding => exact dispatch_of_discarding hs

theorem iterate_doing {before : List (Step φ)} {next : Info φ → List (Step φ)} {s t : Session φ}
    {answers : List (Answer φ)} (h : Step.runAll before s = .ok answers t) :
    iterate (do let _ ← Step.runAll before) (doing next) s = firstItems next t.sink.size t := by
  have hbefore : (do let _ ← Step.runAll before : Work φ Unit) s = .ok () t := bind_of_ok h
  refine (bind_of_ok hbefore).trans ?_
  cases ht : t.sink with
  | recording log => exact dispatch_of_recording ht
  | discarding => exact dispatch_of_discarding ht

/-! ## What a callback keeps -/

/-- All that a session shows is kept, and the log extended. -/
abbrev Session.KeepsAll (s t : Session φ) : Prop := Session.Keeps (fun _ => True) s t

theorem Session.keepsAll_runAll {steps : List (Step φ)}
    (h : ∀ part ∈ Step.partsAll steps, part.changes? = none) {s t : Session φ}
    {answers : List (Answer φ)} (hrun : Step.runAll steps s = .ok answers t) :
    s.KeepsAll t := by
  obtain ⟨moves, hmoves⟩ := Step.goesAll steps s
  rw [stateAfter_of_ok hrun] at hmoves
  refine hmoves.keeps_files fun part hpart f hf => ?_
  rw [h part hpart] at hf
  exact nomatch hf

omit [DecidableEq φ] in
theorem Session.KeepsAll.agree {s t : Session φ} (h : s.KeepsAll t) {index : Nat}
    (hlt : index < s.sink.size) : View.Agree index s.view t.view where
  entryAt? := h.sink.entryAt? index (Int.ofNat_lt.2 hlt)
  fileAt? := h.sink.fileAt? index (Int.ofNat_lt.2 hlt)
  files := fun f _ => h.files f trivial

theorem Session.KeepsAll.message_ok {s t : Session φ} (h : s.KeepsAll t)
    {index : Nat} (hlt : index < s.sink.size) {text : String}
    (htext : outcomeOf (message index true) s = .ok text) :
    ∃ t', message index true t = .ok text t' ∧ s.KeepsAll t' := by
  have hagree := h.agree hlt
  rw [(yields_message index true).outcomeOf_eq] at htext
  have hmessage := (hagree.message (fun _ f _ _ => h.files f trivial) true).trans htext
  obtain ⟨t', ht, hread⟩ := (yields_message index true).exists_ok hmessage
  exact ⟨t', ht, h.trans (.of_read hread)⟩

theorem Session.KeepsAll.info?_ok {s t : Session φ} (h : s.KeepsAll t)
    {index : Nat} (hlt : index < s.sink.size) {info : Info φ}
    (hinfo : outcomeOf (info? index {}) s = .ok (some info)) :
    ∃ t', info? index {} t = .ok (some info) t' ∧ s.KeepsAll t' := by
  have hagree := h.agree hlt
  rw [(yields_info? index {}).outcomeOf_eq] at hinfo
  obtain ⟨t', ht, hread⟩ := (yields_info? index {}).exists_ok
    ((hagree.info? {} fun _ _ f _ _ => h.files f trivial).trans hinfo)
  exact ⟨t', ht, h.trans (.of_read hread)⟩

/-- A snapshot without a message is never a fault. -/
theorem Session.exists_info? {s : Session φ} {index : Nat} (h : index < s.sink.size) :
    ∃ info, outcomeOf (info? index {}) s = .ok (some info) := by
  obtain ⟨e, he⟩ := Sink.exists_entryAt? h
  rw [(yields_info? index {}).outcomeOf_eq, View.info?_of_entryAt? he]
  exact ⟨_, rfl⟩

/-! ## Enumerations -/

theorem firstCalls_ok {s : Session φ} {each : String → Nat → List (Step φ)} {texts : Nat → String}
    (hrender : ∀ index : Nat, index < s.sink.size →
      outcomeOf (message index true) s = .ok (texts index))
    (heach : ∀ text index, ∀ part ∈ Step.partsAll (each text index), part.changes? = none)
    (hcalls : CallsSucceed each s) :
    outcomeOf (forEach (noting each)) s
      = .ok ((List.range s.sink.size).map fun index => (texts index, index)) := by
  have hall : ∃ t, firstCalls each s.sink.size s
      = .ok ((List.range s.sink.size).map fun index => (texts index, index)) t ∧
        s.KeepsAll t := by
    -- Before each call the log has only grown, so that the next message still is that of the start.
    refine mapM_range_ok (P := s.KeepsAll) (.refl s) fun k hk t ht hearlier => ?_
    obtain ⟨t', hmessage, ht'⟩ := ht.message_ok hk (hrender k hk)
    obtain ⟨answers, t'', hdone⟩ := hcalls k hk _ t _ t' hearlier hmessage
    refine ⟨t'', ?_, ht'.trans (keepsAll_runAll (heach (texts k) k) hdone)⟩
    rw [bind_of_ok hmessage]
    exact bind_of_ok hdone
  obtain ⟨t, hall, _⟩ := hall
  exact outcomeOf_of_ok ((forEach_noting each s).trans hall)

theorem firstItems_ok {s : Session φ} {next : Info φ → List (Step φ)} {infos : Nat → Info φ}
    (hinfos : ∀ index : Nat, index < s.sink.size →
      outcomeOf (info? index {}) s = .ok (some (infos index)))
    (hnext : ∀ info, ∀ part ∈ Step.partsAll (next info), part.changes? = none)
    (hitems : ItemsSucceed next s) :
    outcomeOf (firstItems next s.sink.size) s = .ok ((List.range s.sink.size).map infos) := by
  have hall : ∃ t, firstItems next s.sink.size s = .ok ((List.range s.sink.size).map infos) t ∧
      s.KeepsAll t := by
    refine filterMapM_range_ok (P := s.KeepsAll) (.refl s) fun k hk t ht hearlier => ?_
    obtain ⟨t', hinfo, ht'⟩ := ht.info?_ok hk (hinfos k hk)
    obtain ⟨answers, t'', hdone⟩ := hitems k hk _ t _ t' hearlier hinfo
    refine ⟨t'', ?_, ht'.trans (keepsAll_runAll (hnext (infos k)) hdone)⟩
    rw [bind_of_ok hinfo]
    exact bind_of_ok (bind_of_ok hdone)
  obtain ⟨t, hall, _⟩ := hall
  exact outcomeOf_of_ok hall

/-- When the entries of a log can all be rendered, and callbacks only ask and add, and that with
success, an enumeration calls its callback once for every entry that was there when it began, in
order, with the messages that a callback which does nothing is called with. An iteration hands out
the snapshots of the entries that are there when the first is asked for, in order and as they are
then. -/
theorem enumerations_reentrant {s t : Session φ} {each : String → Nat → List (Step φ)}
    {before : List (Step φ)} {answers : List (Answer φ)} {next : Info φ → List (Step φ)}
    (hrender : ∀ index : Nat, index < s.sink.size →
      ∃ text, outcomeOf (message index true) s = .ok text)
    (heach : ∀ text index, ∀ part ∈ Step.partsAll (each text index), part.changes? = none)
    (hcalls : CallsSucceed each s)
    (hbefore : Step.runAll before s = .ok answers t)
    (hnext : ∀ info, ∀ part ∈ Step.partsAll (next info), part.changes? = none)
    (hitems : ItemsSucceed next t) :
    (∃ calls, outcomeOf (forEach (noting each)) s = .ok calls ∧
      calls.map Prod.snd = List.range s.sink.size ∧
      outcomeOf (forEach (noting fun _ _ => [])) s = .ok calls) ∧
    ∃ infos, outcomeOf (iterate (do let _ ← Step.runAll before) (doing next)) s = .ok infos ∧
      infos.length = t.sink.size ∧
      ∀ index : Nat, index < t.sink.size → outcomeOf (info? index {}) t = .ok infos[index]? := by
  have hsilent : CallsSucceed (fun _ _ => []) s := fun _ _ _ _ _ t' _ _ => ⟨[], t', rfl⟩
  have hnone : ∀ (text : String) (index : Nat), ∀ part ∈ Step.partsAll (φ := φ) [],
      part.changes? = none := fun _ _ => Step.forall_mem_partsAll_nil.2 trivial
  choose! texts htexts using hrender
  have : Nonempty (Info φ) := ⟨⟨0, 0, "", none, false, none, none, none, none, none⟩⟩
  have hinfos : ∀ index : Nat, index < t.sink.size →
      ∃ info, outcomeOf (info? index {}) t = .ok (some info) := fun _ => exists_info?
  choose! infos hinfos using hinfos
  refine ⟨⟨_, firstCalls_ok htexts heach hcalls, ?_, firstCalls_ok htexts hnone hsilent⟩,
    (List.range t.sink.size).map infos, ?_, ?_, fun index hindex => ?_⟩
  · rw [List.map_map]
    exact List.map_id _
  · have hitems' := firstItems_ok hinfos hnext hitems
    unfold outcomeOf at hitems' ⊢
    rwa [iterate_doing hbefore]
  · rw [List.length_map, List.length_range]
  · rw [List.getElem?_map, List.getElem?_range hindex]
    exact hinfos index hindex

end Callbacks

/-- A callback that reports the message it is called with, registers a file and asks how many
entries there are. -/
def echoing (text : String) (index : Nat) : List (Step Nat) :=
  [.report (some index) ⟨1002, "Unexpected token {0}.", "error"⟩ [.string text],
   .register (some 1),
   .ask .size]

theorem enumerations_reentrant_echoing :
    let s : Session Nat := afterRun
      [.report none ⟨1000, "Constant expected.", "error"⟩ [],
       .register (some 0),
       .report none ⟨1009, "Obsolete.", "warning"⟩ []]
      (recording fun _ => { filename := "a", text := some "b\nc" })
    let before : List (Step Nat) := [.report (some 1) ⟨1003, "Invalid character.", "error"⟩ []]
    let next (info : Info Nat) : List (Step Nat) := echoing info.message 0
    let t := stateAfter (Step.runAll before) s
    (∀ index : Nat, index < s.sink.size → ∃ text, outcomeOf (message index true) s = .ok text) ∧
      (∀ text index, ∀ part ∈ Step.partsAll (echoing text index), part.changes? = none) ∧
      CallsSucceed echoing s ∧
      Step.runAll before s = .ok [.done] t ∧
      (∀ info, ∀ part ∈ Step.partsAll (next info), part.changes? = none) ∧
      ItemsSucceed next t ∧
      (∃ calls, outcomeOf (forEach (noting echoing)) s = .ok calls ∧
        calls.map Prod.snd = List.range s.sink.size ∧
        outcomeOf (forEach (noting fun _ _ => [])) s = .ok calls) ∧
      ∃ infos, outcomeOf (iterate (do let _ ← Step.runAll before) (doing next)) s = .ok infos ∧
        infos.length = t.sink.size ∧
        ∀ index : Nat, index < t.sink.size → outcomeOf (info? index {}) t = .ok infos[index]? := by
  intro s before next t
  have hrender : ∀ index : Nat, index < s.sink.size →
      ∃ text, outcomeOf (message index true) s = .ok text := by
    intro index h
    rw [(yields_message index true).outcomeOf_eq]
    obtain rfl | rfl : index = 0 ∨ index = 1 := by
      change index < 2 at h
      omega
    · exact ⟨_, rfl⟩
    · exact ⟨_, rfl⟩
  have heach (text : String) (index : Nat) :
      ∀ part ∈ Step.partsAll (echoing text index), part.changes? = none := by
    simp only [echoing, Step.forall_mem_partsAll_cons, Step.forall_mem_partsAll_nil]
    simp [Step.parts, Step.changes?, Step.move?, Move.changes?]
  have hsucceed (text : String) (index : Nat) (u : Session Nat) :
      ∃ answers u', Step.runAll (echoing text index) u = .ok answers u' := by
    obtain ⟨files, sink, journal, printed⟩ := u
    cases sink <;> exact ⟨_, _, rfl⟩
  have hcalls : CallsSucceed echoing s := fun k _ _ _ text u _ _ => hsucceed text k u
  have hitems : ItemsSucceed next t := fun _ _ _ _ info u _ _ => hsucceed info.message 0 u
  have hbefore : Step.runAll before s = .ok [.done] t := rfl
  have hnext (info : Info Nat) : ∀ part ∈ Step.partsAll (next info), part.changes? = none :=
    heach info.message 0
  exact ⟨hrender, heach, hcalls, hbefore, hnext, hitems,
    enumerations_reentrant hrender heach hcalls hbefore hnext hitems⟩

end GrammarDiagnostics
