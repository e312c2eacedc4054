import TunerBroker.Proofs.Closes.SweepRuns

/-! Sweeps from their first turn to their end. A sweep closes just what is listed when it begins, each
stream once, whatever goes on meanwhile; and left to itself it comes to one state, in whatever order it
closes the streams. -/

namespace TunerBroker

open scoped List

/-- The number of streams that a sweep has ended with. -/
def Phase.swept? : Phase → Option Nat
  | finished (.swept n) => some n
  | _ => none

theorem Phase.eq_of_swept? {p : Phase} {n : Nat} (h : p.swept? = some n) : p = .finished (.swept n) := by
  cases p with
  | finished o =>
    cases o with
    | swept k =>
      obtain rfl : k = n := Option.some.inj h
      rfl
    | _ => cases h
  | _ => cases h

namespace System

variable {w u u' : System} {c : CallId} {n : ConnectionId} {l l' : List StreamId} {moves : List Move}
  {o : Outcome} {closed : List (StreamId × Except StreamError Unit)}

/-- The closes that fail are those of the streams with a reason to. -/
theorem countP_failsToShut (w : System) (l : List StreamId) :
    (l.map fun s => (s, w.shutResult s)).countP (fun x => failsToShut x.2) =
      l.countP fun s => (w.shutFault s).isSome := by
  rw [List.countP_map]
  exact List.countP_congr fun s _ => by rw [Function.comp_apply, failsToShut_shutResult]

/-! ### A sweep left to itself -/

namespace Sweeping

variable (h : w.Sweeping c l closed) (reg : w.Regular)

include h reg

/-- A run of quiet moves to the end of the sweep changes nothing but what the sweep is to close. -/
theorem spares_run (quiet : ∀ m ∈ moves, m.IsQuiet c l)
    (past : (w.run moves).phaseOf c = .finished o) : Spares c l w (w.run moves) := by
  induction moves generalizing w closed with
  | nil => exact .refl c l w
  | cons m moves ih =>
    obtain ⟨here, later⟩ := List.forall_mem_cons.1 quiet
    have kept : w.phaseOf c ≠ .abandoned := fun left => by
      rw [run_over (m :: moves) (by rw [left]; rfl) h.there, left] at past
      cases past
    exact (h.spares reg here (h.wears_quiet reg kept here)).trans
      (ih (h.step reg m).1 (reg.step m) later past)

/-- In a run of quiet moves nothing is counted but the closes of the sweep. -/
theorem counters_run (quiet : ∀ m ∈ moves, m.IsQuiet c l) (b : BrokerId) :
    (w.run moves).countersOf b =
      if b = w.brokerOf c ∧ b < w.brokers.size then
        (w.countersOf b).withCloses (w.along (teardownsBy c) moves).length
          ((w.along (teardownsBy c) moves).countP fun x => failsToShut x.2)
      else w.countersOf b := by
  induction moves using List.reverseRecOn with
  | nil =>
    show w.countersOf b = _
    rw [show w.along (teardownsBy c) [] = [] from rfl, List.length_nil, List.countP_nil,
      Counters.withCloses_zero, ite_self]
  | append_singleton moves m ih =>
    rw [run_concat, along_concat]
    have before := ih fun m hm => quiet m (List.mem_append_left _ hm)
    by_cases actor : m.actor = some c
    · rw [(h.run reg moves).counters (reg.run moves) actor, (run_keeps h.there moves).2,
        brokers_size_run, before, List.length_append, List.countP_append]
      split
      · rw [Counters.withCloses_withCloses]
      · rfl
    · have here : m.IsQuiet c l := quiet m (List.mem_append_right _ (List.mem_singleton_self m))
      rw [teardownsBy_eq_nil actor, List.append_nil, (hushed_quiet here actor).counters, before]

end Sweeping

/-- A sweep from its first turn, at `w`, comes to its end at `u` and leaves the streams of its broker as
they are once they have been closed. -/
structure Settles (w u : System) (c : CallId) (l : List StreamId) : Prop where
  outcome : u.phaseOf c = .finished (.swept l.length)
  phaseOf : ∀ d ≠ c, u.phaseOf d = w.phaseOf d
  announced : ∀ d, u.announcedBy d = w.announcedBy d
  slots : ∀ b k, u.slot b k = (w.sweep c).slot b k
  consumers : u.consumers = w.consumers
  streams : ∀ s, u.stream s = if s ∈ l then (w.stream s).wornDown else w.stream s
  connections : ∀ n, u.connections.get? n =
    (w.connections.get? n).map fun x => if x.stream ∈ l then x.wornDown else x
  counters : ∀ b, u.countersOf b =
    if b = w.brokerOf c then
      (w.countersOf b).withCloses l.length (l.countP fun s => (u.shutFault s).isSome)
    else w.countersOf b

/-- A connection of a stream that has been closed is at its end. -/
theorem Wired.wornDown_of_closed {J : CallId → Option (StreamId × Job)} {x : Connection}
    (wired : w.Wired J) (hx : w.connections.get? n = some x)
    (down : (w.stream x.stream).lifecycle = .closed) : x.wornDown = x := by
  have fit := wired.fit x.stream
  have link := wired.pumped hx
  -- The connection of a closed stream is shut down, or was lost.
  have ended : ∀ {state}, (w.stream x.stream).link? = some (n, state) → state.wornDown = state := by
    intro state hl
    cases hp : (w.stream x.stream).pump with
    | idle => simp [Stream.link?, hp] at hl
    | reading k | stopped k => simp [Stream.IsFit, down, hp] at fit
    | crashed k message =>
      simp only [Stream.link?, hp, Option.some.injEq, Prod.mk.injEq] at hl
      rw [← hl.2]
      rfl
    | collected k =>
      simp only [Stream.IsFit, down, hp] at fit
      simp only [Stream.link?, hp, fit.2, down, Option.some.injEq, Prod.mk.injEq] at hl
      rw [← hl.2]
      rfl
  have state : x.state.wornDown = x.state := by
    cases hs : x.state with
    | dialing | refused | forsaken => rfl
    | live | shutting | shut | dropped =>
      rw [hs] at link
      exact ended (link rfl)
  rw [Connection.wornDown, state]

section End

variable {J : CallId → Option (StreamId × Job)} (h : Wears l w u) (wired : u.Wired J)
  (down : ∀ s ∈ l, (u.stream s).lifecycle = .closed ∧ (u.stream s).pump ≠ .idle)

include h wired down

/-- Streams that were connected are at their end once they have been closed. -/
theorem Wears.streams_of_closed (up : ∀ s ∈ l, (w.stream s).lifecycle = .connected) (s : StreamId) :
    u.stream s = if s ∈ l then (w.stream s).wornDown else w.stream s := by
  split
  · rename_i hs
    obtain ⟨closed, shut⟩ := down s hs
    rw [← h.worn, Stream.wornDown_of_closed (wired.fit s) (h.halts s (.inl (up s hs))) closed shut]
  · exact h.apart s ‹_›

/-- Connections are at their end once their streams have been closed. -/
theorem Wears.connections_of_closed (n : ConnectionId) : u.connections.get? n =
    (w.connections.get? n).map fun x => if x.stream ∈ l then x.wornDown else x := by
  have links := h.links n
  cases hx : w.connections.get? n with
  | none =>
    rw [hx, Option.map_none, Option.map_eq_none_iff] at links
    exact links
  | some x =>
    rw [Option.map_some]
    split
    · rename_i hs
      rw [hx, Option.map_some, Option.map_eq_some_iff] at links
      obtain ⟨y, hy, same⟩ := links
      have own : y.wornDown.stream = x.wornDown.stream := by rw [same]
      have closed : (u.stream y.stream).lifecycle = .closed := by
        rw [show y.stream = x.stream from own]
        exact (down _ hs).1
      rw [hy, ← same, wired.wornDown_of_closed hy closed]
    · exact h.unlinked hx ‹_›

end End

/-- Left to itself, a sweep comes to the one state that is known from the start. -/
theorem Regular.settles (reg : w.Regular) (place : w.phaseOf c = .sweepStart)
    (perm : l ~ w.listed (w.brokerOf c)) (quiet : ∀ m ∈ moves, m.IsQuiet c l)
    (past : ((w.sweepIn c l).run moves).phaseOf c = .finished o) :
    w.Settles ((w.sweepIn c l).run moves) c l := by
  have there : c < w.calls.size := w.lt_of_phaseOf c (by simp [place])
  have seated : w.brokerOf c < w.brokers.size := reg.sound.flight.seated c (by rw [place]; rfl)
  have reg₁ := reg.sweepIn place perm
  have place₁ : (w.sweepIn c l).phaseOf c = .sweeping none l 0 := by
    rw [phaseOf_sweepIn there, if_pos rfl]
  have begun := reg₁.sweeping place₁
  have spares := begun.spares_run reg₁ quiet past
  have ended := begun.run reg₁ moves
  have reg₂ := reg₁.run moves
  rw [List.nil_append] at ended
  obtain ⟨rfl, all⟩ := ended.finished past
  have first : Advance c (.sweeping none l 0) [] none w (w.sweepIn c l) :=
    ((Advance.of_hushed ((Hushed.refl w).setSlots _ _) c).setPhase there _).setPhase there _
  have down : ∀ s ∈ l, (((w.sweepIn c l).run moves).stream s).lifecycle = .closed ∧
      (((w.sweepIn c l).run moves).stream s).pump ≠ .idle := by
    intro s hs
    have listed : (s, ((w.sweepIn c l).run moves).shutResult s) ∈
        (w.sweepIn c l).along (teardownsBy c) moves := by
      rw [all]
      exact List.mem_map_of_mem hs
    exact ⟨(ended.buried _ listed).closed, ended.pumped _ listed⟩
  have up : ∀ s ∈ l, ((w.sweepIn c l).stream s).lifecycle = .connected := fun s hs =>
    reg₁.poised.ahead (c := c) (by rw [place₁]; exact hs)
  refine ⟨past, fun d hd => ?_, fun d => ?_, spares.slots, spares.consumers,
    spares.streams_of_closed reg₂.wired down up, spares.connections_of_closed reg₂.wired down, fun b => ?_⟩
  · rw [spares.phaseOf d hd, first.phaseOf, if_neg hd]
  · rw [spares.announced, first.announced, Option.none_or, ite_self]
  · have counted := begun.counters_run reg₁ quiet b
    rw [all, List.length_map, countP_failsToShut, first.brokerOf, first.brokers, first.counters,
      Counters.recordAll_nil, ite_self] at counted
    rw [counted]
    by_cases hb : b = w.brokerOf c
    · rw [if_pos ⟨hb, hb ▸ seated⟩, if_pos hb]
    · rw [if_neg fun hn => hb hn.1, if_neg hb]

/-! ### The order of closes -/

/-- In two states calls, slots, consumers, streams, connections and counters stand the same, and the same
connections have been shut down. -/
structure Agrees (u u' : System) : Prop where
  phaseOf : ∀ d, u'.phaseOf d = u.phaseOf d
  announced : ∀ d, u'.announcedBy d = u.announcedBy d
  slots : ∀ b k, u'.slot b k = u.slot b k
  consumers : u'.consumers = u.consumers
  streams : ∀ s, u'.stream s = u.stream s
  connections : ∀ n, u'.connections.get? n = u.connections.get? n
  counters : ∀ b, u'.countersOf b = u.countersOf b
  shutdowns : ∀ n, u'.shutdownsOf n = u.shutdownsOf n

theorem Settles.agrees {J J' : CallId → Option (StreamId × Job)} (h : w.Settles u c l)
    (h' : w.Settles u' c l') (perm : l' ~ l) (wired : u.Wired J) (wired' : u'.Wired J') :
    Agrees u u' := by
  have streams : ∀ s, u'.stream s = u.stream s := fun s => by
    simp only [h.streams, h'.streams, perm.mem_iff]
  have connections : ∀ n, u'.connections.get? n = u.connections.get? n := fun n => by
    simp only [h.connections, h'.connections, perm.mem_iff]
  have faults : ∀ s, u'.shutFault s = u.shutFault s := fun s => by
    simp only [shutFault, streams, connection, connections]
  refine ⟨fun d => ?_, fun d => (h'.announced d).trans (h.announced d).symm,
    fun b k => (h'.slots b k).trans (h.slots b k).symm, h'.consumers.trans h.consumers.symm, streams,
    connections, fun b => ?_, fun n => ?_⟩
  · by_cases hd : d = c
    · rw [hd, h.outcome, h'.outcome, perm.length_eq]
    · rw [h.phaseOf d hd, h'.phaseOf d hd]
  · rw [h.counters, h'.counters, perm.length_eq]
    simp only [faults]
    rw [perm.countP_eq]
  · rw [(wired.seen n).1, (wired'.seen n).1, connections]

/-! ### Every run -/

/-- Let a call be about to sweep its broker, at any moment of any run. In whatever order `l` it closes
the streams and whatever moves come `after`: with its first turn it takes all streams off the lists of
the broker, where just the keys with an open in flight stay. From then on these streams are on no list and
nobody else is at work on them or closes them, the call works on none but them, and its turns leave all
else as it is: opens in flight, their marks and those who wait for them, and what is listed. An open that
comes to a consumer has its stream listed. If the call comes to its end, it gives the number of streams
that were listed; it has closed each of them once, its connection was shut down once unless its pump had
died, and the call has added that number to the closes of its broker, and to the failed closes the number
of those whose shutdown failed. Left to itself, the call comes to the same state in whatever order it
closes the streams. -/
theorem sweep_closes_listed (configs : List BrokerConfig) (desk : AccessDesk) (terms : List TunerTerms)
    (before : List Move) (c : CallId) (l : List StreamId) (after : List Move) :
    let w := (fresh configs desk terms).run before
    let b := w.brokerOf c
    let v := w.sweepIn c l
    let u := v.run after
    let torn := v.along (teardownsBy c) after
    w.phaseOf c = .sweepStart → l ~ w.listed b →
      w.step (.turn (.call c)) = w.sweepIn c (w.listed b) ∧ w.Cleared v c ∧ u.Underway c l ∧
      l.Nodup ∧ torn.map (·.1) <+: l ∧
      (∀ d ≠ c, ∀ x ∈ v.along (teardownsBy d) after, x.1 ∉ l) ∧
      (∀ o, u.phaseOf c = .finished o → o = .swept (w.streamCount b) ∧
        torn = l.map (fun s => (s, u.shutResult s)) ∧
        (∀ s ∈ l, (u.stream s).lifecycle = .closed ∧ u.IsDone s) ∧
        (v.along (adds Counters.closes b c) after).sum = .ofNat (w.streamCount b) ∧
        (v.along (adds Counters.closeFailures b c) after).sum =
          .ofNat (l.countP fun s => (u.shutFault s).isSome)) ∧
      ∀ l' moves moves' o o', l' ~ w.listed b → (∀ m ∈ moves, m.IsQuiet c l) →
        (∀ m ∈ moves', m.IsQuiet c l) → (v.run moves).phaseOf c = .finished o →
        ((w.sweepIn c l').run moves').phaseOf c = .finished o' →
        Agrees (v.run moves) ((w.sweepIn c l').run moves') := by
  intro w b v u torn place perm
  have reg : w.Regular := (regular_fresh configs desk terms).run before
  have there : c < w.calls.size := w.lt_of_phaseOf c (by simp [place])
  have seated : b < w.brokers.size := reg.sound.flight.seated c (by rw [place]; rfl)
  have reg₁ : v.Regular := reg.sweepIn place perm
  have begun : v.Sweeping c l [] :=
    reg₁.sweeping (by rw [phaseOf_sweepIn there, if_pos rfl])
  have run : u.Sweeping c l torn := begun.run reg₁ after
  have reg₂ : u.Regular := reg₁.run after
  have count : l.length = w.streamCount b := by rw [streamCount_eq_length, perm.length_eq]
  have brokers : v.brokerOf c = b := by simp [v, b, System.sweepIn]
  have size : v.brokers.size = w.brokers.size := by simp [v, System.sweepIn, sweep]
  refine ⟨step_sweepStart place, reg.cleared place l, run.underway reg₂, run.nodup, run.closed_prefix,
    fun d hd => begun.not_mem_teardowns_run reg₁ hd after, fun o past => ?_, ?_⟩
  · obtain ⟨rfl, all⟩ := run.finished past
    have counted : ∀ {f g}, Tallies f g → (v.along (adds f b c) after).sum = .ofNat (g torn) := by
      intro f g tallies
      have added := begun.sum_adds_run reg₁ tallies (brokers ▸ size ▸ seated) after
      rwa [brokers] at added
    refine ⟨by rw [count], all, fun s hs => run.done reg₂ ?_, ?_, ?_⟩
    · rw [all, List.map_map]
      exact List.mem_map.2 ⟨s, hs, rfl⟩
    · rw [counted tallies_closes, all, List.length_map, count]
    · rw [counted tallies_closeFailures, all, countP_failsToShut]
  · intro l' moves moves' o o' perm' quiet quiet' past past'
    have same : l' ~ l := perm'.trans perm.symm
    have settled := reg.settles place perm quiet past
    have settled' := reg.settles place perm' (fun m hm => (quiet' m hm).congr same.symm) past'
    exact settled.agrees settled' same (reg₁.run moves).wired ((reg.sweepIn place perm').run moves').wired

/-- The sample source ends and another stream replaces it; then a call is about to sweep the broker. -/
def sweepIsToCome : List Move :=
  oneComes ++ [.deliver 0 .finish, .start 0 false sampleErrand, .turn (.call 1), .turn (.call 1),
    .turn (.call 1), .start 0 false .sweep]

/-- The older stream is closed and then the newer one. -/
def olderFirst : List Move :=
  [.turn (.call 2), .turn (.call 2), .turn (.call 2), .turn (.call 2), .turn (.pump 1), .turn (.call 2),
    .turn (.call 2), .turn (.call 2)]

/-- The newer stream is closed and then the older one. -/
def newerFirst : List Move :=
  [.turn (.call 2), .turn (.pump 1), .turn (.call 2), .turn (.call 2), .turn (.call 2), .turn (.call 2),
    .turn (.call 2), .turn (.call 2)]

/-- The older stream is closed and then the newer one, while another consumer comes for their source. -/
def olderFirstAmongOthers : List Move :=
  [.turn (.call 2), .start 0 false sampleErrand, .turn (.call 3), .turn (.call 2), .turn (.call 3),
    .turn (.call 2), .turn (.call 2), .turn (.call 3), .turn (.pump 1), .turn (.call 2), .turn (.call 2),
    .turn (.call 2)]

/-- The tuner fails to shut the second connection down. -/
def secondStuck : List TunerTerms := [{}, { shutdownFailure := some "reset" }]

theorem sweep_closes_listed_olderFirst :
    let w := (fresh [{}] {} secondStuck).run sweepIsToCome
    let b := w.brokerOf 2
    let v := w.sweepIn 2 [0, 1]
    let u := v.run olderFirstAmongOthers
    w.phaseOf 2 = .sweepStart ∧ [0, 1] ~ w.listed b ∧ w.streamCount b = 2 ∧
      u.phaseOf 2 = .finished (.swept 2) ∧
      v.along (teardownsBy 2) olderFirstAmongOthers = [0, 1].map (fun s => (s, u.shutResult s)) ∧
      (v.along (adds Counters.closes b 2) olderFirstAmongOthers).sum = .ofNat (w.streamCount b) ∧
      (v.along (adds Counters.closeFailures b 2) olderFirstAmongOthers).sum = 1 ∧
      u.IsDone 0 ∧ u.IsDone 1 ∧ u.listed b = [2] ∧ u.Underway 2 [0, 1] ∧
      Agrees (v.run olderFirst) ((w.sweepIn 2 [1, 0]).run newerFirst) := by
  intro w b v u
  have place : w.phaseOf 2 = .sweepStart := rfl
  have listed : w.listed b = [1, 0] := by decide +kernel
  have perm : [0, 1] ~ w.listed b := listed ▸ .swap 1 0 []
  have two : w.streamCount b = 2 := by decide +kernel
  have ended : u.phaseOf 2 = .finished (.swept 2) := Phase.eq_of_swept? (by decide +kernel)
  obtain ⟨-, -, underway, -, -, -, finished, order⟩ :=
    sweep_closes_listed [{}] {} secondStuck sweepIsToCome 2 [0, 1] olderFirstAmongOthers place perm
  obtain ⟨-, torn, done, closes, failures⟩ := finished _ ended
  have agrees := order [1, 0] olderFirst newerFirst (.swept 2) (.swept 2) (listed ▸ .refl _)
    (by simp [olderFirst, Move.IsQuiet]) (by simp [newerFirst, Move.IsQuiet])
    (Phase.eq_of_swept? (by decide +kernel)) (Phase.eq_of_swept? (by decide +kernel))
  refine ⟨place, perm, two, ended, torn, closes, failures.trans ?_, (done 0 (by decide)).2,
    (done 1 (by decide)).2, by decide +kernel, underway, agrees⟩
  decide +kernel

end System

end TunerBroker
