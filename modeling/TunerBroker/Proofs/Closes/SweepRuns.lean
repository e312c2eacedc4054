import Mathlib.Data.UInt
import TunerBroker.Proofs.Closes.Wear

/-! Sweeps among other calls. With its first turn a sweep clears the lists of its broker and leaves
everything else; from then on it has its streams to itself, spares all others, and counts what it
closes; and when it ends, each of its streams has been closed. -/

namespace TunerBroker

open scoped List

namespace Counters

/-- The counters with some more closes, and some of them failed. -/
def withCloses (x : Counters) (closes failures : Nat) : Counters :=
  { x with closes := x.closes + .ofNat closes, closeFailures := x.closeFailures + .ofNat failures }

theorem recordAll_append (x : Counters) (ticks ticks' : List Tick) :
    x.recordAll (ticks ++ ticks') = (x.recordAll ticks).recordAll ticks' := List.foldl_append

theorem withCloses_zero (x : Counters) : x.withCloses 0 0 = x := by simp [withCloses]

theorem withCloses_withCloses (x : Counters) (m n m' n' : Nat) :
    (x.withCloses m n).withCloses m' n' = x.withCloses (m + m') (n + n') := by
  simp [withCloses, UInt64.ofNat_add, UInt64.add_assoc]

end Counters

theorem Phase.mem_closes_of_closing? {p : Phase} {s : StreamId} {stage : Option CloseStage}
    (h : p.closing? = some (s, stage)) : s ∈ p.closes := by
  cases hc : p.closes with
  | nil =>
    rw [closing?_of_closes_eq_nil hc] at h
    cases h
  | cons t rest =>
    obtain ⟨x, hx⟩ := closing?_of_closes hc
    obtain ⟨rfl, -⟩ := Prod.mk.inj (Option.some.inj (hx.symm.trans h))
    exact List.mem_cons_self

theorem Move.IsQuiet.actor {m : Move} {c d : CallId} {l : List StreamId} (h : m.IsQuiet c l)
    (hd : m.actor = some d) : d = c := by
  cases m with
  | turn r =>
    cases r with
    | call e => exact (Option.some.inj hd).symm.trans h
    | pump s => cases hd
  | elapse ms => cases hd
  | _ => cases h

theorem Move.IsQuiet.congr {m : Move} {c : CallId} {l l' : List StreamId} (h : m.IsQuiet c l)
    (perm : l ~ l') : m.IsQuiet c l' := by
  cases m with
  | turn r =>
    cases r with
    | call d => exact h
    | pump s => exact perm.mem_iff.1 h
  | elapse ms => trivial
  | _ => cases h

namespace System

variable {m : Move} {w w' w'' : System} {c d : CallId} {s : StreamId}
  {l : List StreamId} {closed torn : List (StreamId × Except StreamError Unit)}

/-- The ends of closes that have come out as they had to are counted, in whatever order. -/
theorem recordAll_closeTicks (results : ∀ x ∈ torn, x.2 = w.shutResult x.1) (x : Counters) :
    x.recordAll (torn.flatMap fun y => closeTicks y.2) =
      x.withCloses torn.length (torn.countP fun y => failsToShut y.2) := by
  induction torn generalizing x with
  | nil => exact x.withCloses_zero.symm
  | cons y torn ih =>
    have one : x.recordAll (closeTicks y.2) = x.withCloses 1 (if failsToShut y.2 then 1 else 0) := by
      rw [results y List.mem_cons_self, failsToShut_shutResult, shutResult]
      cases w.shutFault y.1 with
      | none =>
        show { x with closes := x.closes + 1 } = x.withCloses 1 0
        simp [Counters.withCloses]
      | some f => rfl
    rw [List.flatMap_cons, Counters.recordAll_append, one,
      ih fun z hz => results z (List.mem_cons_of_mem _ hz), Counters.withCloses_withCloses,
      List.length_cons, List.countP_cons, Nat.add_comm torn.length, Nat.add_comm (List.countP _ torn)]

/-! ### The first turn -/

/-- From `w` to `v` the call takes everything off the lists of its broker, where the keys with an open in
flight stay with their marks, and nothing else changes. -/
structure Cleared (w v : System) (c : CallId) : Prop where
  unlisted : ∀ k, v.listedAt (w.brokerOf c) k = []
  none : v.streamCount (w.brokerOf c) = 0
  keys : ∀ k, (v.broker (w.brokerOf c)).slots.contains k ↔ ∃ d, w.Opens d (w.brokerOf c) k
  marks : ∀ b k, (v.slot b k).opening = (w.slot b k).opening
  elsewhere : ∀ b ≠ w.brokerOf c, ∀ k, v.slot b k = w.slot b k
  counters : ∀ b, v.countersOf b = w.countersOf b
  calls : ∀ d ≠ c, v.calls.get? d = w.calls.get? d
  rest : { v with brokers := w.brokers, calls := w.calls } = w

theorem Regular.cleared (h : w.Regular) (place : w.phaseOf c = .sweepStart) (l : List StreamId) :
    w.Cleared (w.sweepIn c l) c := by
  have seated : w.brokerOf c < w.brokers.size := h.sound.flight.seated c (by rw [place]; rfl)
  have slot : ∀ b k, (w.sweepIn c l).slot b k =
      if b = w.brokerOf c then { opening := (w.slot b k).opening } else w.slot b k := fun b k => by
    rw [System.sweepIn, slot_setPhase, slot_sweep]
  have unlisted : ∀ k, (w.sweepIn c l).listedAt (w.brokerOf c) k = [] := fun k => by
    rw [listedAt, slot, if_pos rfl]
    rfl
  refine ⟨unlisted, ?_, fun k => ?_, fun b k => ?_, fun b hb k => ?_, fun b => ?_, fun d hd => ?_, rfl⟩
  · rw [streamCount_eq_length, List.length_eq_zero_iff, List.eq_nil_iff_forall_not_mem]
    intro s hs
    obtain ⟨k, hk⟩ := (mem_listed _ _ _).1 hs
    rw [show ((w.sweepIn c l).slot (w.brokerOf c) k).streams = [] from unlisted k] at hk
    cases hk
  · have slots : ((w.sweepIn c l).broker (w.brokerOf c)).slots =
        (w.broker (w.brokerOf c)).slots.filterMap fun x =>
          if x.opening.isSome then some x.takeStreams.2 else .none := by
      rw [System.sweepIn, broker_setPhase, sweep, broker_setPhase, slots_setSlots, if_pos ⟨rfl, seated⟩]
    simp only [← h.sound.flight.marks, System.slot, slots, Keyed.contains, Keyed.get?_filterMap]
    cases (w.broker (w.brokerOf c)).slots.get? k with
    | none => simp
    | some x => cases ho : x.opening <;> simp [ho]
  · rw [slot]
    split <;> rfl
  · rw [slot, if_neg hb]
  · rw [System.sweepIn, countersOf, broker_setPhase, sweep, broker_setPhase]
    exact countersOf_setSlots b _
  · simp [System.sweepIn, sweep, setPhase, setSlots, Table.get?_update, hd]

/-! ### Later turns -/

/-- From `w` to `w'` nothing changes but what the sweep of a call is to close, no other call moves, and
nothing is announced. -/
structure Spares (c : CallId) (l : List StreamId) (w w' : System) : Prop extends Wears l w w' where
  phaseOf : ∀ d ≠ c, w'.phaseOf d = w.phaseOf d
  announced : ∀ d, w'.announcedBy d = w.announcedBy d

theorem Spares.refl (c : CallId) (l : List StreamId) (w : System) : Spares c l w w :=
  ⟨.refl l w, fun _ _ => rfl, fun _ => rfl⟩

theorem Spares.trans (h : Spares c l w w') (g : Spares c l w' w'') : Spares c l w w'' where
  toWears := h.toWears.trans g.toWears
  phaseOf d hd := (g.phaseOf d hd).trans (h.phaseOf d hd)
  announced d := (g.announced d).trans (h.announced d)

/-- A quiet move is one of the call, or nobody is heard. -/
theorem hushed_quiet (quiet : m.IsQuiet c l) (hm : m.actor ≠ some c) : Hushed w (w.step m) := by
  rcases w.step_course m with ⟨d, actor, -⟩ | ⟨b, gated, errand, rfl, -, -⟩ | ⟨-, hushed⟩
  · exact absurd (quiet.actor actor ▸ actor) hm
  · cases quiet
  · exact hushed

theorem Sweeping.spares (h : w.Sweeping c l closed) (reg : w.Regular) (quiet : m.IsQuiet c l)
    (wears : Wears l w (w.step m)) : Spares c l w (w.step m) := by
  by_cases actor : m.actor = some c
  · obtain ⟨p, adv⟩ := (h.step reg m).2 actor
    exact ⟨wears, fun d hd => by rw [adv.phaseOf, if_neg hd],
      fun d => by rw [adv.announced, Option.none_or, ite_self]⟩
  · have hushed := hushed_quiet (w := w) quiet actor
    exact ⟨wears, fun d _ => hushed.phaseOf d, hushed.announced⟩

/-- What holds at every moment of a sweep: its streams are on no list, and no other call is at work on
them; those it has still to close are among them; marks are those of the opens in flight, and an open that
comes to a consumer has its stream listed; and a turn of the sweep spares everything else. -/
structure Underway (w : System) (c : CallId) (l : List StreamId) : Prop where
  left : ∀ b k, ∀ s ∈ w.listedAt b k, s ∉ l
  alone : ∀ d ≠ c, ∀ s ∈ (w.phaseOf d).holds, s ∉ l
  mine : (w.phaseOf c).closes ⊆ l
  marks : ∀ b k d, (w.slot b k).opening = some d ↔ w.Opens d b k
  registers : ∀ {m d a s moves wait i}, w.phaseOf d = .opening a s moves wait →
    (w.step m).phaseOf d = .finished (.attached i) → s ∈ (w.step m).listedAt (w.brokerOf d) a.key ∧ s ∉ l
  spares : Spares c l w (w.step (.turn (.call c)))

/-! ### What is counted -/

/-- What a move of a call adds to a counter of a broker. -/
def adds (f : Counters → UInt64) (b : BrokerId) (c : CallId) (w : System) (m : Move) : List UInt64 :=
  if m.actor = some c then [f ((w.step m).countersOf b) - f (w.countersOf b)] else []

/-- The counter `f` goes up by the number `g` of teardowns that end. -/
structure Tallies (f : Counters → UInt64) (g : List (StreamId × Except StreamError Unit) → Nat) :
    Prop where
  counts : ∀ x torn, f (x.withCloses torn.length (torn.countP fun y => failsToShut y.2)) =
    f x + .ofNat (g torn)
  append : ∀ torn torn', g (torn ++ torn') = g torn + g torn'

theorem Tallies.nil {f : Counters → UInt64} {g : List (StreamId × Except StreamError Unit) → Nat}
    (tallies : Tallies f g) : g [] = 0 := by
  have twice := tallies.append [] []
  rw [List.append_nil] at twice
  omega

theorem tallies_closes : Tallies Counters.closes List.length :=
  ⟨fun _ _ => rfl, fun _ _ => List.length_append⟩

theorem tallies_closeFailures :
    Tallies Counters.closeFailures (List.countP fun x => failsToShut x.2) :=
  ⟨fun _ _ => rfl, fun _ _ => List.countP_append⟩

namespace Sweeping

variable (h : w.Sweeping c l closed)

include h

/-- A sweep that has come to its end has closed all of its streams. -/
theorem finished {o : Outcome} (past : w.phaseOf c = .finished o) :
    o = .swept l.length ∧ closed = l.map fun s => (s, w.shutResult s) := by
  cases h.stands with
  | under place | left place =>
    rw [past] at place
    cases place
  | past place all =>
    obtain rfl := Phase.finished.inj (past.symm.trans place)
    refine ⟨rfl, ?_⟩
    rw [← all, List.map_map]
    conv_lhs => rw [← List.map_id closed]
    exact List.map_congr_left fun x hx => Prod.ext rfl (h.result x hx)

/-- The sweep closes its streams in their order. -/
theorem closed_prefix : closed.map (·.1) <+: l := by
  cases h.stands with
  | under place order => exact ⟨_, order.symm⟩
  | past place all => exact all ▸ List.prefix_refl _
  | left place part => exact part

/-- Nobody but the sweep takes the close of one of its streams to the end. -/
theorem not_mem_teardownsBy (hd : d ≠ c) (m : Move) : ∀ x ∈ w.teardownsBy d m, x.1 ∉ l := by
  intro x hx hs
  obtain ⟨e, he, torn⟩ := List.mem_flatMap.1 hx
  obtain rfl : e = d := of_decide_eq_true (List.mem_filter.1 he).2
  rw [tornDown] at torn
  split at torn
  swap
  · cases torn
  split at torn
  · rename_i t stage closing
    split at torn
    · obtain rfl := List.mem_singleton.1 torn
      have holds := Phase.owns_subset _ (Phase.closes_subset _ (Phase.mem_closes_of_closing? closing))
      exact hd ((h.sealing t hs).alone e holds)
    · cases torn
  · cases torn

variable (reg : w.Regular)

include reg

/-- What a sweep has closed is closed for good, its connection shut down once unless its pump had died. -/
theorem done (hs : s ∈ closed.map (·.1)) : (w.stream s).lifecycle = .closed ∧ w.IsDone s := by
  obtain ⟨x, hx, rfl⟩ := List.mem_map.1 hs
  have down := (h.buried x hx).closed
  obtain ⟨n, connection⟩ := Option.ne_none_iff_exists'.1 fun none =>
    h.pumped x hx (Pump.connection?_eq_none.1 none)
  exact ⟨down, reg.wired.done_of_closed down connection⟩

theorem underway : w.Underway c l where
  left b k s listed hs := (h.sealing s hs).spent.unlisted b k listed
  alone d hd s holds hs := hd ((h.sealing s hs).alone d holds)
  mine := h.closes_subset
  marks := reg.sound.flight.marks
  registers place next := by
    have listed := (reg.sound.enlists ⟨rfl, _, _, _, place, rfl⟩ next).listed _ |>.2 (.inr rfl)
    exact ⟨listed, fun hs => ((h.sealing _ hs).step reg.ledger reg.sound _).spent.unlisted _ _ listed⟩
  spares := h.spares reg rfl (h.wears_turn reg)

/-- A move of the sweep counts the close it takes to its end, and nothing else. -/
theorem counters (actor : m.actor = some c) (b : BrokerId) : (w.step m).countersOf b =
    if b = w.brokerOf c ∧ b < w.brokers.size then
      (w.countersOf b).withCloses (w.teardownsBy c m).length
        ((w.teardownsBy c m).countP fun x => failsToShut x.2)
    else w.countersOf b := by
  obtain ⟨next, counted⟩ := h.step reg m
  obtain ⟨p, adv⟩ := counted actor
  have results : ∀ x ∈ w.teardownsBy c m, x.2 = (w.step m).shutResult x.1 := fun x hx =>
    next.result x (List.mem_append_right _ hx)
  rw [adv.counters, recordAll_closeTicks results]

theorem sum_adds {f : Counters → UInt64} {g : List (StreamId × Except StreamError Unit) → Nat}
    (tallies : Tallies f g) (seated : w.brokerOf c < w.brokers.size) (m : Move) :
    (w.adds f (w.brokerOf c) c m).sum = .ofNat (g (w.teardownsBy c m)) := by
  rw [adds]
  split
  · rename_i actor
    rw [h.counters reg actor, if_pos ⟨rfl, seated⟩, tallies.counts, List.sum_singleton]
    rw [UInt64.add_comm, UInt64.add_sub_cancel]
  · rw [teardownsBy_eq_nil ‹_›, tallies.nil]
    rfl

/-- What a sweep adds to a counter in a run is the number of teardowns that the counter counts. -/
theorem sum_adds_run {f : Counters → UInt64} {g : List (StreamId × Except StreamError Unit) → Nat}
    (tallies : Tallies f g) (seated : w.brokerOf c < w.brokers.size) (moves : List Move) :
    (w.along (adds f (w.brokerOf c) c) moves).sum = .ofNat (g (w.along (teardownsBy c) moves)) := by
  induction moves using List.reverseRecOn with
  | nil =>
    rw [show w.along (teardownsBy c) [] = [] from rfl, tallies.nil]
    rfl
  | append_singleton moves m ih =>
    have here := (h.run reg moves).sum_adds (reg.run moves) tallies
    rw [(run_keeps h.there moves).2, brokers_size_run] at here
    rw [along_concat, along_concat, List.sum_append, ih, here seated m, tallies.append,
      UInt64.ofNat_add]

/-- Nobody but the sweep closes any of its streams in a run. -/
theorem not_mem_teardowns_run (hd : d ≠ c) (moves : List Move) :
    ∀ x ∈ w.along (teardownsBy d) moves, x.1 ∉ l := by
  induction moves using List.reverseRecOn with
  | nil => rintro _ ⟨⟩
  | append_singleton moves m ih =>
    rw [along_concat]
    intro x hx
    rcases List.mem_append.1 hx with hx | hx
    · exact ih x hx
    · exact (h.run reg moves).not_mem_teardownsBy hd m x hx

end Sweeping

end System

end TunerBroker
