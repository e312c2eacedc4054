import TunerBroker.Proofs.Closes.Release
import TunerBroker.Proofs.Closes.SweepRuns

/-! Consumers that leave. Whatever order they go in, their going changes nothing but what can be said
beforehand: they are counted out, streams without consumers leave the lists, and streams that are closed
go towards the end known from the start. -/

namespace TunerBroker

theorem Table.ext_get? {α : Type} {t t' : Table α} (h : ∀ i, t.get? i = t'.get? i) : t = t' := by
  cases t
  cases t'
  exact congrArg Table.mk (List.ext_getElem? h)

namespace Slot

/-- The slot with some of its streams only. -/
def only (x : Slot) (p : StreamId → Bool) : Slot :=
  { x with shared := x.shared.filter p, unshared := x.unshared.filter p }

variable {x : Slot} {p q : StreamId → Bool} {s : StreamId}

theorem only_congr (h : ∀ t ∈ x.streams, p t = q t) : x.only p = x.only q := by
  have shared : x.shared.filter p = x.shared.filter q := by
    cases hx : x.shared with
    | none => rfl
    | some t => simp [Option.filter_some, h t ((mem_streams _ _).2 (.inl hx))]
  have unshared : x.unshared.filter p = x.unshared.filter q :=
    List.filter_congr fun t ht => h t ((mem_streams _ _).2 (.inr ht))
  rw [only, only, shared, unshared]

theorem mem_streams_only (x : Slot) (p : StreamId → Bool) :
    s ∈ (x.only p).streams ↔ s ∈ x.streams ∧ p s := by
  simp only [mem_streams, only, List.mem_filter, Option.filter_eq_some_iff, or_and_right]

theorem only_self (h : ∀ t ∈ x.streams, p t) : x.only p = x := by
  have all : x.only p = x.only fun _ => true := only_congr h
  rw [all]
  obtain ⟨shared, unshared, opening⟩ := x
  cases shared <;> simp [only]

theorem only_only (x : Slot) (p q : StreamId → Bool) :
    (x.only p).only q = x.only fun t => p t && q t := by
  have shared : (x.shared.filter p).filter q = x.shared.filter fun t => p t && q t := by
    cases x.shared with
    | none => rfl
    | some t => cases hp : p t <;> simp [Option.filter_some, hp]
  have unshared : (x.unshared.filter p).filter q = x.unshared.filter fun t => p t && q t := by
    rw [List.filter_filter]
    exact List.filter_congr fun t _ => Bool.and_comm _ _
  rw [only, only, only, shared, unshared]

/-- To take a stream off the list is to keep the others. -/
theorem deregister_eq_only (nodup : x.streams.Nodup) : x.deregister s = x.only (· ≠ s) := by
  rw [nodup_streams] at nodup
  obtain ⟨shared, unshared, opening⟩ := x
  simp only [deregister, only]
  split
  · rename_i hs
    obtain rfl : shared = some s := hs
    have others : unshared.filter (· ≠ s) = unshared :=
      List.filter_eq_self.2 fun t ht => decide_eq_true fun he => nodup.1 s rfl (he ▸ ht)
    rw [others]
    simp [Option.filter_some]
  · rename_i hs
    cases shared with
    | none => rfl
    | some t =>
      have : t ≠ s := fun he => hs (he ▸ rfl)
      simp [Option.filter_some, this]

end Slot

namespace Stream

/-- The stream, however many consumers it counts. -/
def uncounted (x : Stream) : Stream := { x with consumers := 0 }

/-- The stream once its pump has stopped, if the pump has been told to. -/
def halted (x : Stream) : Stream :=
  match x.pump with
  | .reading n =>
    if x.stopping then
      { x with feed := false, pump := if x.detached then .collected n else .stopped n }
    else x
  | _ => x

variable {x y : Stream}

theorem eq_of_uncounted (h : y.uncounted = x.uncounted) (same : y.consumers = x.consumers) : y = x := by
  cases x
  cases y
  simp only [uncounted, mk.injEq] at h same ⊢
  simp [h, same]

theorem uncounted_wornDown (x : Stream) : x.uncounted.wornDown = x.wornDown.uncounted := rfl

theorem uncounted_halted (x : Stream) : x.uncounted.halted = x.halted.uncounted := by
  cases hp : x.pump with
  | reading n => cases hs : x.stopping <;> simp [halted, uncounted, hp, hs]
  | _ => simp [halted, uncounted, hp]

theorem halted_of_reading {n : ConnectionId} (reading : x.pump = .reading n) (stopping : x.stopping) :
    x.halted = { x with feed := false, pump := if x.detached then .collected n else .stopped n } := by
  simp [halted, reading, stopping]

/-- A stream whose pump has nothing to stop for is as it will be. -/
theorem halted_of_unready (h : (x.pump.isReading && x.stopping) = false) : x.halted = x := by
  unfold halted
  split
  · rename_i n reading
    simp [reading, Pump.isReading] at h
    simp [h]
  · rfl

theorem halted_halted (x : Stream) : x.halted.halted = x.halted := by
  refine halted_of_unready ?_
  cases hp : x.pump with
  | reading n =>
    cases hs : x.stopping with
    | false => simp [halted, hp, hs]
    | true => cases hd : x.detached <;> simp [halted, hp, hs, hd, Pump.isReading]
  | _ => simp [halted, hp, Pump.isReading]

theorem wornDown_halted (x : Stream) : x.halted.wornDown = x.wornDown := by
  cases hp : x.pump with
  | reading n =>
    cases hs : x.stopping with
    | false => simp [halted, hp, hs]
    | true => cases hd : x.detached <;> simp [halted, wornDown, Pump.wornDown, hp, hs, hd]
  | _ => simp [halted, hp]

theorem Halts.halted (h : x.Halts) : x.halted.Halts := by
  unfold Stream.halted
  split
  · split
    · exact h
    · exact h
  · exact h

end Stream

/-- The connection, wherever it stands once the tuner has given it. -/
def Connection.outline (x : Connection) : Connection :=
  { x with state := if x.state.isEstablished then .live else x.state }

theorem Connection.outline_wornDown (x : Connection) : x.wornDown.outline = x.outline := by
  cases hs : x.state <;> simp [outline, wornDown, LinkState.wornDown, LinkState.isEstablished, hs]

/-- The consumer, whatever has become of it. -/
def Consumer.outline (x : Consumer) : Consumer := { x with standing := .held }

namespace System

variable {w w' w'' : System} {b : BrokerId} {c : CallId} {s : StreamId} {n : ConnectionId}
  {i : ConsumerId} {x : Consumer} {q : Standing} {I : Finset ConsumerId} {L : Set StreamId}

/-- From `w` to `w'` nothing changes but that some of the consumers `I` leave: a stream counts those out
that have left it, and is listed only as long as it has others. Pumps that were told to stop may have
stopped, and the streams `L` may have gone towards their end. -/
structure Thins (I : Finset ConsumerId) (L : Set StreamId) (w w' : System) : Prop where
  apart : ∀ j ∉ I, w'.consumers.get? j = w.consumers.get? j
  outline : ∀ j, (w'.consumers.get? j).map Consumer.outline = (w.consumers.get? j).map Consumer.outline
  fewer : ∀ t, w'.unreleased t ≤ w.unreleased t
  slots : ∀ b k, w'.slot b k = (w.slot b k).only fun t => w'.unreleased t ≠ 0
  counts : ∀ t, (w'.stream t).consumers + .ofNat (w.unreleased t) =
    (w.stream t).consumers + .ofNat (w'.unreleased t)
  worn : ∀ t, (w'.stream t).uncounted.wornDown = (w.stream t).uncounted.wornDown
  halts : ∀ t, (w.stream t).Halts → (w'.stream t).Halts
  kept : ∀ t ∉ L, (w'.stream t).uncounted.halted = (w.stream t).uncounted.halted
  links : ∀ n, (w'.connections.get? n).map Connection.outline =
    (w.connections.get? n).map Connection.outline

/-- A stream that is listed has consumers. -/
theorem Ledger.slot_eq_only (l : w.Ledger) (b : BrokerId) (k : SourceKey) :
    w.slot b k = (w.slot b k).only fun t => w.unreleased t ≠ 0 :=
  (Slot.only_self fun _ ht => decide_eq_true (Nat.pos_iff_ne_zero.1 (l.counted ht).some)).symm

theorem unreleased_congr (same : w'.consumers = w.consumers) (t : StreamId) :
    w'.unreleased t = w.unreleased t := by
  rw [unreleased, same, unreleased]

namespace Thins

theorem refl (I : Finset ConsumerId) (L : Set StreamId) (l : w.Ledger) : Thins I L w w :=
  ⟨fun _ _ => rfl, fun _ => rfl, fun _ => Nat.le_refl _, l.slot_eq_only, fun _ => rfl, fun _ => rfl,
    fun _ => id, fun _ _ => rfl, fun _ => rfl⟩

theorem trans (h : Thins I L w w') (g : Thins I L w' w'') : Thins I L w w'' where
  apart j hj := (g.apart j hj).trans (h.apart j hj)
  outline j := (g.outline j).trans (h.outline j)
  fewer t := (g.fewer t).trans (h.fewer t)
  slots b k := by
    rw [g.slots, h.slots, Slot.only_only]
    refine Slot.only_congr fun t _ => ?_
    have := g.fewer t
    by_cases hw' : w'.unreleased t = 0
    · have : w''.unreleased t = 0 := by omega
      simp [*]
    · simp [hw']
  counts t := by
    have h := h.counts t
    have g := g.counts t
    grind
  worn t := (g.worn t).trans (h.worn t)
  halts t ht := g.halts t (h.halts t ht)
  kept t ht := (g.kept t ht).trans (h.kept t ht)
  links n := (g.links n).trans (h.links n)

end Thins

/-- Nothing changes but the standing of one consumer, that is not counted out. -/
theorem thins_setStanding (l : w.Ledger) (hi : i ∈ I) (there : w.consumers.get? i = some x)
    (counted : x.standing ≠ .released) (hq : q ≠ .released)
    (consumers : w'.consumers = (w.setStanding i q).consumers) (slots : ∀ b k, w'.slot b k = w.slot b k)
    (streams : ∀ t, w'.stream t = w.stream t) (connections : w'.connections = w.connections) :
    Thins I L w w' := by
  have same : ∀ t, w'.unreleased t = w.unreleased t := fun t => by
    have left := unreleased_setStanding (s := t) (q := q) there counted
    rw [if_neg fun h => hq h.2, Nat.add_zero] at left
    rw [← left]
    exact unreleased_congr consumers t
  refine { Thins.refl I L l with
    apart := fun j hj => ?_
    outline := fun j => ?_
    fewer := fun t => (same t).le
    slots := fun b k => ?_
    counts := fun t => by rw [streams, same]
    worn := fun t => by rw [streams]
    halts := fun t => by rw [streams]; exact id
    kept := fun t _ => by rw [streams]
    links := fun n => by rw [connections] }
  · rw [consumers, get?_setStanding, if_neg (by rintro rfl; exact hj hi)]
  · rw [consumers, get?_setStanding]
    split
    · cases w.consumers.get? j <;> rfl
    · rfl
  · rw [slots]
    simp only [same]
    exact l.slot_eq_only b k

theorem stream_endPump (made : s < w.streams.size) (reading : (w.stream s).pump = .reading n)
    (stopping : (w.stream s).stopping) (t : StreamId) :
    (w.endPump s n).stream t = if t = s then (w.stream s).halted else w.stream t := by
  rw [Stream.halted_of_reading reading stopping, endPump]
  by_cases ht : t = s
  · rw [if_pos ht, ht]
    split
    · show (w.setStream s _).stream s = _
      rw [stream_setStream_self _ _ _ made]
    · rw [stream_setStream_self _ _ _ made]
  · rw [if_neg ht]
    split
    · exact stream_setStream_ne _ _ _ _ ht
    · exact stream_setStream_ne _ _ _ _ ht

/-- A pump that was told to stop does so. -/
theorem thins_endPump {J : CallId → Option (StreamId × Job)} (l : w.Ledger) (wired : w.Wired J)
    (reading : (w.stream s).pump = .reading n) (stopping : (w.stream s).stopping) :
    Thins I L w (w.endPump s n) := by
  have made : s < w.streams.size := lt_of_pump (by rw [reading]; rintro ⟨⟩)
  obtain ⟨x, hx, -, live⟩ := wired.linked (s := s) (n := n) (l := .live) (by rw [Stream.link?, reading])
  have stream := stream_endPump made reading stopping
  have slots : ∀ b k, (w.endPump s n).slot b k = w.slot b k := by
    intro b k
    rw [endPump]
    split <;> rfl
  have consumers : (w.endPump s n).consumers = w.consumers := by
    rw [endPump]
    split <;> rfl
  have same := unreleased_congr consumers
  have links : ∀ k, ((w.endPump s n).connections.get? k).map Connection.outline =
      (w.connections.get? k).map Connection.outline := by
    intro k
    rw [endPump]
    split
    · show ((w.connections.update n _).get? k).map _ = _
      rw [Table.get?_update]
      split
      · rename_i hk
        rw [hk, hx]
        simp [Connection.outline, live, LinkState.isEstablished]
      · rfl
    · rfl
  refine ⟨fun j _ => by rw [consumers], fun j => by rw [consumers], fun t => (same t).le,
    fun b k => ?_, fun t => ?_, fun t => ?_, fun t ht => ?_, fun t _ => ?_, links⟩
  · rw [slots]
    simp only [same]
    exact l.slot_eq_only b k
  all_goals rw [stream]
  · rw [same]
    split
    · rename_i ht
      rw [ht, Stream.halted_of_reading reading stopping]
    · rfl
  · split
    · rename_i ht
      rw [ht, Stream.uncounted_wornDown, Stream.wornDown_halted, Stream.uncounted_wornDown]
    · rfl
  · split
    · rename_i hts
      exact (hts ▸ ht).halted
    · exact ht
  · split
    · rename_i ht
      rw [ht, Stream.uncounted_halted, Stream.halted_halted, Stream.uncounted_halted]
    · rfl

/-- A close goes on, of a stream among `L`. -/
theorem Wears.thins (h : Wears [s] w w') (l : w.Ledger) (hs : s ∈ L) : Thins I L w w' := by
  have same := unreleased_congr h.consumers
  refine ⟨fun j _ => by rw [h.consumers], fun j => by rw [h.consumers], fun t => (same t).le,
    fun b k => ?_, fun t => ?_, fun t => ?_, h.halts, fun t ht => ?_, fun n => ?_⟩
  · rw [h.slots]
    simp only [same]
    exact l.slot_eq_only b k
  · have consumers := congrArg Stream.consumers (h.worn t)
    rw [same, show (w'.stream t).consumers = (w.stream t).consumers from consumers]
  · rw [Stream.uncounted_wornDown, h.worn, Stream.uncounted_wornDown]
  · rw [h.apart t fun hn => ht (List.mem_singleton.1 hn ▸ hs)]
  · have worn := congrArg (Option.map Connection.outline) (h.links n)
    simpa [Function.comp_def, Connection.outline_wornDown] using worn

namespace CountsOut

variable (h : w.CountsOut w' i x) (there : w.consumers.get? i = some x)

include h there

theorem consumers : w'.consumers = (w.setStanding i .released).consumers := by
  refine Table.ext_get? fun j => ?_
  rw [h.standing, get?_setStanding]
  split
  · rename_i hj
    rw [hj, there]
    rfl
  · rfl

variable (counted : x.standing ≠ .released)

include counted

/-- The stream has one consumer less to count out. -/
theorem unreleased (t : StreamId) :
    w'.unreleased t + (if x.stream = t then 1 else 0) = w.unreleased t := by
  have left := unreleased_setStanding (s := t) (q := .released) there counted
  simp only [and_true] at left
  rw [unreleased_congr (h.consumers there) t]
  exact left

/-- A consumer is counted out, and its stream is listed only as long as it has others. -/
theorem thins (hi : i ∈ I)
    (slots : ∀ b k, w'.slot b k = (w.slot b k).only fun t => w'.unreleased t ≠ 0) : Thins I L w w' := by
  have fewer := h.unreleased there counted
  have streams : ∀ t, (w'.stream t).uncounted = (w.stream t).uncounted ∧
      (w'.stream t).consumers + .ofNat (w.unreleased t) =
        (w.stream t).consumers + .ofNat (w'.unreleased t) ∧
      ((w.stream t).Halts → (w'.stream t).Halts) := by
    intro t
    by_cases ht : t = x.stream
    · rw [ht, h.stream, ← fewer, if_pos rfl, UInt32.ofNat_add]
      exact ⟨rfl, by grind, id⟩
    · rw [h.others t ht, ← fewer t, if_neg (Ne.symm ht), Nat.add_zero]
      exact ⟨rfl, rfl, id⟩
  refine ⟨fun j hj => ?_, fun j => ?_, fun t => ?_, slots, fun t => (streams t).2.1,
    fun t => by rw [(streams t).1], fun t => (streams t).2.2, fun t _ => by rw [(streams t).1],
    fun n => by rw [h.connections]⟩
  · rw [h.standing, if_neg (by rintro rfl; exact hj hi)]
  · rw [h.standing]
    split
    · rename_i hj
      rw [hj, there]
      rfl
    · rfl
  · exact (fewer t).le.trans' (Nat.le_add_right _ _)

end CountsOut

end System

end TunerBroker
