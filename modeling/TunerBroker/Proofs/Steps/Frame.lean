import TunerBroker.Proofs.Steps.View
import Mathlib.Data.Set.Insert

/-! Work beside the books. Opening and closing a stream, its pump, the log and the counters leave the
places of the calls, the slots and the consumers as they are. Such work is confined to a set of
streams: elsewhere no stream changes its place in life, and no feed opens. -/

namespace TunerBroker

/-- What a stream was made with, its consumers and its name are the same. -/
structure Stream.Kin (x y : Stream) : Prop where
  request : y.request = x.request
  sharing : y.sharing = x.sharing
  consumers : y.consumers = x.consumers
  named : y.named = x.named

theorem Stream.Kin.refl (x : Stream) : Kin x x := ⟨rfl, rfl, rfl, rfl⟩

theorem Stream.Kin.trans {x y z : Stream} (h : Kin x y) (g : Kin y z) : Kin x z :=
  ⟨g.request.trans h.request, g.sharing.trans h.sharing, g.consumers.trans h.consumers,
    g.named.trans h.named⟩

theorem Stream.Kin.key {x y : Stream} (h : Kin x y) : y.key = x.key := by simp [Stream.key, h.request]

namespace System

/-- From `w` to `w'` only the streams in `S` are worked on, and the books stay. -/
structure Frame (S : Set StreamId) (w w' : System) : Prop where
  phaseOf : ∀ c, w'.phaseOf c = w.phaseOf c
  brokerOf : ∀ c, w'.brokerOf c = w.brokerOf c
  calls : w'.calls.size = w.calls.size
  slots : ∀ b, (w'.broker b).slots = (w.broker b).slots
  brokers : w'.brokers.size = w.brokers.size
  consumers : w'.consumers = w.consumers
  streams : w'.streams.size = w.streams.size
  kin : ∀ s, (w.stream s).Kin (w'.stream s)
  lifecycle : ∀ s ∉ S, (w'.stream s).lifecycle = (w.stream s).lifecycle
  feed : ∀ s ∉ S, (w'.stream s).feed = true → (w.stream s).feed = true

namespace Frame

variable {S T : Set StreamId} {w w' w'' : System}

theorem refl (w : System) : Frame S w w :=
  ⟨fun _ => rfl, fun _ => rfl, rfl, fun _ => rfl, rfl, rfl, rfl, fun _ => .refl _, fun _ _ => rfl,
    fun _ _ h => h⟩

theorem trans (h : Frame S w w') (g : Frame S w' w'') : Frame S w w'' where
  phaseOf c := (g.phaseOf c).trans (h.phaseOf c)
  brokerOf c := (g.brokerOf c).trans (h.brokerOf c)
  calls := g.calls.trans h.calls
  slots b := (g.slots b).trans (h.slots b)
  brokers := g.brokers.trans h.brokers
  consumers := g.consumers.trans h.consumers
  streams := g.streams.trans h.streams
  kin s := (h.kin s).trans (g.kin s)
  lifecycle s hs := (g.lifecycle s hs).trans (h.lifecycle s hs)
  feed s hs hf := h.feed s hs (g.feed s hs hf)

theorem mono (h : Frame S w w') (hST : S ⊆ T) : Frame T w w' :=
  { h with
    lifecycle := fun s hs => h.lifecycle s fun hS => hs (hST hS)
    feed := fun s hs => h.feed s fun hS => hs (hST hS) }

theorem slot (h : Frame S w w') (b : BrokerId) (k : SourceKey) : w'.slot b k = w.slot b k := by
  simp [System.slot, h.slots b]

theorem key (h : Frame S w w') (s : StreamId) : (w'.stream s).key = (w.stream s).key :=
  (h.kin s).key

theorem isHeld (h : Frame S w w') (s : StreamId) : w'.isHeld s = w.isHeld s := by
  rw [Bool.eq_iff_iff, isHeld_iff, isHeld_iff]
  simp only [h.slot, h.phaseOf, (h.kin s).named]

/-! ### Small changes -/

theorem note (h : Frame S w w') (c : Option CallId) (e : Event) : Frame S w (w'.note c e) :=
  { h with }

theorem witness (h : Frame S w w') (e : TunerEvent) : Frame S w (w'.witness e) := { h with }

theorem setLink (h : Frame S w w') (n : ConnectionId) (l : LinkState) : Frame S w (w'.setLink n l) :=
  { h with }

theorem dropLink (h : Frame S w w') (n : ConnectionId) : Frame S w (w'.dropLink n) := { h with }

theorem record (h : Frame S w w') (b : BrokerId) (t : Tick) : Frame S w (w'.record b t) :=
  { h with
    slots := fun b' => by
      rw [← h.slots b']
      simp only [System.record, System.broker, Table.get?_update]
      by_cases hb : b' = b
      · subst hb; cases w'.brokers.get? b' <;> simp
      · simp [hb]
    brokers := by simpa [System.record] using h.brokers }

theorem announce (h : Frame S w w') (c : CallId) (a : Announcement) : Frame S w (w'.announce c a) :=
  { h with
    phaseOf := fun c' => by
      rw [← h.phaseOf c']
      simp only [System.announce, System.phaseOf, Table.get?_update]
      by_cases hc : c' = c
      · subst hc; cases w'.calls.get? c' <;> simp
      · simp [hc]
    brokerOf := fun c' => by
      rw [← h.brokerOf c']
      simp only [System.announce, System.brokerOf, Table.get?_update]
      by_cases hc : c' = c
      · subst hc; cases w'.calls.get? c' <;> simp
      · simp [hc]
    calls := by simpa [System.announce] using h.calls }

/-- A change of one stream that is worked on. -/
theorem setStream (h : Frame S w w') {s : StreamId} (hs : s ∈ S) {f : Stream → Stream}
    (hk : ∀ x : Stream, x.Kin (f x)) : Frame S w (w'.setStream s f) :=
  { h with
    streams := by simpa using h.streams
    kin := fun t => (h.kin t).trans (by rw [stream_setStream]; split; exacts [hk _, .refl _])
    lifecycle := fun t ht => by
      rw [stream_setStream_ne _ _ _ _ (by rintro rfl; exact ht hs), h.lifecycle t ht]
    feed := fun t ht hf => by
      rw [stream_setStream_ne _ _ _ _ (by rintro rfl; exact ht hs)] at hf
      exact h.feed t ht hf }

theorem work {s : StreamId} (h : Frame {s} w w') {f : Stream → Stream}
    (hk : ∀ x : Stream, x.Kin (f x)) : Frame {s} w (w'.setStream s f) :=
  h.setStream (Set.mem_singleton s) hk

/-- A change of any stream that leaves its place in life and opens no feed. -/
theorem tuneStream (h : Frame S w w') (s : StreamId) {f : Stream → Stream}
    (hk : ∀ x : Stream, x.Kin (f x) ∧ (f x).lifecycle = x.lifecycle ∧ ((f x).feed → x.feed)) :
    Frame S w (w'.setStream s f) :=
  { h with
    streams := by simpa using h.streams
    kin := fun t => (h.kin t).trans (by rw [stream_setStream]; split; exacts [(hk _).1, .refl _])
    lifecycle := fun t ht => by
      rw [← h.lifecycle t ht, stream_setStream]
      split
      · exact (hk _).2.1
      · rfl
    feed := fun t ht hf => by
      rw [stream_setStream] at hf
      split at hf
      · exact h.feed t ht ((hk _).2.2 hf)
      · exact h.feed t ht hf }

end Frame

end System

end TunerBroker
