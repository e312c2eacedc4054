import TunerBroker.Proofs.Streams.Lifetime
import TunerBroker.Proofs.Streams.Liveness

/-! The feed of a stream goes with its place in life. It is open only while the stream is connected, so
that a subscription succeeds just as long as the stream is reported live; and once cleared, by the pump
or by a close, it stays so. What has been seen to have ended is never reported live again, least of all
behind the stream that replaces it. -/

namespace TunerBroker

namespace StreamState

/-- The feed is gone. -/
def isPast : StreamState → Bool
  | ended | closing | closed => true
  | _ => false

variable {x y : StreamState}

theorem Passes.isPast (h : Passes x y) (hx : x.isPast) : y.isPast := by
  rcases h with rfl | h | ⟨h, -⟩
  · exact hx
  · cases h <;> first | rfl | cases hx
  · cases h
    cases hx

theorem isPast_iff : x.isPast ↔ x ∈ [ended, closing, closed] := by
  cases x <;> simp [isPast]

end StreamState

namespace Stream

variable {x : Stream}

theorem IsFit.connected_of_feed (h : x.IsFit) (feed : x.feed) : x.lifecycle = .connected := by
  simpa [isConnected] using (h.feed_iff.1 feed).1

/-- Without a feed a stream is not live. -/
theorem IsFit.not_live (h : x.IsFit) (cleared : x.feed = false) : x.isLive = false := by
  rw [Bool.eq_false_iff, ne_eq, h.isLive_iff, cleared]
  exact Bool.false_ne_true

end Stream

namespace System

variable {w : System} {J : CallId → Option (StreamId × Job)} {c : CallId} {a : Acquisition}
  {s : StreamId} {b : BrokerId} {k : SourceKey}

/-! ### Subscribing -/

theorem Wired.subscribe (h : w.Wired J) (s : StreamId) : w.subscribe s =
    if (w.stream s).state = .live then
      .ok { stream := s, key := (w.stream s).key, next := (w.stream s).buffer.sent }
    else .error (.closed (w.stream s).key) := by
  have live : (w.stream s).state = .live ↔ (w.stream s).feed := by
    rw [← (h.fit s).isLive_iff, Stream.isLive, decide_eq_true_eq]
  simp only [System.subscribe, live]

/-! ### Clearing the feed -/

/-- The feed of a stream that has been given its connection does not open again. -/
theorem Wired.feed_run (h : w.Wired w.jobs) (started : (w.stream s).pump ≠ .idle)
    (cleared : (w.stream s).feed = false) (moves : List Move) :
    ((w.run moves).stream s).feed = false := by
  induction moves generalizing w with
  | nil => exact cleared
  | cons m moves ih =>
    have ages := (h.ages_step m).streams s (lt_of_pump started)
    refine ih (h.step m) (ages.ne_idle started) (Bool.eq_false_of_not_eq_true fun feed => ?_)
    rw [ages.feed started feed] at cleared
    cases cleared

theorem Wired.feed_cleared (h : w.Wired w.jobs) (feed : (w.stream s).feed) (moves later : List Move)
    (cleared : ((w.run moves).stream s).feed = false) :
    (((w.run moves).run later).stream s).feed = false := by
  have started : (w.stream s).pump ≠ .idle := h.pump_ne_idle ((h.fit s).connected_of_feed feed)
  refine (h.run moves).feed_run (fun idle => started ?_) cleared later
  rw [← Pump.connection?_eq_none, ← (h.pump_run started moves).1, idle]
  rfl

theorem Wired.past_run (h : w.Wired w.jobs) (made : s < w.streams.size)
    (past : (w.stream s).state.isPast) (moves : List Move) :
    ((w.run moves).stream s).state.isPast := by
  induction moves generalizing w with
  | nil => exact past
  | cons m moves ih =>
    have paces := h.paces_step m
    exact ih (h.step m) (made.trans_le paces.size) ((paces.state s made).isPast past)

/-! ### Streams that have been replaced -/

/-- A stream that is connected and not live is not live again. -/
theorem Wired.over_run (h : w.Wired w.jobs) (connected : (w.stream s).lifecycle = .connected)
    (cleared : (w.stream s).feed = false) (later : List Move) :
    ((w.run later).stream s).isLive = false :=
  ((h.run later).fit s).not_live (h.feed_run (h.pump_ne_idle connected) cleared later)

/-- A stream that could be shared and is listed without being on offer is not live again. -/
theorem Sound.replaced (g : w.Sound) (h : w.Wired w.jobs) (beside : s ∈ (w.slot b k).unshared)
    (sharing : (w.stream s).sharing) (later : List Move) :
    ((w.run later).stream s).isLive = false := by
  have order := g.flight.order b k
  exact h.over_run (order.connected s ((Slot.mem_streams _ _).2 (.inr beside))).1
    (order.spent s beside sharing) later

/-- Where no open is in flight for a key, one that lines up for it begins its own. -/
theorem slot_enqueue {x : Slot} (there : w.brokerOf c < w.brokers.size) (vacant : x.opening = none) :
    ((w.putSlot (w.brokerOf c) a.key x).enqueue c a).slot (w.brokerOf c) a.key =
      { x with opening := some c } := by
  simp [enqueue, slot_putSlot, slot_beginOpen, there, vacant]

/-- A call that finds an ended stream on offer takes it off and opens another. -/
theorem Sound.slot_seek (g : w.Sound) (place : w.phaseOf c = .seeking a)
    (shared : (w.slot (w.brokerOf c) a.key).shared = some s)
    (counted : (w.stream s).consumers ≠ 0) (spent : (w.stream s).isLive = false) :
    (w.step (.turn (.call c))).slot (w.brokerOf c) a.key =
      { (w.slot (w.brokerOf c) a.key).demote with opening := some c } := by
  have vacant : (w.slot (w.brokerOf c) a.key).opening = none := by
    by_contra marked
    obtain ⟨o, ho⟩ := Option.ne_none_iff_exists'.1 marked
    rw [(g.flight.order _ _).vacant o ho] at shared
    cases shared
  have there : w.brokerOf c < w.brokers.size := g.flight.seated c (by rw [place]; rfl)
  have turn : w.step (.turn (.call c)) = w.seek c a := by
    simp only [System.step, System.turn, ready, place, phaseReady, if_true, turnCall]
  have sought : w.seek c a = ((w.note c (.replacingEnded a.key (w.stream s).consumers)).putSlot
      (w.brokerOf c) a.key (w.slot (w.brokerOf c) a.key).demote).enqueue c a := by
    simp only [seek, shared, counted, spent, if_false, Bool.false_eq_true]
  rw [turn, sought]
  exact slot_enqueue (w := w.note c _) there ((Slot.opening_demote _).trans vacant)

/-- The ended stream is listed beside the one that replaces it, and is not live again. -/
theorem Sound.demoted (g : w.Sound) (h : w.Wired w.jobs) (place : w.phaseOf c = .seeking a)
    (shared : (w.slot (w.brokerOf c) a.key).shared = some s)
    (counted : (w.stream s).consumers ≠ 0) (spent : (w.stream s).isLive = false) :
    let v := w.step (.turn (.call c))
    (v.slot (w.brokerOf c) a.key).shared = none ∧ s ∈ (v.slot (w.brokerOf c) a.key).unshared ∧
      ∀ later, ((v.run later).stream s).isLive = false := by
  intro v
  have slot := g.slot_seek place shared counted spent
  refine ⟨by rw [slot]; exact Slot.shared_demote _, ?_, fun later => ?_⟩
  · rw [slot]
    exact (Slot.mem_unshared_demote _ s).2 (.inl shared)
  · have connected := ((g.flight.order _ _).connected s ((Slot.mem_streams _ _).2 (.inl shared))).1
    refine h.over_run connected ?_ (.turn (.call c) :: later)
    rwa [← Bool.not_eq_true, (h.fit s).isLive_iff, Bool.not_eq_true] at spent

/-! ### The result -/

/-- In every run, at every moment. The feed of a stream is open only while the stream is connected, and a
subscription succeeds just when the stream is reported live; it is refused with the key of the stream
otherwise. A feed that has been open and has been cleared stays so, and a stream that is reported ended,
closing or closed is reported so from then on. A call that finds an ended stream on offer lists it beside
the place it gives up, and it is not live again; no stream is that could be shared and is listed without
being on offer. -/
theorem feed_follows_life (configs : List BrokerConfig) (desk : AccessDesk) (terms : List TunerTerms)
    (moves : List Move) :
    let w := (fresh configs desk terms).run moves
    (∀ s, (w.stream s).feed → (w.stream s).lifecycle = .connected) ∧
    (∀ s, w.subscribe s =
      if (w.stream s).state = .live then
        .ok { stream := s, key := (w.stream s).key, next := (w.stream s).buffer.sent }
      else .error (.closed (w.stream s).key)) ∧
    (∀ s between later, (w.stream s).feed → ((w.run between).stream s).feed = false →
      (((w.run between).run later).stream s).feed = false) ∧
    (∀ s later, s < w.streams.size → (w.stream s).state ∈ [.ended, .closing, .closed] →
      ((w.run later).stream s).state ∈ [.ended, .closing, .closed]) ∧
    (∀ c a s, w.phaseOf c = .seeking a → (w.slot (w.brokerOf c) a.key).shared = some s →
      (w.stream s).consumers ≠ 0 → (w.stream s).isLive = false →
      let v := w.step (.turn (.call c))
      (v.slot (w.brokerOf c) a.key).shared = none ∧ s ∈ (v.slot (w.brokerOf c) a.key).unshared ∧
        ∀ later, ((v.run later).stream s).isLive = false) ∧
    ∀ b k s later, s ∈ (w.slot b k).unshared → (w.stream s).sharing →
      ((w.run later).stream s).isLive = false := by
  intro w
  have wired : w.Wired w.jobs := (wired_fresh configs desk terms).run moves
  have sound : w.Sound := (sound_fresh configs desk terms).run moves
  refine ⟨fun s => (wired.fit s).connected_of_feed, wired.subscribe,
    fun s between later feed => wired.feed_cleared feed between later, fun s later made past => ?_,
    fun c a s => sound.demoted wired, fun b k s later beside sharing => sound.replaced wired beside sharing later⟩
  rw [← StreamState.isPast_iff] at past ⊢
  exact wired.past_run made past later

/-- Nobody can subscribe to the sample stream once its source has ended, and the call that comes next
takes it off offer; whatever happens after that, it is not live again. -/
theorem feed_follows_life_endsAndAnotherComes :
    let w := (fresh [{}] {} []).run endsAndAnotherComes
    let v := w.step (.turn (.call 1))
    ((fresh [{}] {} []).run oneComes).subscribe 0 = .ok ⟨0, sampleRequest.key, 0, 0⟩ ∧
    (w.stream 0).state = .ended ∧ w.subscribe 0 = .error (.closed sampleRequest.key) ∧
    (v.slot 0 sampleRequest.key).shared = none ∧ 0 ∈ (v.slot 0 sampleRequest.key).unshared ∧
    ∀ later, ((v.run later).stream 0).isLive = false ∧
      ((v.run later).stream 0).state ∈ [.ended, .closing, .closed] := by
  intro w v
  obtain ⟨-, subscribes, -, past, demotes, -⟩ := feed_follows_life [{}] {} [] endsAndAnotherComes
  have ended : (w.stream 0).state = .ended := by decide
  obtain ⟨vacated, beside, spent⟩ := demotes 1 _ 0 rfl rfl (by decide) (by decide)
  refine ⟨rfl, ended, ?_, vacated, beside, fun later => ⟨spent later, ?_⟩⟩
  · rw [subscribes 0, if_neg (by rw [ended]; rintro ⟨⟩)]
    rfl
  · exact past 0 (.turn (.call 1) :: later) (by decide) (by rw [ended]; decide)

end System

end TunerBroker
