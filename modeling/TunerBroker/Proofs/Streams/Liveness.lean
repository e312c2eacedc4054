import TunerBroker.Proofs.Payload.Reading
import TunerBroker.Proofs.Opens.Seeking
import TunerBroker.Proofs.Consumers.Tenure

/-! Which of the streams that report that they deliver can do so. The feed is cleared by the pump on its
way out, and by a close. A pump that dies of a read leaves it as it is: the stream is hollow from then
on, and is handed out although its source is gone. Nothing else makes a stream report what it does not
do. -/

namespace TunerBroker

namespace Stream

/-- The pump has died and the feed is still open. -/
def IsHollow (x : Stream) : Prop := x.feed = true ∧ ∃ n message, x.pump = .crashed n message

variable {x : Stream}

/-- The feed is open as long as the pump of a connected stream reads, and if it has died so. -/
theorem IsFit.feed_iff (h : x.IsFit) :
    x.feed ↔ x.isConnected ∧ (x.pump.isReading ∨ x.IsHollow) := by
  unfold IsFit at h
  unfold isConnected IsHollow
  cases hl : x.lifecycle <;> cases hp : x.pump <;> simp_all [Pump.isReading]

theorem IsFit.isLive_iff (h : x.IsFit) : x.isLive ↔ x.feed := by
  have connected : x.feed → x.lifecycle = .connected := fun feed => by
    simpa [isConnected] using (h.feed_iff.1 feed).1
  unfold isLive state
  cases hl : x.lifecycle <;> cases hf : x.feed <;> simp_all [Lifecycle.state]

/-- After the pump has come to an end nothing can be sent, and the stream shows it unless it is hollow. -/
theorem IsFit.isShut_iff (h : x.IsFit) (halted : x.pump.isReading = false) :
    x.isShut ↔ ¬ x.IsHollow := by
  have feed := h.feed_iff
  have hollow : x.IsHollow → x.feed = true := And.left
  cases hf : x.feed <;> simp_all [isShut]

end Stream

namespace System

variable {m : Move} {w w' : System} {J : CallId → Option (StreamId × Job)} {c : CallId}
  {s : StreamId} {n : ConnectionId} {a : Acquisition} {i : ConsumerId} {x : Consumer}
  {b : BrokerId} {k : SourceKey} {r : StreamReader} {history : List Text.Bytes}

/-- The source of the stream can deliver: what its connection delivers goes to its pump. -/
def Delivers (w : System) (s : StreamId) : Prop :=
  ∃ n, (w.stream s).pump = .reading n ∧ w.accepts n

/-! ### The pump of a stream that reports that it delivers -/

/-- A pump that reads and has not been told to stop takes what its connection delivers. -/
theorem Wired.delivers (h : w.Wired J) (reading : (w.stream s).pump.isReading)
    (running : (w.stream s).stopping = false) : w.Delivers s := by
  cases hp : (w.stream s).pump with
  | reading n =>
    have link : (w.stream s).link? = some (n, .live) := by rw [Stream.link?, hp]
    obtain ⟨y, hy, place, -⟩ := h.linked link
    have owner : (w.connection n).stream = s := by rw [connection, hy, Option.getD_some, place]
    exact ⟨n, hp, by simp [accepts, owner, hp, running]⟩
  | _ => simp [hp, Pump.isReading] at reading

/-- In a settled state no pump has still to stop. -/
theorem running_of_settled (settled : w.isSettled) (reading : (w.stream s).pump.isReading) :
    (w.stream s).stopping = false := by
  by_contra stopping
  rw [Bool.not_eq_false] at stopping
  have made : s < w.streams.size := lt_of_pump fun idle => by simp [idle, Pump.isReading] at reading
  obtain ⟨y, hy⟩ : ∃ y, w.streams.get? s = some y :=
    Option.ne_none_iff_exists'.1 fun none => Nat.not_le.2 made ((Table.get?_eq_none_iff _ _).1 none)
  have same : w.stream s = y := by rw [stream, hy, Option.getD_some]
  have awake : Runner.pump s ∈ w.awake := by
    simp only [awake, List.mem_append, List.mem_filterMap]
    refine .inr ⟨(y, s), List.mem_zipIdx_iff_getElem?.2 hy, ?_⟩
    rw [← same, reading, stopping]
    rfl
  rw [isSettled, List.isEmpty_iff] at settled
  rw [settled] at awake
  cases awake

/-- A stream that is listed and reports that it delivers does so, or is hollow. -/
theorem Wired.delivers_of_held (h : w.Wired J) (held : w.isHeld s) (live : (w.stream s).isLive) :
    w.Delivers s ∨ (w.stream s).IsHollow := by
  have feed := (h.fit s).isLive_iff.1 live
  obtain ⟨connected, reading | hollow⟩ := (h.fit s).feed_iff.1 feed
  · have connected : (w.stream s).lifecycle = .connected := by simpa [Stream.isConnected] using connected
    have whole := h.whole held connected
    have fit := h.fit s
    refine .inl (h.delivers reading ?_)
    cases hp : (w.stream s).pump <;> simp_all [Stream.IsFit, Pump.isReading]
  · exact .inr hollow

/-- A pump has died of nothing but a read in the course of the run. -/
theorem crashed_run {message : String} (h : w.Wired w.jobs) (moves : List Move)
    (crashed : ((w.run moves).stream s).pump = .crashed n message) :
    (w.stream s).pump = .crashed n message ∨ .deliver n (.fatal message) ∈ moves := by
  induction moves generalizing w with
  | nil => exact .inl crashed
  | cons m moves ih =>
    rcases ih (h.step m) crashed with now | later
    · rcases h.aged m s with older | ⟨x, new, older, -⟩
      · refine (older.killed n message now).imp id fun fatal => ?_
        exact fatal ▸ List.mem_cons_self
      · rcases older.killed n message now with before | fatal
        · rw [new.pump] at before
          cases before
        · exact .inr (fatal ▸ List.mem_cons_self)
    · exact .inr (List.mem_cons_of_mem _ later)

/-! ### Who is given a stream -/

theorem stream_of_newcomer {v : System} (new : w.consumers.size ≤ i) (same : v.consumers = w.consumers)
    (there : (v.attach c s).consumers.get? i = some x) : x.stream = s := by
  rw [Ledger.get?_attach] at there
  split at there
  · exact (Option.some.inj there) ▸ rfl
  · rw [same, (Table.get?_eq_none_iff _ _).2 new] at there
    cases there

/-- A listed stream to which a step attaches a consumer reported that it delivers. -/
theorem Wired.newcomer_live (h : w.Wired w.jobs) (g : w.Sound) (m : Move)
    (new : w.consumers.size ≤ i) (there : (w.step m).consumers.get? i = some x)
    (listed : x.stream ∈ w.listedAt b k) : (w.stream x.stream).isLive := by
  obtain ⟨w₁, w₂, h₁, hc, h₂⟩ := step_books w m
  rw [h₂.frame.consumers] at there
  have live₁ : (w₁.stream x.stream).isLive := by
    rcases hc.attaches (h₁.frame.consumers ▸ new) there with ⟨c, a, s, -, -, live, rfl⟩ |
      ⟨w₃, c, a, s, moves, wait, place, frame, -, rfl⟩
    · rwa [stream_of_newcomer (v := w₁.setStream s _) new h₁.frame.consumers there]
    · rw [stream_of_newcomer (v := (w₃.setStream s _).endOpen c a.key (some s)) new
        (frame.consumers.trans h₁.frame.consumers) there] at listed
      rw [h₁.frame.phaseOf] at place
      have owned : s ∈ w.kept (.call c) := by simp [kept, place, Phase.owns]
      cases g.custody.unique (o := .slot b k) listed (q := .call c) owned
  have connected := ((g.flight.order b k).connected x.stream listed).1
  have begun := h.pump_ne_idle connected
  have older := h₁.ages.streams x.stream (lt_of_pump begun)
  rw [((h.drifting h₁).fit x.stream).isLive_iff] at live₁
  exact (h.fit x.stream).isLive_iff.2 (older.feed begun live₁)

/-- Where the stream on offer does not deliver, a call that looks at the slot takes it off offer and opens
another. -/
theorem starts_over (g : w.Sound) (l : w.Ledger) (bound : ∀ t, w.attachments t < 2 ^ 32)
    (place : w.phaseOf c = .seeking a) (shared : (w.slot (w.brokerOf c) a.key).shared = some s)
    (dead : ¬ (w.stream s).isLive) :
    w.Starts (w.step (.turn (.call c))) c (w.brokerOf c) a.key ∧
      ((w.step (.turn (.call c))).slot (w.brokerOf c) a.key).shared = none := by
  have idle : ∀ t, ¬ w.OnOffer (w.brokerOf c) a.key t := fun t offered => by
    have same := g.eq_shared offered.listed offered.sharing offered.live
    rw [shared] at same
    exact dead (Option.some.inj same ▸ offered.live)
  have free : ∀ o, ¬ w.Opens o (w.brokerOf c) a.key := fun o opens => by
    have vacant := (g.flight.order _ _).vacant o ((g.flight.marks _ _ _).2 opens)
    rw [shared] at vacant
    cases vacant
  have starts := starts_seeking g l bound place idle free
  exact ⟨starts, ((g.step _).flight.order _ _).vacant c starts.mark⟩

/-! ### Readers of a stream whose pump has come to an end -/

/-- A reader gets what of the history is still kept for it. Then it is told that nothing follows; only if
the stream is hollow it waits. -/
structure Drains (w : System) (r : StreamReader) (history : List Text.Bytes) : Prop where
  buffered : ∀ h : w.due r < history.length,
    (w.read r).2 = (r.after (w.due r), .chunk history[w.due r])
  ended : history.length ≤ r.next → ¬ (w.stream r.stream).IsHollow → w.read r = (w, r, .ended)
  hollow : history.length ≤ r.next → (w.stream r.stream).IsHollow → w.read r = (w, r, .waiting)

theorem Wired.drains (h : w.Wired J) (carries : (w.stream r.stream).Carries history)
    (halted : (w.stream r.stream).pump.isReading = false) : w.Drains r history where
  buffered sent := read_sent carries sent
  ended drained solid := by
    rw [read_drained carries drained, if_pos (((h.fit _).isShut_iff halted).2 solid)]
  hollow drained hollow := by
    rw [read_drained carries drained, if_neg fun shut => ((h.fit _).isShut_iff halted).1 shut hollow]

/-! ### Every run -/

/-- In every run a stream reports that it delivers exactly if it is connected and its pump is reading or
has died of a read, in the course of the run, and left the feed open. Apart from such a hollow stream,
those that report so can deliver: all of them in a settled state, the listed ones at any time. A listed
stream is given to a further consumer only if it can deliver or is hollow. A call that finds any other
stream on offer takes it off offer and opens another; to a hollow one it is attached. And once the pump of
a stream has come to an end its readers get what is still kept for them and are told then that nothing
follows, unless the stream is hollow, when they wait. -/
theorem live_unless_hollow (configs : List BrokerConfig) (desk : AccessDesk)
    (terms : List TunerTerms) (moves : List Move) :
    let w := (fresh configs desk terms).run moves
    (∀ s, (w.stream s).isLive ↔ (w.stream s).isConnected ∧
      ((w.stream s).pump.isReading ∨ (w.stream s).IsHollow)) ∧
    (∀ s, (w.stream s).IsHollow → ∃ n message,
      (w.stream s).pump = .crashed n message ∧ .deliver n (.fatal message) ∈ moves) ∧
    (w.isSettled → ∀ s, (w.stream s).isLive → w.Delivers s ∨ (w.stream s).IsHollow) ∧
    (∀ b k, ∀ s ∈ w.listedAt b k, (w.stream s).isLive → w.Delivers s ∨ (w.stream s).IsHollow) ∧
    (∀ m i x b k, w.consumers.size ≤ i → (w.step m).consumers.get? i = some x →
      x.stream ∈ w.listedAt b k → w.Delivers x.stream ∨ (w.stream x.stream).IsHollow) ∧
    (∀ c a s, w.phaseOf c = .seeking a → (w.slot (w.brokerOf c) a.key).shared = some s →
      (∀ t, w.attachments t < 2 ^ 32) →
        ((w.stream s).IsHollow →
          w.Joins (w.step (.turn (.call c))) (w.brokerOf c) s (fun _ => a) [c]) ∧
        (¬ w.Delivers s → ¬ (w.stream s).IsHollow →
          w.Starts (w.step (.turn (.call c))) c (w.brokerOf c) a.key ∧
            ((w.step (.turn (.call c))).slot (w.brokerOf c) a.key).shared = none)) ∧
    ∀ r, (w.stream r.stream).pump ≠ .idle → (w.stream r.stream).pump.isReading = false →
      w.Drains r (sent r.stream (fresh configs desk terms) moves) := by
  intro w
  have g : w.Sound := (sound_fresh configs desk terms).run moves
  have l : w.Ledger := (ledger_fresh configs desk terms).run (sound_fresh configs desk terms) moves
  have h : w.Wired w.jobs := (wired_fresh configs desk terms).run moves
  have listed : ∀ {b k s}, s ∈ w.listedAt b k → (w.stream s).isLive →
      w.Delivers s ∨ (w.stream s).IsHollow := fun hs live =>
    h.delivers_of_held (isHeld_of_listed hs) live
  refine ⟨fun s => (h.fit s).isLive_iff.trans (h.fit s).feed_iff, ?_, ?_,
    fun b k s hs live => listed hs live,
    fun m i x b k new there hs => listed hs (h.newcomer_live g m new there hs), ?_,
    fun r _ halted => h.drains (carries_sent configs desk terms moves r.stream) halted⟩
  · rintro s ⟨-, n, message, crashed⟩
    refine ⟨n, message, crashed, ?_⟩
    refine (crashed_run (wired_fresh configs desk terms) moves crashed).resolve_left ?_
    rintro ⟨⟩
  · intro settled s live
    obtain ⟨-, reading | hollow⟩ := (h.fit s).feed_iff.1 ((h.fit s).isLive_iff.1 live)
    · exact .inl (h.delivers reading (running_of_settled settled reading))
    · exact .inr hollow
  · intro c a s place shared bound
    have hs : s ∈ w.listedAt (w.brokerOf c) a.key := (Slot.mem_streams _ _).2 (.inl shared)
    refine ⟨fun hollow => ?_, fun silent solid => ?_⟩
    · have counted := (l.counted hs).consumers_ne_zero (bound s)
      have live := (h.fit s).isLive_iff.2 hollow.1
      exact @joins_seeking w c s (fun _ => a) g place shared counted live
    · exact starts_over g l bound place shared fun live => (listed hs live).elim silent solid

/-- A read kills the pump of the sample source, and another call comes for it. -/
def diesAndAnotherComes : List Move :=
  oneComes ++ [.deliver 0 (.fatal "boom"), .start 0 false sampleErrand]

/-- The sample source ends, and another call comes for it. -/
def endsAndAnotherComes : List Move :=
  oneComes ++ [.deliver 0 .finish, .start 0 false sampleErrand]

/-- A reader of the sample source from its start. -/
def sampleReader : StreamReader := ⟨0, sampleRequest.key, 0, 0⟩

/-- A dead source is handed out: the state is settled, the stream reports that it delivers, its pump is
not running, and the call that comes for the source is attached to it and waits for what never comes. -/
theorem hollow_handed_out :
    ((fresh [{}] {} []).run (oneComes ++ [.deliver 0 (.fatal "boom")])).isSettled ∧
    (((fresh [{}] {} []).run diesAndAnotherComes).stream 0).isLive ∧
    (((fresh [{}] {} []).run diesAndAnotherComes).stream 0).pump.isReading = false ∧
    (((fresh [{}] {} []).run diesAndAnotherComes).step (.turn (.call 1))).gains 1 = some (.ok 0) ∧
    (((fresh [{}] {} []).run diesAndAnotherComes).step (.turn (.call 1))).isSettled ∧
    ((((fresh [{}] {} []).run diesAndAnotherComes).step (.turn (.call 1))).read sampleReader).2.2 =
      .waiting := by
  refine ⟨by decide, by decide, by decide, rfl, by decide, rfl⟩

theorem live_unless_hollow_oneDiesOneEnds :
    (((fresh [{}] {} []).run diesAndAnotherComes).Joins
      (((fresh [{}] {} []).run diesAndAnotherComes).step (.turn (.call 1))) 0 0
        (fun _ => .ofRequest sampleRequest none {}) [1]) ∧
    ((fresh [{}] {} []).run diesAndAnotherComes).Drains sampleReader [] ∧
    (((fresh [{}] {} []).run endsAndAnotherComes).Starts
      (((fresh [{}] {} []).run endsAndAnotherComes).step (.turn (.call 1))) 1 0
        sampleRequest.key) ∧
    ((fresh [{}] {} []).run endsAndAnotherComes).Drains sampleReader [] := by
  obtain ⟨-, -, -, -, -, dies, dead⟩ := live_unless_hollow [{}] {} [] diesAndAnotherComes
  obtain ⟨-, -, -, -, -, ends, drains⟩ := live_unless_hollow [{}] {} [] endsAndAnotherComes
  have small : ∀ moves, moves = diesAndAnotherComes ∨ moves = endsAndAnotherComes → ∀ t,
      ((fresh [{}] {} []).run moves).attachments t < 2 ^ 32 := by
    rintro moves (rfl | rfl) t <;> exact List.countP_le_length.trans_lt (by decide)
  have hollow : (((fresh [{}] {} []).run diesAndAnotherComes).stream 0).IsHollow := ⟨rfl, 0, "boom", rfl⟩
  have silent : ¬ ((fresh [{}] {} []).run endsAndAnotherComes).Delivers 0 := by
    rintro ⟨n, reading, -⟩
    cases reading
  have solid : ¬ (((fresh [{}] {} []).run endsAndAnotherComes).stream 0).IsHollow := by
    rintro ⟨feed, -⟩
    cases feed
  exact ⟨(dies 1 _ 0 rfl rfl (small _ (.inl rfl))).1 hollow, dead sampleReader (by decide) rfl,
    ((ends 1 _ 0 rfl rfl (small _ (.inr rfl))).2 silent solid).1, drains sampleReader (by decide) rfl⟩

end System

end TunerBroker
