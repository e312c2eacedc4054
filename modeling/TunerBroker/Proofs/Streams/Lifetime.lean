import TunerBroker.Proofs.Streams.Connections
import TunerBroker.Proofs.Streams.Paces
import TunerBroker.Proofs.Streams.Staffing

/-! The whole life of a stream. It goes one path from unopened to closed; an open or a close that comes
at the wrong time is refused and leaves everything as it was. So a stream has one connection and one
pump at most, is shut down once at most, and lets one close in. -/

namespace TunerBroker

namespace System

variable {m : Move} {w w' v : System} {J : CallId → Option (StreamId × Job)} {c : CallId}
  {s : StreamId} {n : ConnectionId} {token : Option Token}

/-! ### Opens and closes at the wrong time -/

/-- The breach that an open of the stream comes to. -/
def openBreach (w : System) (s : StreamId) : StreamError :=
  .violation (w.stream s).key (.openOn (w.stream s).lifecycle.state)

/-- The breach that a close of the stream comes to. -/
def closeBreach (w : System) (s : StreamId) : StreamError :=
  .violation (w.stream s).key (.closeOn (w.stream s).lifecycle.state)

/-- An open of a stream that is not unopened is logged and refused. -/
theorem startOpen_refused (h : (w.stream s).state ≠ .unopened) : w.startOpen c s token =
    (w.note c (.openMisused (w.stream s).key (w.stream s).lifecycle.state),
      .finished (.error (w.openBreach s))) := by
  have hl : (w.stream s).lifecycle ≠ .unopened := fun hl =>
    h ((Stream.state_eq_iff (by rintro ⟨⟩)).2 hl)
  simp [startOpen, hl, openBreach]

/-- The states in which a close is let in. -/
theorem closable_iff (x : Stream) : x.state ∈ [StreamState.unopened, .live, .ended] ↔
    x.lifecycle = .unopened ∨ x.lifecycle = .connected := by
  by_cases hl : x.lifecycle = .connected
  · rw [Stream.state_of_connected hl]
    cases x.feed <;> simp [hl]
  · rw [Stream.state_of_lifecycle hl]
    cases hx : x.lifecycle <;> simp_all [Lifecycle.state]

/-- A close of a stream that has nothing to close is logged and refused. -/
theorem startClose_refused (h : (w.stream s).state ∉ [StreamState.unopened, .live, .ended]) :
    w.startClose c s =
      (w.note c (.closeMisused (w.stream s).key (w.stream s).lifecycle.state),
        .finished (.error (w.closeBreach s))) := by
  rw [closable_iff, not_or] at h
  unfold startClose closeBreach
  dsimp only
  split
  · exact absurd ‹_› h.2
  · exact absurd ‹_› h.1
  · rfl

/-- A call by itself that opens such a stream ends with the breach. -/
theorem turn_dialStart_refused (place : w.phaseOf c = .dialStart s token)
    (h : (w.stream s).state ≠ .unopened) : w.step (.turn (.call c)) =
      ((w.note c (.openMisused (w.stream s).key (w.stream s).lifecycle.state)).finish c
        (.failed (w.openBreach s))).reap s := by
  simp only [step, turn, ready, place, phaseReady, if_true, turnCall, turnDialStart,
    startOpen_refused h]

/-- A call by itself that closes such a stream ends with the breach. -/
theorem turn_closeStart_refused (place : w.phaseOf c = .closeStart s)
    (h : (w.stream s).state ∉ [StreamState.unopened, .live, .ended]) : w.step (.turn (.call c)) =
      ((w.note c (.closeMisused (w.stream s).key (w.stream s).lifecycle.state)).finish c
        (.failed (w.closeBreach s))).reap s := by
  simp only [step, turn, ready, place, phaseReady, if_true, turnCall, turnClose,
    startClose_refused h, settleClose]

/-! ### The one close -/

theorem isLetIn_startClose : (w.startClose c s).2.isLetIn ↔
    (w.stream s).state ∈ [StreamState.unopened, .live, .ended] := by
  rw [closable_iff]
  unfold startClose
  dsimp only
  split <;> simp_all [CloseStep.isLetIn, StreamError.isViolation]

/-- A close that is let in leaves its stream closing, or closed. -/
theorem isDone_startClose (h : (w.startClose c s).2.isLetIn) :
    ((w.startClose c s).1.stream s).state.isDone := by
  have closable := (closable_iff _).1 (isLetIn_startClose.1 h)
  have hs : s < w.streams.size := lt_of_lifecycle (by rcases closable with hl | hl <;> simp [hl])
  rcases closable with hl | hl <;> simp only [startClose, hl, stream_setStream_self _ _ _ hs]
  · rfl
  · rfl

/-- A close that was let in does not end with a breach. -/
theorem advanceClose_unbreached {stage : CloseStage} {e : StreamError}
    (h : (w.advanceClose c s stage).2 = .finished (.error e)) : e.isViolation = false := by
  have closed : ∀ (v : System) fault, (v.closed c s fault).2 = .finished (.error e) →
      e.isViolation = false := by
    intro v fault hv
    cases fault with
    | none => cases hv
    | some f => cases hv; rfl
  cases stage with
  | joining =>
    simp only [advanceClose] at h
    split at h
    · cases h
    · exact closed _ _ h
    · cases h
  | shutting due =>
    simp only [advanceClose] at h
    split at h
    · exact closed _ _ h
    · cases h

/-- What follows the beginning of a close comes about by itself. -/
theorem BeginsClose.fades (h : w.BeginsClose c s v) (ready : w.ready (.call c)) :
    Fades {s} (v.startClose c s).1 (w.step (.turn (.call c))) := by
  have hs : s ∈ ({s} : Set StreamId) := Set.mem_singleton s
  simp only [step, turn, if_pos ready]
  cases h with
  | alone place =>
    rw [place]
    exact fades_settleClose hs _ c _
  | reject place =>
    rw [place]
    exact fades_settleRejection hs _ c _ _
  | tear place =>
    rw [place]
    exact fades_settleTear hs _ c _
  | sweep place =>
    rw [place]
    exact fades_settleSweep hs _ c _ _ _
  | move place =>
    rw [place]
    exact fades_nextMove_close hs w c _ _
  | @atOnce a rest d place made =>
    rw [place]
    simp only [turnCall, turnOpening]
    rcases w.finishOpen_cases c s d with ⟨l, e, -, he⟩ | he <;> rw [he] at made ⊢
    · cases made
    · exact fades_nextMove_close hs _ c _ _

/-- No close begins on a stream that is closing or closed, unless it is refused. -/
theorem BeginsClose.open (h : w.BeginsClose c s v) (wired : w.Wired w.jobs)
    (letIn : (v.startClose c s).2.isLetIn) : (w.stream s).state.isDone = false := by
  have closable : ∀ {x : StreamState}, x ∈ [StreamState.unopened, .live, .ended] →
      x.isDone = false := by
    intro x hx
    cases x <;> simp_all [StreamState.isDone]
  have before := isLetIn_startClose.1 letIn
  cases h with
  | alone | reject | tear | sweep | move => exact closable before
  | @atOnce a rest d place =>
    have opening : (w.stream s).lifecycle = .opening :=
      (wired.manned (c := c) (s := s) (j := .dial d) (by rw [jobs, place]; rfl)).1
    rw [Stream.state_of_lifecycle (by simp [opening]), opening]
    rfl

/-- A stream is neither closing nor closed when a close is let in, and is after it; and it comes to
that only so. -/
theorem Wired.letsIn_iff (wired : w.Wired w.jobs) (m : Move) (s : StreamId) : w.LetsIn m s ↔
    (w.stream s).state.isDone = false ∧ ((w.step m).stream s).state.isDone := by
  constructor
  · rintro ⟨c, rfl, ready, v, begins, letIn⟩
    have closable := (closable_iff _).1 (isLetIn_startClose.1 letIn)
    have hs : s < v.streams.size := lt_of_lifecycle (by rcases closable with hl | hl <;> simp [hl])
    have size := (paces_startClose (m := .elapse 0) (Set.mem_singleton s) v c).size
    exact ⟨begins.open wired letIn, ((begins.fades ready).state (hs.trans_le size)).passes.isDone
      (isDone_startClose letIn)⟩
  · rintro ⟨before, after⟩
    rcases (wired.paces_step m).done s after with done | letsIn
    · rw [before] at done
      cases done
    · exact letsIn

/-! ### The one connection -/

/-- Shutdowns begun on the connections of a stream. -/
def shutdownsFor (w : System) (s : StreamId) : Nat :=
  w.sightings.countP fun e => e.shuts?.any fun n => (w.connection n).stream = s

/-- Connections that the tuner has given to a stream. -/
def establishedFor (w : System) (s : StreamId) : Nat :=
  w.connections.entries.countP fun x => x.stream = s ∧ x.state.isEstablished

theorem Wired.establishedFor_le (h : w.Wired J) (s : StreamId) : w.establishedFor s ≤ 1 := by
  rw [establishedFor, ← countP_range_getElem?]
  refine countP_le_one List.nodup_range ((w.stream s).pump.connection?.getD 0) fun n _ hn => ?_
  obtain ⟨x, hx, counted⟩ := (Option.any_eq_true _ _).1 hn
  obtain ⟨rfl, established⟩ := of_decide_eq_true counted
  rw [h.connection_eq hx established]
  rfl

/-- A connection whose shutdown has begun is the one of its stream, and the pump has let go of it. -/
theorem Wired.collected (h : w.Wired J) (hn : w.shutdownsOf n ≠ 0) :
    (w.stream (w.connection n).stream).pump = .collected n ∧ w.shutdownsOf n = 1 := by
  have seen := (h.seen n).1
  cases hx : w.connections.get? n with
  | none => exact absurd (by rw [seen, hx]; rfl) hn
  | some x =>
    rw [hx, Option.elim_some] at seen
    have shutting : x.state = .shutting ∨ x.state = .shut := by
      cases hs : x.state <;> simp_all [LinkState.shutdowns]
    have link := h.pumped hx (by rcases shutting with hs | hs <;> rw [hs] <;> rfl)
    have one : w.shutdownsOf n = 1 := by rcases shutting with hs | hs <;> rw [seen, hs] <;> rfl
    refine ⟨?_, one⟩
    rw [connection, hx, Option.getD_some]
    cases hp : (w.stream x.stream).pump with
    | collected k =>
      simp only [Stream.link?, hp, Option.some.injEq, Prod.mk.injEq] at link
      rw [link.1]
    | idle => simp [Stream.link?, hp] at link
    | reading k | stopped k | crashed k message =>
      simp only [Stream.link?, hp, Option.some.injEq, Prod.mk.injEq] at link
      rw [← link.2] at shutting
      simp at shutting

theorem Wired.shutdownsFor_le (h : w.Wired J) (s : StreamId) : w.shutdownsFor s ≤ 1 := by
  have own : ∀ e ∈ w.sightings, (e.shuts?.any fun n => (w.connection n).stream = s) →
      e.shuts? = some ((w.stream s).pump.connection?.getD 0) := by
    intro e he counted
    obtain ⟨n, hn, place⟩ := (Option.any_eq_true _ _).1 counted
    have begun : w.shutdownsOf n ≠ 0 :=
      (List.countP_pos_iff.2 ⟨e, he, decide_eq_true hn⟩ : 0 < w.shutdownsOf n).ne'
    have collected := (h.collected begun).1
    rw [of_decide_eq_true place] at collected
    rw [collected]
    exact hn
  calc w.shutdownsFor s
    _ ≤ w.shutdownsOf ((w.stream s).pump.connection?.getD 0) :=
        List.countP_mono_left fun e he hc => decide_eq_true (own e he hc)
    _ ≤ 1 := by
        by_cases hn : w.shutdownsOf ((w.stream s).pump.connection?.getD 0) = 0
        · omega
        · exact (h.collected hn).2.le

/-! ### Every run -/

theorem Wired.isDone_run (h : w.Wired w.jobs) (hs : s < w.streams.size)
    (done : (w.stream s).state.isDone) (moves : List Move) :
    ((w.run moves).stream s).state.isDone := by
  induction moves generalizing w with
  | nil => exact done
  | cons m moves ih =>
    have paces := h.paces_step m
    exact ih (h.step m) (hs.trans_le paces.size) ((paces.state s hs).isDone done)

theorem Wired.closed_run (h : w.Wired w.jobs) (hs : s < w.streams.size)
    (closed : (w.stream s).state = .closed) (moves : List Move) :
    ((w.run moves).stream s).state = .closed := by
  induction moves generalizing w with
  | nil => exact closed
  | cons m moves ih =>
    have paces := h.paces_step m
    have passes := paces.state s hs
    rw [closed] at passes
    exact ih (h.step m) (hs.trans_le paces.size) passes.closed

/-- A pump that has been started stays with its connection, and does not read again once it has
stopped. -/
theorem Wired.pump_run (h : w.Wired w.jobs) (started : (w.stream s).pump ≠ .idle)
    (moves : List Move) :
    ((w.run moves).stream s).pump.connection? = (w.stream s).pump.connection? ∧
      ((w.stream s).pump.isReading = false → ((w.run moves).stream s).pump.isReading = false) := by
  induction moves generalizing w with
  | nil => exact ⟨rfl, id⟩
  | cons m moves ih =>
    have ages := (h.ages_step m).streams s (lt_of_pump started)
    obtain ⟨same, halted⟩ := ih (h.step m) (ages.ne_idle started)
    refine ⟨same.trans ?_, fun stopped => halted (ages.halted started stopped)⟩
    cases hn : (w.stream s).pump.connection? with
    | none => exact absurd (Pump.connection?_eq_none.1 hn) started
    | some n => exact ages.connection n hn

/-- A close that is let in is the only one. -/
theorem Wired.sole_close (h : w.Wired w.jobs) (letsIn : w.LetsIn m s) (later : List Move) (m' : Move) :
    ¬ ((w.step m).run later).LetsIn m' s := by
  obtain ⟨before, done⟩ := (h.letsIn_iff m s).1 letsIn
  have h' := h.step m
  have hs : s < w.streams.size := by
    by_contra hs
    rw [w.stream_of_size_le s (Nat.not_lt.1 hs)] at before
    cases before
  intro again
  obtain ⟨undone, -⟩ := ((h'.run later).letsIn_iff m' s).1 again
  rw [h'.isDone_run (hs.trans_le (h.paces_step m).size) done later] at undone
  cases undone

/-- The shutdown of a connection begins when the pump of its stream has stopped. -/
theorem Wired.stopped_of_shutdown (h : w.Wired w.jobs)
    (begun : (w.step m).shutdownsOf n ≠ w.shutdownsOf n) :
    (w.stream (w.connection n).stream).pump = .stopped n := by
  obtain ⟨s, stopped⟩ := (h.paces_step m).shutdown n begun
  obtain ⟨x, hx, place, -⟩ := h.linked (s := s) (n := n) (l := .live) (by simp [Stream.link?, stopped])
  rw [connection, hx, Option.getD_some, place]
  exact stopped

/-- In every run, at every moment. A step takes a stream along one edge at most from unopened over opening
and live or ended and closing to closed, or two where a connection is made and the call goes on at once;
a new stream is unopened, and what is closed stays closed. An open of a stream that is not unopened, and
a close of one that is neither unopened nor live nor ended, is logged, comes to a breach and changes
nothing. A stream has one established connection at most, and one shutdown is begun at most; a pump that
was started stays with its connection and does not read again once it has stopped, and a shutdown begins
only after that. A close is let in just where it takes the stream to closing or closed, no second one ever
is, and the one does not end with a breach. And as long as no call was abandoned, a stream is opening or
closing only while a call waits that opens or closes it. -/
theorem streams_live_once (configs : List BrokerConfig) (desk : AccessDesk) (terms : List TunerTerms)
    (moves : List Move) :
    let w := (fresh configs desk terms).run moves
    (∀ m s, s < w.streams.size → (w.stream s).state.Passes ((w.step m).stream s).state) ∧
    (∀ m s, w.streams.size ≤ s → s < (w.step m).streams.size →
      ((w.step m).stream s).state = .unopened) ∧
    (∀ s later, s < w.streams.size → (w.stream s).state = .closed →
      ((w.run later).stream s).state = .closed) ∧
    (∀ c s token, (w.stream s).state ≠ .unopened →
      w.startOpen c s token = (w.note c (.openMisused (w.stream s).key (w.stream s).lifecycle.state),
        .finished (.error (w.openBreach s))) ∧
      (w.phaseOf c = .dialStart s token → w.step (.turn (.call c)) =
        ((w.note c (.openMisused (w.stream s).key (w.stream s).lifecycle.state)).finish c
          (.failed (w.openBreach s))).reap s)) ∧
    (∀ c s, (w.stream s).state ∉ [StreamState.unopened, .live, .ended] →
      w.startClose c s = (w.note c (.closeMisused (w.stream s).key (w.stream s).lifecycle.state),
        .finished (.error (w.closeBreach s))) ∧
      (w.phaseOf c = .closeStart s → w.step (.turn (.call c)) =
        ((w.note c (.closeMisused (w.stream s).key (w.stream s).lifecycle.state)).finish c
          (.failed (w.closeBreach s))).reap s)) ∧
    (∀ s, w.establishedFor s ≤ 1 ∧ w.shutdownsFor s ≤ 1) ∧
    (∀ s later, (w.stream s).pump ≠ .idle →
      ((w.run later).stream s).pump.connection? = (w.stream s).pump.connection? ∧
        ((w.stream s).pump.isReading = false → ((w.run later).stream s).pump.isReading = false)) ∧
    (∀ m n, (w.step m).shutdownsOf n ≠ w.shutdownsOf n →
      (w.stream (w.connection n).stream).pump = .stopped n) ∧
    (∀ m s, w.LetsIn m s ↔
      (w.stream s).state.isDone = false ∧ ((w.step m).stream s).state.isDone) ∧
    (∀ m s, w.LetsIn m s → ∀ later m', ¬ ((w.step m).run later).LetsIn m' s) ∧
    (∀ c s stage e, (w.advanceClose c s stage).2 = .finished (.error e) → e.isViolation = false) ∧
    ((∀ c, .abandon c ∉ moves) → ∀ s,
      ((w.stream s).state = .opening → ∃ c d, (w.phaseOf c).job? = some (s, .dial d)) ∧
      ((w.stream s).state = .closing → ∃ c stage, (w.phaseOf c).job? = some (s, .close stage))) := by
  intro w
  have wired : w.Wired w.jobs := (wired_fresh configs desk terms).run moves
  refine ⟨fun m s hs => (wired.paces_step m).state s hs,
    fun m s hs hm => (wired.paces_step m).made s hm hs,
    fun s later hs closed => wired.closed_run hs closed later,
    fun c s token h => ⟨startOpen_refused h, fun place => turn_dialStart_refused place h⟩,
    fun c s h => ⟨startClose_refused h, fun place => turn_closeStart_refused place h⟩,
    fun s => ⟨wired.establishedFor_le s, wired.shutdownsFor_le s⟩,
    fun s later started => wired.pump_run started later,
    fun m n begun => wired.stopped_of_shutdown begun, wired.letsIn_iff,
    fun m s letsIn => wired.sole_close letsIn,
    fun c s stage e => advanceClose_unbreached, fun kept s => ?_⟩
  have staffed : w.Staffed := (staffed_fresh configs desk terms).run kept
  obtain ⟨opening, closing⟩ := staffed.waits wired s
  exact ⟨fun h => opening ((Stream.state_eq_iff (by rintro ⟨⟩)).1 h),
    fun h => closing ((Stream.state_eq_iff (by rintro ⟨⟩)).1 h)⟩

/-- A stream is made, opened and closed, and then closed again. -/
def closedTwice : List Move :=
  [.make sampleRequest {}, .start 0 false (.openStream 0 none), .turn (.call 0), .turn (.call 0),
    .start 0 false (.closeStream 0), .turn (.call 1), .turn (.pump 0), .turn (.call 1),
    .start 0 false (.closeStream 0)]

theorem streams_live_once_closedTwice :
    (((fresh [{}] {} []).run closedTwice).stream 0).state = .closing ∧
    ((fresh [{}] {} []).run closedTwice).step (.turn (.call 2)) =
      ((((fresh [{}] {} []).run closedTwice).note (2 : CallId)
        (.closeMisused sampleRequest.key .closing)).finish 2
          (.failed (.violation sampleRequest.key (.closeOn .closing)))).reap 0 ∧
    ((fresh [{}] {} []).run closedTwice).establishedFor 0 = 1 ∧
    ((fresh [{}] {} []).run closedTwice).shutdownsFor 0 = 1 ∧
    ∃ c stage, (((fresh [{}] {} []).run closedTwice).phaseOf c).job? = some (0, .close stage) := by
  have closing : (((fresh [{}] {} []).run closedTwice).stream 0).state = .closing := by decide
  obtain ⟨-, -, -, -, refused, -, -, -, -, -, -, waits⟩ := streams_live_once [{}] {} [] closedTwice
  refine ⟨closing, ?_, by decide, by decide, (waits (by simp [closedTwice]) 0).2 closing⟩
  exact (refused 2 0 (by rw [closing]; decide)).2 rfl

end System

end TunerBroker
