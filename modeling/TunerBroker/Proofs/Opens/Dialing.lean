import TunerBroker.Proofs.Streams.Lifetime
import TunerBroker.Proofs.Streams.Results
import TunerBroker.System.Settle

/-! One attempt to open a stream. It begins with a turn of a call that opens the stream by itself or for
a slot; the stream and the tuner's terms stay what they were while it waits; and it ends with another
turn, which leaves the stream as it was before or gives it the connection. -/

namespace TunerBroker

namespace System

variable {m : Move} {w w' w'' v : System} {c : CallId} {a : Acquisition} {s t : StreamId}
  {n : ConnectionId} {i j : Option Job} {f : Stream → Stream} {p : Phase} {d : Dial}
  {token : Option Token} {e : StreamError}

/-! ### The timeout of a stream -/

/-- The streams that are there keep their timeouts. -/
structure KeepsTimeouts (w w' : System) : Prop where
  size : w.streams.size ≤ w'.streams.size
  timeout : ∀ s < w.streams.size, (w'.stream s).openTimeout = (w.stream s).openTimeout

namespace KeepsTimeouts

theorem of_eq (h : w'.streams = w.streams) : KeepsTimeouts w w' :=
  ⟨(congrArg Table.size h).ge, fun s _ => by rw [stream, stream, h]⟩

theorem refl (w : System) : KeepsTimeouts w w := .of_eq rfl

theorem trans (h : KeepsTimeouts w w') (g : KeepsTimeouts w' w'') : KeepsTimeouts w w'' :=
  ⟨h.size.trans g.size, fun s hs => (g.timeout s (hs.trans_le h.size)).trans (h.timeout s hs)⟩

theorem setStream (h : KeepsTimeouts w w') (s : StreamId)
    (hf : ∀ x, (f x).openTimeout = x.openTimeout) : KeepsTimeouts w (w'.setStream s f) := by
  refine h.trans ⟨by simp, fun t _ => ?_⟩
  rw [stream_setStream]
  split
  · exact hf _
  · rfl

theorem addStream (h : KeepsTimeouts w w') (x : Stream) : KeepsTimeouts w (w'.addStream x) := by
  refine h.trans ⟨by simp, fun t ht => ?_⟩
  rw [stream_addStream, if_neg (Nat.ne_of_lt ht)]

theorem eq (h : KeepsTimeouts w w') (same : w''.streams = w'.streams) : KeepsTimeouts w w'' :=
  h.trans (.of_eq same)

theorem detachPump (h : KeepsTimeouts w w') (s : StreamId) : KeepsTimeouts w (w'.detachPump s) := by
  have marked : KeepsTimeouts w (w'.setStream s fun x => { x with stopping := true, detached := true }) :=
    h.setStream s fun _ => rfl
  simp only [System.detachPump]
  split
  · exact (marked.setStream s (by exact fun _ => rfl)).eq rfl
  · exact marked.setStream s fun _ => rfl
  · exact marked

theorem endPump (h : KeepsTimeouts w w') (s : StreamId) (n : ConnectionId) :
    KeepsTimeouts w (w'.endPump s n) := by
  simp only [System.endPump]
  split
  · exact (h.setStream s (by exact fun _ => rfl)).eq rfl
  · exact h.setStream s fun _ => rfl

end KeepsTimeouts

theorem Drift.keepsTimeouts (h : Drift m w w') : KeepsTimeouts w w' := by
  induction h with
  | still h => exact .of_eq h.streams
  | trans _ _ ih₁ ih₂ => exact ih₁.trans ih₂
  | push => exact (KeepsTimeouts.refl _).setStream _ fun _ => rfl
  | stop => exact (KeepsTimeouts.refl _).endPump _ _
  | crash => exact ((KeepsTimeouts.refl _).setStream _ (by exact fun _ => rfl)).eq rfl
  | lose => exact (KeepsTimeouts.refl _).detachPump _

theorem Work.keepsTimeouts (h : Work m s i j w w') : KeepsTimeouts w w' := by
  have set : ∀ {v v' : System} {g : Stream → Stream}, v'.streams = (v.setStream s g).streams →
      (∀ x, (g x).openTimeout = x.openTimeout) → KeepsTimeouts v v' := fun same hg =>
    ((KeepsTimeouts.refl _).setStream s hg).eq same
  induction h with
  | drift h => exact h.keepsTimeouts
  | trans _ _ ih₁ ih₂ => exact ih₁.trans ih₂
  | ask | connect | fail | void | halt | collect | bury | shut => exact set rfl fun _ => rfl
  | forsake | quit => exact .of_eq rfl
  | leave => exact (KeepsTimeouts.refl _).detachPump _

theorem Change.keepsTimeouts (hc : Change m w w') : KeepsTimeouts w w' := by
  have set : ∀ {v v' : System} {t : StreamId} {g : Stream → Stream}, KeepsTimeouts w v →
      v'.streams = (v.setStream t g).streams → (∀ x, (g x).openTimeout = x.openTimeout) →
      KeepsTimeouts w v' := fun h same hg => (h.setStream _ hg).eq same
  cases hc with
  | stay => exact .refl w
  | begin => exact .of_eq (streams_begin ..)
  | make => exact (KeepsTimeouts.refl w).addStream _
  | letGo => exact (KeepsTimeouts.refl w).setStream _ fun _ => rfl
  | drop | go | demoteJoin | miss | refuse | sweep => exact .of_eq rfl
  | work actor work => exact work.keepsTimeouts.eq rfl
  | giveUp actor place work => exact work.keepsTimeouts.eq rfl
  | register actor place work => exact set work.keepsTimeouts rfl fun _ => rfl
  | demote | «open» =>
    rw [beginOpen_eq]
    exact (KeepsTimeouts.addStream (.of_eq rfl) _).eq rfl
  | provide | reuse | detach | last => exact set (.refl w) rfl fun _ => rfl

theorem keepsTimeouts_step (w : System) (m : Move) : KeepsTimeouts w (w.step m) := by
  obtain ⟨w₁, w₂, h₁, hc, h₂⟩ := step_books w m
  exact (h₁.keepsTimeouts.trans hc.keepsTimeouts).trans h₂.keepsTimeouts

/-! ### The clock -/

/-- Nothing but time itself moves the clock. -/
theorem Wired.clock_step (h : w.Wired w.jobs) (hm : ∀ ms, m ≠ .elapse ms) :
    (w.step m).clock = w.clock := by
  cases m with
  | elapse ms => exact absurd rfl (hm ms)
  | cancel t =>
    unfold System.step
    dsimp only
    split <;> rfl
  | setDesk desk => rfl
  | _ => exact ((h.paces_step _).surroundings rfl).1

/-! ### How an attempt begins -/

/-- The next turn of the call begins to open `s` under the token, and does so in `v`. -/
inductive BeginsOpen (w : System) (c : CallId) (s : StreamId) (token : Option Token) : System → Prop where
  /-- The call opens the stream by itself. -/
  | alone (place : w.phaseOf c = .dialStart s token) : BeginsOpen w c s token w
  /-- It is a move of an open for a slot. -/
  | move {a : Acquisition} {rest : List OpenMove}
      (place : w.phaseOf c = .opening a s (.connect token :: rest) .nowhere) :
      BeginsOpen w c s token w
  /-- It is the move after a connection that is made with this turn. -/
  | atOnce {a : Acquisition} {rest : List OpenMove} {d : Dial}
      (place : w.phaseOf c = .opening a s (.connect token :: rest) (.dialing d))
      (made : (w.finishOpen c s d).2 = .ok ()) : BeginsOpen w c s token (w.finishOpen c s d).1

/-- What an attempt on the stream waits with that begins now. -/
def dialOn (w : System) (s : StreamId) (token : Option Token) : Dial :=
  ⟨w.connections.size, w.clock + (w.terms.headD {}).delay,
    w.clock + (w.stream s).openTimeout.ceilMillis, token⟩

/-- The call waits for the tuner with the dial `d`. -/
inductive Dialing (p : Phase) (s : StreamId) (d : Dial) : Prop where
  | alone (place : p = .dialing s d)
  | within {a : Acquisition} {moves : List OpenMove} (place : p = .opening a s moves (.dialing d))

theorem Dialing.job (h : Dialing p s d) : p.job? = some (s, .dial d) := by
  cases h with
  | alone place => rw [place]; rfl
  | within place => rw [place]; rfl

theorem Dialing.due (h : Dialing p s d) : p.due = [d.answer, d.deadline] := by
  cases h with
  | alone place => rw [place]; rfl
  | within place => rw [place]; rfl

theorem Dialing.holds (h : Dialing p s d) : s ∈ p.holds := by
  cases h with
  | alone place => rw [place]; exact List.mem_singleton_self s
  | within place => rw [place]; exact List.mem_singleton_self s

theorem Dialing.lt (h : Dialing (w.phaseOf c) s d) : c < w.calls.size :=
  w.lt_of_phaseOf c fun hp => by
    have job := h.job
    rw [hp] at job
    cases job

theorem Dialing.ready (h : Dialing (w.phaseOf c) s d) : w.ready (.call c) = w.dialDue d := by
  cases h with
  | alone place => simp only [System.ready, place, phaseReady]
  | within place => simp only [System.ready, place, phaseReady, openWaitDue]

theorem streams_size_connected (w : System) (c : CallId) (s : StreamId) (n : ConnectionId) :
    (w.connected c s n).streams.size = w.streams.size :=
  (w.setLink n .live).streams_size_setStream s _

theorem stream_connected (hs : s < w.streams.size) : (w.connected c s n).stream s =
    { w.stream s with lifecycle := .connected, feed := true, pump := .reading n,
                      buffer := .ofCapacity (w.stream s).capacity } :=
  stream_setStream_self _ _ _ hs

/-- Unless a connection has just been made, an open begins where the turn does. -/
theorem BeginsOpen.first (h : w.BeginsOpen c s token v)
    (unopened : (v.stream s).lifecycle = .unopened) : v = w ∧ (w.phaseOf c = .dialStart s token ∨
      ∃ a rest, w.phaseOf c = .opening a s (.connect token :: rest) .nowhere) := by
  cases h with
  | alone place => exact ⟨rfl, .inl place⟩
  | move place => exact ⟨rfl, .inr ⟨_, _, place⟩⟩
  | @atOnce a rest d place made =>
    rcases w.finishOpen_cases c s d with ⟨l, e, -, he⟩ | he
    · rw [he] at made
      cases made
    · rw [he] at unopened
      have hs : s < w.streams.size := by
        rw [← w.streams_size_connected c s d.connection]
        exact lt_of_lifecycle (by rw [unopened]; rintro ⟨⟩)
      rw [stream_connected hs] at unopened
      cases unopened

theorem BeginsOpen.lt (h : w.BeginsOpen c s token v) : c < w.calls.size := by
  refine w.lt_of_phaseOf c fun hp => ?_
  cases h with
  | alone place | move place | atOnce place => rw [hp] at place; cases place

/-- A token that has fired keeps the tuner from being asked. -/
theorem startOpen_fired (unopened : (w.stream s).lifecycle = .unopened) (fired : w.hasFired token) :
    w.startOpen c s token = (w, .finished (.error (.cancelled (w.stream s).key))) := by
  simp [startOpen, unopened, fired]

theorem startOpen_unfired (unopened : (w.stream s).lifecycle = .unopened)
    (unfired : w.hasFired token = false) :
    w.startOpen c s token = (w.ask s, .dialing (w.dialOn s token)) := by
  simp [startOpen, unopened, unfired, dialOn]

/-- With the turn the tuner is asked, and the call waits. -/
theorem BeginsOpen.asks (h : w.BeginsOpen c s token v) (unopened : (v.stream s).lifecycle = .unopened)
    (unfired : w.hasFired token = false) : ∃ p, Dialing p s (w.dialOn s token) ∧
      w.step (.turn (.call c)) = (w.ask s).setPhase c p := by
  obtain ⟨rfl, place | ⟨a, rest, place⟩⟩ := h.first unopened
  · refine ⟨.dialing s (v.dialOn s token), .alone rfl, ?_⟩
    simp only [step, turn, ready, place, phaseReady, if_true, turnCall, turnDialStart,
      startOpen_unfired unopened unfired]
  · refine ⟨.opening a s rest (.dialing (v.dialOn s token)), .within rfl, ?_⟩
    simp only [step, turn, ready, place, phaseReady, openWaitDue, if_true, turnCall, turnOpening,
      nextMove, startOpen_unfired unopened unfired]

/-! ### How an attempt ends -/

/-- From `v` to `w` the call fails with the error, and nothing else changes in the streams and the
connections. -/
structure GivesUp (v w : System) (c : CallId) (e : StreamError) : Prop where
  result : w.phaseOf c = .finished (.failed e)
  streams : w.streams = v.streams
  connections : w.connections = v.connections
  sightings : w.sightings = v.sightings
  terms : w.terms = v.terms

theorem reap_unconnected (h : (w.stream s).lifecycle ≠ .connected) : w.reap s = w := by
  simp [reap, Stream.isConnected, h]

theorem givesUp_alone (hc : c < v.calls.size) (down : (v.stream s).lifecycle ≠ .connected)
    (e : StreamError) : GivesUp v ((v.finish c (.failed e)).reap s) c e := by
  rw [reap_unconnected (by exact down)]
  exact ⟨by rw [finish_eq, phaseOf_setPhase, if_pos ⟨rfl, hc⟩], rfl, rfl, rfl, rfl⟩

theorem givesUp_within (hc : c < v.calls.size) (down : (v.stream s).lifecycle ≠ .connected)
    (e : StreamError) : GivesUp v (v.failOpen c a s e) c e := by
  have kept : ((v.finish c (.failed e)).endOpen c a.key none).reap s =
      (v.finish c (.failed e)).endOpen c a.key none := reap_unconnected down
  simp only [failOpen, kept]
  refine ⟨?_, rfl, rfl, rfl, rfl⟩
  rw [((Frame.refl (S := ∅) _).announce c _).phaseOf, phaseOf_note,
    ((Frame.refl (S := ∅) _).record _ _).phaseOf, phaseOf_endOpen, finish_eq, phaseOf_setPhase,
    if_pos ⟨rfl, hc⟩]

/-- A call whose token has fired fails with its turn, and does not ask the tuner. -/
theorem BeginsOpen.cancelled (h : w.BeginsOpen c s token v)
    (unopened : (v.stream s).lifecycle = .unopened) (fired : w.hasFired token) :
    GivesUp w (w.step (.turn (.call c))) c (.cancelled (w.stream s).key) := by
  have hc := h.lt
  obtain ⟨rfl, place | ⟨a, rest, place⟩⟩ := h.first unopened
  all_goals have down : (v.stream s).lifecycle ≠ .connected := by rw [unopened]; rintro ⟨⟩
  · simp only [step, turn, ready, place, phaseReady, if_true, turnCall, turnDialStart,
      startOpen_fired unopened fired]
    exact givesUp_alone hc down _
  · simp only [step, turn, ready, place, phaseReady, openWaitDue, if_true, turnCall, turnOpening,
      nextMove, startOpen_fired unopened fired]
    exact givesUp_within hc down _

/-- A call whose attempt has failed fails with its turn. -/
theorem Dialing.fails (h : Dialing (w.phaseOf c) s d) (due : w.dialDue d) {l : LinkState}
    (ends : w.finishOpen c s d = (w.unconnected s d.connection l, .error e)) :
    GivesUp (w.unconnected s d.connection l) (w.step (.turn (.call c))) c e := by
  have hc : c < (w.unconnected s d.connection l).calls.size := h.lt
  have down : ((w.unconnected s d.connection l).stream s).lifecycle ≠ .connected := by
    rw [unconnected, stream_setStream]
    split
    · rintro ⟨⟩
    · rename_i hs
      rw [not_and] at hs
      rw [stream_of_size_le _ _ (Nat.le_of_not_lt (hs rfl))]
      rintro ⟨⟩
  have ready : w.ready (.call c) = true := h.ready.trans due
  simp only [step, turn, ready, if_true]
  cases h with
  | alone place =>
    simp only [place, turnCall, turnDialing, ends]
    exact givesUp_alone hc down e
  | within place =>
    simp only [place, turnCall, turnOpening, ends]
    exact givesUp_within hc down e

/-- A call that opens a stream by itself is done when it has its connection; one that opens it for a slot
goes on at once. -/
theorem Dialing.succeeds (h : Dialing (w.phaseOf c) s d) (due : w.dialDue d)
    (ends : w.finishOpen c s d = (w.connected c s d.connection, .ok ())) :
    (w.phaseOf c = .dialing s d ∧
      w.step (.turn (.call c)) = ((w.connected c s d.connection).finish c .done).reap s) ∨
    ∃ a moves, w.phaseOf c = .opening a s moves (.dialing d) ∧
      w.step (.turn (.call c)) = (w.connected c s d.connection).nextMove c a s moves := by
  have ready : w.ready (.call c) = true := h.ready.trans due
  simp only [step, turn, ready, if_true]
  cases h with
  | alone place =>
    refine .inl ⟨place, ?_⟩
    simp only [place, turnCall, turnDialing, ends]
  | within place =>
    refine .inr ⟨_, _, place, ?_⟩
    simp only [place, turnCall, turnOpening, ends]

/-! ### What becomes of a connection that was given -/

/-- The stream has been given its connection, its pump reads, and nobody has let go of it. -/
structure Reads (w : System) (s : StreamId) (n : ConnectionId) : Prop where
  connected : (w.stream s).lifecycle = .connected
  reading : (w.stream s).pump = .reading n
  whole : (w.stream s).detached = false
  own : (w.connection n).stream = s

/-- A pump that reads goes on with its connection when its stream is destroyed. -/
theorem detachPump_of_reading (reading : (w.stream s).pump = .reading n) :
    w.detachPump s = w.setStream s fun x => { x with stopping := true, detached := true } := by
  have marked : ((w.setStream s fun x => { x with stopping := true, detached := true }).stream
      s).pump = .reading n := by
    rw [stream_setStream]
    split <;> exact reading
  simp only [detachPump, marked]

/-- A stream that is destroyed while its pump reads has its connection until the pump stops. -/
theorem connections_reap (reading : (w.stream s).pump = .reading n) :
    (w.reap s).connections = w.connections := by
  simp only [reap, detachPump_of_reading reading]
  split
  · rfl
  · split <;> rfl

/-- A stream that is destroyed keeps its place in life, and so does a pump that reads. -/
theorem reads_reap (connected : (w.stream s).lifecycle = .connected)
    (reading : (w.stream s).pump = .reading n) : ((w.reap s).stream s).lifecycle = .connected ∧
      ((w.reap s).stream s).pump = .reading n := by
  refine ⟨(((Drift.refl (m := .elapse 0) w).reap s).frame.lifecycle s (Set.notMem_empty s)).trans
    connected, ?_⟩
  simp only [reap, detachPump_of_reading reading]
  split
  · exact reading
  · split
    · rw [stream_note, stream_setStream]
      split <;> exact reading
    · exact reading

theorem connections_failOpen (reading : (w.stream s).pump = .reading n) (e : StreamError) :
    (w.failOpen c a s e).connections = w.connections := by
  have kept : (((w.finish c (.failed e)).endOpen c a.key none).reap s).connections =
      ((w.finish c (.failed e)).endOpen c a.key none).connections := connections_reap reading
  exact kept

/-- No move of an open lets go of a connection that has just been made. -/
theorem Reads.connections_nextMove (h : w.Reads s n) (l : List OpenMove) :
    (w.nextMove c a s l).connections = w.connections := by
  cases l with
  | nil =>
    simp only [nextMove, concludeOpen]
    split <;> rfl
  | cons move rest =>
    cases move with
    | pause ms => rfl
    | fail e => exact connections_failOpen h.reading e
    | connect token =>
      have start : w.startOpen c s token =
          (w.note c (.openMisused (w.stream s).key (w.stream s).lifecycle.state),
            .finished (.error (w.openBreach s))) := startOpen_refused (by
        rw [Stream.state_of_connected h.connected]
        split <;> rintro ⟨⟩)
      simp only [nextMove, start]
      exact connections_failOpen (w := w.note _ _) h.reading _
    | exhaust =>
      have on : (w.stream s).pump.connection? = some n := by rw [h.reading]; rfl
      have ended : ∀ e, ((w.note none e).endPump s n).connections = w.connections := by
        intro e
        simp only [endPump, stream_note, h.whole, Bool.false_eq_true, if_false]
        rfl
      simp only [nextMove, on, deliver, h.own]
      split
      · exact ended _
      · rfl
    | close =>
      simp only [nextMove, startClose, h.connected]
      rfl

end System

end TunerBroker
