import TunerBroker.Proofs.Opens.Dialing

/-! The race that an open is. Its token, the answer of the tuner and its timeout are looked at in this
order; while time passes only where the call has nothing to do, and no further than to the moment at which
its wait ends, the three times and the terms of the tuner decide how it comes out. A failed attempt leaves
the stream as it was before, so that it can be opened again, and no connection that was given is lost. -/

namespace TunerBroker

/-- How the race for the connection of a stream comes out, if its token has fired by then or not. A tuner
that answers at the very deadline is in time. -/
def Stream.verdict (x : Stream) (tuner : TunerTerms) (fired : Bool) : Except StreamError Unit :=
  if fired then .error (.cancelled x.key)
  else if tuner.delay ≤ x.openTimeout.ceilMillis then
    match tuner.failure with
    | some message => .error (.connect x.key message)
    | none => .ok ()
  else .error (.openTimeout x.key x.openTimeout)

namespace System

variable {m : Move} {w w' u v : System} {c : CallId} {a : Acquisition} {s t : StreamId}
  {n : ConnectionId} {p : Phase} {d : Dial} {token : Option Token} {e : StreamError}
  {J : CallId → Option (StreamId × Job)} {x : Stream} {tuner : TunerTerms}

/-! ### What a stream has -/

/-- The stream is as it was made: it has no feed, no pump and no connection, and may be opened. -/
structure HoldsNothing (w : System) (s : StreamId) : Prop where
  state : (w.stream s).state = .unopened
  feed : (w.stream s).feed = false
  pump : (w.stream s).pump = .idle
  connections : w.establishedFor s = 0

/-- The stream delivers: its feed is open, its pump reads, and the connection is the only one. -/
structure HoldsOne (w : System) (s : StreamId) (n : ConnectionId) : Prop where
  state : (w.stream s).state = .live
  feed : (w.stream s).feed = true
  pump : (w.stream s).pump = .reading n
  link : (w.connection n).state = .live
  connections : w.establishedFor s = 1

/-- The attempt of the call is not decided. The stream has nothing yet, and neither the tuner's answer nor
the deadline is past. The call can go on just when its token has fired or one of the two has come. -/
structure Undecided (w : System) (c : CallId) (s : StreamId) (d : Dial) : Prop where
  waits : Dialing (w.phaseOf c) s d
  state : (w.stream s).state = .opening
  feed : (w.stream s).feed = false
  pump : (w.stream s).pump = .idle
  link : (w.connection d.connection).state = .dialing
  connections : w.establishedFor s = 0
  early : w.clock ≤ min d.answer d.deadline
  ready : w.ready (.call c) ↔ w.hasFired d.token ∨ w.clock = min d.answer d.deadline

/-- With the turn of the call from `v` to `w` its attempt comes out. -/
inductive ComesOut (v w : System) (c : CallId) (s : StreamId) (d : Dial) :
    Except StreamError Unit → Prop where
  /-- The call fails, the stream is as it was before the attempt, and the tuner gives no connection. -/
  | failed {e : StreamError} (result : w.phaseOf c = .finished (.failed e)) (restored : w.HoldsNothing s)
      (without : (w.connection d.connection).state.isEstablished = false) : ComesOut v w c s d (.error e)
  /-- The stream has its connection. A call that opens it by itself is done with that, and an open for a
  slot makes its next move. From then on the connection is with the pump of the stream. -/
  | opened (given : (v.connected c s d.connection).HoldsOne s d.connection)
      (goes : v.phaseOf c = .dialing s d ∧ w.phaseOf c = .finished .done ∧ w.HoldsOne s d.connection ∨
        ∃ a moves, v.phaseOf c = .opening a s moves (.dialing d) ∧
          w = (v.connected c s d.connection).nextMove c a s moves)
      (live : (w.connection d.connection).state = .live)
      (kept : ∀ later, ((w.run later).stream s).pump.connection? = some d.connection) :
      ComesOut v w c s d (.ok ())

/-- Without a pump no connection has been given. -/
theorem Wired.establishedFor_eq_zero (h : w.Wired J) (idle : (w.stream s).pump = .idle) :
    w.establishedFor s = 0 := by
  refine List.countP_eq_zero.2 fun y hy counted => ?_
  obtain ⟨rfl, established⟩ := of_decide_eq_true counted
  obtain ⟨n, hn⟩ := List.mem_iff_getElem?.1 hy
  have pump := h.connection_eq (n := n) hn established
  rw [idle] at pump
  cases pump

theorem Wired.holdsNothing (h : w.Wired J) (unopened : (w.stream s).lifecycle = .unopened) :
    w.HoldsNothing s := by
  have fit := h.fit s
  have idle : (w.stream s).pump = .idle ∧ (w.stream s).feed = false := by
    cases hp : (w.stream s).pump <;> simp_all [Stream.IsFit]
  refine ⟨?_, idle.2, idle.1, h.establishedFor_eq_zero idle.1⟩
  rw [Stream.state_of_lifecycle (by rw [unopened]; rintro ⟨⟩), unopened]
  rfl

theorem Wired.holdsOne (h : w.Wired J) (connected : (w.stream s).lifecycle = .connected)
    (reading : (w.stream s).pump = .reading n) : w.HoldsOne s n := by
  have fit := h.fit s
  have feed : (w.stream s).feed = true := by simp_all [Stream.IsFit]
  obtain ⟨y, hy, place, live⟩ := h.linked (s := s) (n := n) (l := .live) (by rw [Stream.link?, reading])
  have counted : 0 < w.establishedFor s :=
    List.countP_pos_iff.2 ⟨y, List.mem_of_getElem? hy, decide_eq_true ⟨place, by rw [live]; rfl⟩⟩
  refine ⟨by rw [Stream.state_of_connected connected, feed]; rfl, feed, reading, ?_,
    Nat.le_antisymm (h.establishedFor_le s) counted⟩
  rw [connection, hy, Option.getD_some, live]

/-! ### Time that waits for the call -/

/-- Time passes only where the call has nothing to do, and never past the moment at which its wait ends by
itself. -/
def Punctual (c : CallId) (w : System) : List Move → Prop
  | [] => True
  | m :: moves =>
    (∀ ms, m = .elapse ms →
      w.ready (.call c) = false ∧ ∀ t ∈ (w.phaseOf c).due, w.clock + ms ≤ t) ∧
    Punctual c (w.step m) moves

/-! ### What stays while the race is on -/

/-- The race of a call for the connection of the stream `x` is on, and no moment that ends it is past. -/
structure Races (x : Stream) (tuner : TunerTerms) (c : CallId) (s : StreamId) (d : Dial) (w : System) :
    Prop where
  waits : Dialing (w.phaseOf c) s d
  made : s < w.streams.size
  asked : d.connection < w.connections.size
  key : (w.stream s).key = x.key
  timeout : (w.stream s).openTimeout = x.openTimeout
  tuner : (w.connection d.connection).terms = tuner
  early : w.clock ≤ min d.answer d.deadline

namespace Races

theorem undecided (h : Races x tuner c s d w) (wired : w.Wired w.jobs) : w.Undecided c s d := by
  obtain ⟨opening, y, hy, place, dialing⟩ := wired.manned (c := c) h.waits.job
  have fit := wired.fit s
  have idle : (w.stream s).pump = .idle ∧ (w.stream s).feed = false := by
    cases hp : (w.stream s).pump <;> simp_all [Stream.IsFit]
  refine ⟨h.waits, ?_, idle.2, idle.1, ?_, wired.establishedFor_eq_zero idle.1, h.early, ?_⟩
  · rw [Stream.state_of_lifecycle (by rw [opening]; rintro ⟨⟩), opening]
    rfl
  · rw [connection, hy, Option.getD_some, dialing]
  · have early := h.early
    rw [h.waits.ready, dialDue, Bool.or_eq_true, Bool.or_eq_true, decide_eq_true_eq,
      decide_eq_true_eq, or_assoc]
    refine or_congr_right ?_
    omega

/-- A move that is not the turn of the call leaves it where it is. -/
theorem phase_step (h : Races x tuner c s d w) (kept : m ≠ .abandon c)
    (on : m = .turn (.call c) → w.ready (.call c) = false) : (w.step m).phaseOf c = w.phaseOf c := by
  by_cases actor : m.actor = some c
  · unfold Move.actor at actor
    split at actor
    · cases actor
      simp only [step, turn, on rfl, Bool.false_eq_true, if_false]
    · cases actor
      exact absurd rfl kept
    · cases actor
      have unmoved : ∀ r, w.provide c r = w := by
        intro r
        cases h.waits with
        | alone place => simp only [provide, place]
        | within place => simp only [provide, place]
      simp only [step, unmoved]
    · cases actor
  · exact (step_other h.waits.lt actor).1

theorem step (h : Races x tuner c s d w) (wired : w.Wired w.jobs) (kept : m ≠ .abandon c)
    (on : m = .turn (.call c) → w.ready (.call c) = false)
    (time : ∀ ms, m = .elapse ms → ∀ t ∈ (w.phaseOf c).due, w.clock + ms ≤ t) :
    Races x tuner c s d (w.step m) where
  waits := by rw [h.phase_step kept on]; exact h.waits
  made := h.made.trans_le (wired.paces_step m).size
  asked := by
    obtain ⟨y, hy⟩ := Table.get?_of_lt_size h.asked
    obtain ⟨z, hz, -⟩ := keepsTerms_step w m _ y hy
    exact Table.lt_size_of_get? hz
  key := by rw [Stream.key, request_step h.made]; exact h.key
  timeout := ((keepsTimeouts_step w m).timeout s h.made).trans h.timeout
  tuner := ((keepsTerms_step w m).terms h.asked).trans h.tuner
  early := by
    by_cases elapses : ∃ ms, m = .elapse ms
    · obtain ⟨ms, rfl⟩ := elapses
      have answer := time ms rfl d.answer (by rw [h.waits.due]; simp)
      have deadline := time ms rfl d.deadline (by rw [h.waits.due]; simp)
      exact Nat.le_min.2 ⟨answer, deadline⟩
    · rw [wired.clock_step fun ms hm => elapses ⟨ms, hm⟩]
      exact h.early

/-- The race is still on, or has been up to a turn of the call. Time stands still from the moment at which
the token fires to that turn. -/
theorem run (h : Races x tuner c s d w) (wired : w.Wired w.jobs) {later : List Move}
    (punctual : w.Punctual c later) (kept : .abandon c ∉ later) :
    Races x tuner c s d (w.run later) ∨
    ∃ early late, later = early ++ .turn (.call c) :: late ∧ Races x tuner c s d (w.run early) ∧
      (w.run early).ready (.call c) ∧ ∀ before after, early = before ++ after →
        (w.run before).hasFired d.token → (w.run before).clock = (w.run early).clock := by
  induction later generalizing w with
  | nil => exact .inl h
  | cons m later ih =>
    by_cases ends : m = .turn (.call c) ∧ w.ready (.call c)
    · obtain ⟨rfl, ready⟩ := ends
      refine .inr ⟨[], later, rfl, h, ready, fun before after parts _ => ?_⟩
      rw [(List.append_eq_nil_iff.1 parts.symm).1]
    · have on : m = .turn (.call c) → w.ready (.call c) = false := fun hm =>
        Bool.eq_false_of_not_eq_true fun ready => ends ⟨hm, ready⟩
      have next := h.step wired (fun hm => kept (hm ▸ List.mem_cons_self)) on
        fun ms hm => (punctual.1 ms hm).2
      refine (ih next (wired.step m) punctual.2 fun hm => kept (List.mem_cons_of_mem m hm)).imp id ?_
      rintro ⟨early, late, rfl, races, ready, still⟩
      refine ⟨m :: early, late, rfl, races, ready, fun before after parts fired => ?_⟩
      cases before with
      | cons m' before =>
        obtain ⟨rfl, rest⟩ := List.cons.inj parts
        exact still before after rest fired
      | nil =>
        have can : w.ready (.call c) := (h.undecided wired).ready.2 (.inl fired)
        have stands : (w.step m).clock = w.clock := wired.clock_step fun ms hm => by
          rw [(punctual.1 ms hm).1] at can
          cases can
        refine stands.symm.trans (still [] early rfl ?_)
        cases hf : (w.step m).hasFired d.token with
        | true => exact hf
        | false =>
          rw [show w.run [] = w from rfl, hasFired_run [m] hf] at fired
          cases fired

/-- The attempt ends as the three times and the terms of the tuner have it. -/
theorem finishOpen_eq {t₀ : Nat} (h : Races x tuner c s d w) (answer : d.answer = t₀ + tuner.delay)
    (deadline : d.deadline = t₀ + x.openTimeout.ceilMillis) (due : w.dialDue d) :
    (w.finishOpen c s d).2 = x.verdict tuner (w.hasFired d.token) := by
  simp only [finishOpen, Stream.verdict, h.key, h.timeout, h.tuner]
  cases fired : w.hasFired d.token with
  | true => simp only [if_true]
  | false =>
    have inTime : d.answer ≤ w.clock ↔ tuner.delay ≤ x.openTimeout.ceilMillis := by
      have early := h.early
      simp only [dialDue, fired, Bool.false_or, Bool.or_eq_true, decide_eq_true_eq] at due
      omega
    simp only [Bool.false_eq_true, if_false, inTime]
    split
    · cases tuner.failure <;> rfl
    · rfl

theorem failed {l : LinkState} (h : Races x tuner c s d w) (wired : w.Wired w.jobs)
    (due : w.dialDue d) (lost : l = .refused ∨ l = .forsaken)
    (ends : w.finishOpen c s d = (w.unconnected s d.connection l, .error e)) :
    ComesOut w (w.step (.turn (.call c))) c s d (.error e) := by
  have g := h.waits.fails due ends
  have unopened : ((w.step (.turn (.call c))).stream s).lifecycle = .unopened := by
    rw [stream, g.streams]
    exact congrArg Stream.lifecycle (stream_setStream_self (w.setLink d.connection l) s _ h.made)
  refine .failed g.result ((wired.step _).holdsNothing unopened) ?_
  obtain ⟨-, y, hy, -, -⟩ := wired.manned (c := c) h.waits.job
  have link : (w.unconnected s d.connection l).connections.get? d.connection =
      some { y with state := l } := by
    refine (w.get?_setLink d.connection d.connection l).trans ?_
    rw [if_pos rfl, hy]
    rfl
  rw [connection, g.connections, link]
  rcases lost with rfl | rfl <;> rfl

theorem opened (h : Races x tuner c s d w) (wired : w.Wired w.jobs) (due : w.dialDue d)
    (ends : w.finishOpen c s d = (w.connected c s d.connection, .ok ())) :
    ComesOut w (w.step (.turn (.call c))) c s d (.ok ()) := by
  have after := wired.work (work_finishOpen (m := .elapse 0) w c s d)
    (w.isHeld_of_holds h.waits.holds) h.waits.job
  rw [ends] at after
  have whole : (w.stream s).detached = false := by
    have fit := wired.fit s
    have opening := (wired.manned (c := c) h.waits.job).1
    cases hp : (w.stream s).pump <;> simp_all [Stream.IsFit]
  have stream := w.stream_connected (c := c) (n := d.connection) h.made
  have connected : ((w.connected c s d.connection).stream s).lifecycle = .connected := by rw [stream]
  have reading : ((w.connected c s d.connection).stream s).pump = .reading d.connection := by rw [stream]
  obtain ⟨y, hy, place, live⟩ := after.linked (s := s) (n := d.connection) (l := .live)
    (by rw [Stream.link?, reading])
  have reads : (w.connected c s d.connection).Reads s d.connection :=
    ⟨connected, reading, by rw [stream]; exact whole, by rw [connection, hy]; exact place⟩
  have next := wired.step (.turn (.call c))
  -- Whichever way the call goes on, it leaves the connections as they are.
  have goes : (w.phaseOf c = .dialing s d ∧ (w.step (.turn (.call c))).phaseOf c = .finished .done ∧
      (w.step (.turn (.call c))).HoldsOne s d.connection ∨
        ∃ a moves, w.phaseOf c = .opening a s moves (.dialing d) ∧
          w.step (.turn (.call c)) = (w.connected c s d.connection).nextMove c a s moves) ∧
      (w.step (.turn (.call c))).connections = (w.connected c s d.connection).connections := by
    rcases h.waits.succeeds due ends with ⟨alone, stepped⟩ | ⟨a, moves, within, stepped⟩
    · have reaped := reads_reap (w := (w.connected c s d.connection).finish c .done) connected reading
      have gone : (w.step (.turn (.call c))).phaseOf c = .finished .done := by
        rw [stepped, ((Drift.refl (m := .elapse 0) _).reap s).frame.phaseOf, finish_eq,
          phaseOf_setPhase, if_pos ⟨rfl, h.waits.lt⟩]
      refine ⟨.inl ⟨alone, gone, next.holdsOne (by rw [stepped]; exact reaped.1)
        (by rw [stepped]; exact reaped.2)⟩, ?_⟩
      rw [stepped]
      exact connections_reap (w := (w.connected c s d.connection).finish c .done) reading
    · exact ⟨.inr ⟨a, moves, within, stepped⟩, by rw [stepped]; exact reads.connections_nextMove moves⟩
  have own := next.connection_eq (n := d.connection) (by rw [goes.2]; exact hy) (by rw [live]; rfl)
  rw [place] at own
  refine .opened (after.holdsOne connected reading) goes.1 ?_ fun later => ?_
  · rw [connection, goes.2, hy]
    exact live
  · refine (next.pump_run (fun idle => ?_) later).1.trans own
    rw [idle] at own
    cases own

theorem comesOut (h : Races x tuner c s d w) (t₀ : Nat) (wired : w.Wired w.jobs)
    (answer : d.answer = t₀ + tuner.delay) (deadline : d.deadline = t₀ + x.openTimeout.ceilMillis)
    (ready : w.ready (.call c)) :
    ComesOut w (w.step (.turn (.call c))) c s d (x.verdict tuner (w.hasFired d.token)) := by
  have due : w.dialDue d := h.waits.ready.symm.trans ready
  rw [← h.finishOpen_eq answer deadline due]
  rcases w.finishOpen_cases c s d with ⟨l, e, lost, ends⟩ | ends
  · rw [ends]
    exact h.failed wired due lost ends
  · rw [ends]
    exact h.opened wired due ends

end Races

/-- A call whose token has not fired asks the tuner with its turn, and the race is on. -/
theorem BeginsOpen.races (h : w.BeginsOpen c s token v)
    (unopened : (v.stream s).lifecycle = .unopened) (unfired : w.hasFired token = false) :
    Races (w.stream s) (w.terms.headD {}) c s (w.dialOn s token) (w.step (.turn (.call c))) ∧
      (w.step (.turn (.call c))).sightings = .connect w.connections.size (w.stream s).request.media.id
        (w.stream s).request.host.id :: w.sightings := by
  obtain ⟨p, waits, stepped⟩ := h.asks unopened unfired
  obtain ⟨rfl, -⟩ := h.first unopened
  have made : s < v.streams.size := lt_of_lifecycle (by rw [unopened]; rintro ⟨⟩)
  have stream : (v.ask s).stream s = { v.stream s with lifecycle := .opening } :=
    stream_setStream_self _ _ _ made
  rw [stepped]
  refine ⟨⟨?_, ?_, ?_, ?_, ?_, ?_, ?_⟩, rfl⟩
  · rw [phaseOf_setPhase, if_pos ⟨rfl, h.lt⟩]
    exact waits
  · exact made.trans_eq (streams_size_setStream _ s _).symm
  · exact Nat.lt_of_lt_of_eq (Nat.lt_succ_self _) (Table.size_add _ _).symm
  · rw [stream_setPhase, stream]
    rfl
  · rw [stream_setPhase, stream]
  · have asked : ((v.ask s).setPhase c p).connections.get? v.connections.size =
        some { stream := s, terms := v.terms.headD {} } :=
      (Table.get?_add _ _ _).trans (if_pos rfl)
    rw [connection, dialOn, asked]
    rfl
  · exact Nat.le_min.2 ⟨Nat.le_add_right _ _, Nat.le_add_right _ _⟩

/-! ### The result -/

/-- In every run, for every attempt to open a stream that is unopened, by itself or for a slot. If the
token has fired when it begins, the call fails as cancelled, the tuner is not asked, and nothing changes in
the streams and connections. Otherwise the tuner is asked once; and as long as time passes only where the
call has nothing to do, and it is not abandoned, either the attempt is undecided and the call waits, or it
has been up to a turn with which it comes out as the verdict says. The time of that turn is the one at
which the token fired, if it has, and else that of the tuner's answer or of the deadline, whichever is
first. A failed attempt leaves the stream unopened, with no feed, pump or connection, so that all this
holds for the next one. A connection that was given stays with the pump of the stream ever after. -/
theorem open_race (configs : List BrokerConfig) (desk : AccessDesk) (terms : List TunerTerms)
    (moves : List Move) :
    let w := (fresh configs desk terms).run moves
    ∀ c s token v, w.BeginsOpen c s token v → (v.stream s).state = .unopened →
      let x := w.stream s
      let tuner := w.terms.headD {}
      let d := w.dialOn s token
      let w₁ := w.step (.turn (.call c))
      (w.hasFired token → GivesUp w w₁ c (.cancelled x.key) ∧ w₁.HoldsNothing s) ∧
      (w.hasFired token = false →
        w₁.sightings = .connect d.connection x.request.media.id x.request.host.id :: w.sightings ∧
        ∀ later, w₁.Punctual c later → .abandon c ∉ later →
          (w₁.run later).Undecided c s d ∨
          ∃ early late, later = early ++ .turn (.call c) :: late ∧
            let u := w₁.run early
            u.Undecided c s d ∧ u.ready (.call c) ∧
            ComesOut u (u.step (.turn (.call c))) c s d (x.verdict tuner (u.hasFired token)) ∧
            (u.hasFired token = false → u.clock = w.clock + min tuner.delay x.openTimeout.ceilMillis) ∧
            ∀ before after, early = before ++ after → (w₁.run before).hasFired token →
              (w₁.run before).clock = u.clock) := by
  intro w c s token v begins state x tuner d w₁
  have wired : w.Wired w.jobs := (wired_fresh configs desk terms).run moves
  have unopened : (v.stream s).lifecycle = .unopened := (Stream.state_eq_iff (by rintro ⟨⟩)).1 state
  have next : w₁.Wired w₁.jobs := wired.step _
  refine ⟨fun fired => ?_, fun unfired => ?_⟩
  · have cancelled := begins.cancelled unopened fired
    refine ⟨cancelled, next.holdsNothing ?_⟩
    rw [stream, cancelled.streams]
    exact (begins.first unopened).1 ▸ unopened
  obtain ⟨races, asked⟩ := begins.races unopened unfired
  refine ⟨asked, fun later punctual kept => ?_⟩
  refine (races.run next punctual kept).imp (·.undecided (next.run later)) ?_
  rintro ⟨early, late, split, on, ready, still⟩
  have undecided := on.undecided (next.run early)
  refine ⟨early, late, split, undecided, ready, ?_, fun cold => ?_, still⟩
  · exact on.comesOut w.clock (next.run early) rfl rfl ready
  · have due := (undecided.ready.1 ready).resolve_left (by rw [show d.token = token from rfl, cold]; simp)
    refine due.trans ?_
    exact Nat.add_min_add_left w.clock _ _

/-- A stream that gives up after 49.5 milliseconds is made, and a call is about to open it. -/
def aboutToDial : List Move :=
  [.make sampleRequest { openTimeout := .ofMicros 49500 }, .start 0 false (.openStream 0 (some 7))]

/-- A tuner that takes 50 milliseconds answers that call in time. -/
theorem open_race_aboutToDial :
    let w := (fresh [{}] {} [{ delay := 50 }]).run aboutToDial
    let w₁ := w.step (.turn (.call 0))
    let later : List Move := [.elapse 50, .turn (.call 0)]
    w.BeginsOpen 0 0 (some 7) w ∧ (w.stream 0).state = .unopened ∧ w.hasFired (some 7) = false ∧
    w₁.Punctual 0 later ∧
    ∃ early late, later = early ++ .turn (.call 0) :: late ∧ (w₁.run early).clock = 50 ∧
      ComesOut (w₁.run early) ((w₁.run early).step (.turn (.call 0))) 0 0 (w.dialOn 0 (some 7)) (.ok ()) := by
  intro w w₁ later
  have begins : w.BeginsOpen 0 0 (some 7) w := .alone rfl
  have punctual : w₁.Punctual 0 later := by
    refine ⟨fun ms hm => ?_, fun ms hm => ?_, trivial⟩
    · cases hm
      exact ⟨by decide, by decide⟩
    · cases hm
  refine ⟨begins, by decide, by decide, punctual, ?_⟩
  obtain ⟨-, law⟩ := open_race [{}] {} [{ delay := 50 }] aboutToDial 0 0 (some 7) w begins (by decide)
  rcases (law (by decide)).2 later punctual (by simp [later]) with on | ⟨early, late, split, -, -, out, due, -⟩
  · have done : ((w₁.run later).phaseOf 0).job? = none := rfl
    rw [on.waits.job] at done
    cases done
  · have cold : (w₁.run early).hasFired (some 7) = false := by
      refine hasFired_run (.turn (.call 0) :: late) ?_
      rw [← run_append, ← split]
      decide
    rw [cold] at out
    exact ⟨early, late, split, due cold, out⟩

end System

end TunerBroker
