import TunerBroker.Proofs.Access.Gate
import TunerBroker.Proofs.Sources.MirrorWork
import TunerBroker.Proofs.Streams.Paces

/-! Lockstep. A call that is shown takes its turns in the mirror as it does in the system, as long as what
it adds is shown too and the tuner gives it the same answers. -/

namespace TunerBroker

namespace System

/-- An open goes on from a turn of a close that is one of its moves. -/
def settleOpening (w : System) (c : CallId) (a : Acquisition) (s : StreamId) (rest : List OpenMove) :
    CloseStep → System
  | .stage stage => w.setPhase c (.opening a s rest (.closing stage))
  | .finished (.ok _) => w.setPhase c (.opening a s rest .nowhere)
  | .finished (.error e) => w.failOpen c a s e

theorem nextMove_close (w : System) (c : CallId) (a : Acquisition) (s : StreamId) (rest : List OpenMove) :
    w.nextMove c a s (.close :: rest) =
      (w.startClose c s).1.settleOpening c a s rest (w.startClose c s).2 := by
  rcases h : w.startClose c s with ⟨w₁, _ | ⟨_ | _⟩⟩ <;> simp only [nextMove, h] <;> rfl

theorem turnOpening_closing (w : System) (c : CallId) (a : Acquisition) (s : StreamId)
    (rest : List OpenMove) (stage : CloseStage) : w.turnOpening c a s rest (.closing stage) =
      (w.advanceClose c s stage).1.settleOpening c a s rest (w.advanceClose c s stage).2 := by
  rcases h : w.advanceClose c s stage with ⟨w₁, _ | ⟨_ | _⟩⟩ <;> simp only [turnOpening, h] <;> rfl

end System

namespace Excerpt

open TunerBroker.System

/-! ### Moves about what is shown -/

def errand (E : Excerpt) : Errand → Errand
  | .acquire a => .acquire (E.wish a)
  | .enter ctx a => .enter ctx (E.wish a)
  | .release i => .release (E.consumers i)
  | .sweep => .sweep
  | .openStream s token => .openStream (E.streams s) token
  | .closeStream s => .closeStream (E.streams s)

def move (E : Excerpt) : Move → Move
  | .turn (.call c) => .turn (.call (E.calls c))
  | .turn (.pump s) => .turn (.pump (E.streams s))
  | .start b gated x => .start b gated (E.errand x)
  | .deliver n e => .deliver (E.connections n) e
  | .cancel t => .cancel t
  | .abandon c => .abandon (E.calls c)
  | .provide c (.ok s) => .provide (E.calls c) (.ok (E.streams s))
  | .provide c (.error e) => .provide (E.calls c) (.error (E.error e))
  | .dropConsumer i => .dropConsumer (E.consumers i)
  | .make r config => .make r config
  | .letGo s => .letGo (E.streams s)
  | .setDesk desk => .setDesk desk
  | .elapse ms => .elapse ms

/-- A call made for this on the broker is shown. No sweep is. -/
def showsErrand (E : Excerpt) (b : BrokerId) : Errand → Bool
  | .acquire a | .enter _ a => E.sources (b, a.key)
  | .release i => E.consumers.shows i
  | .openStream s _ | .closeStream s => E.streams.shows s
  | .sweep => false

/-- The move is one of what is shown, or changes the surroundings. -/
def showsMove (E : Excerpt) (w : System) : Move → Bool
  | .turn (.call c) | .abandon c | .provide c (.error _) => E.calls.shows c
  | .turn (.pump s) | .letGo s => E.streams.shows s
  | .start b _ x => E.showsErrand b x
  | .deliver n _ => E.connections.shows n
  | .provide c (.ok s) => E.calls.shows c && E.streams.shows s
  | .dropConsumer i => E.consumers.shows i
  | .make _ _ => E.streams.shows w.streams.size
  | .cancel _ | .setDesk _ | .elapse _ => true

variable {E : Excerpt} {g : BrokerId → Counters} {v w w' : System} {c o : CallId} {s : StreamId}
  {n : ConnectionId} {i : ConsumerId} {a : Acquisition}

theorem origin_errand (x : Errand) : (E.errand x).origin = E.phase x.origin := by cases x <;> rfl

theorem holds_origin {b : BrokerId} {x : Errand} (shown : E.showsErrand b x) :
    ∀ s ∈ x.origin.holds, s ∈ E.streams := by
  intro s hs
  cases x with
  | openStream t token =>
    rw [List.mem_singleton.1 hs]
    exact shown
  | closeStream t =>
    rw [List.mem_singleton.1 hs]
    exact shown
  | acquire | enter | release | sweep => cases hs

/-- With a call, a consumer or a connection an excerpt that is closed shows what they refer to. -/
structure Closed (E : Excerpt) (w : System) : Prop where
  wish : ∀ c ∈ E.calls, ∀ a, (w.phaseOf c).wish? = some a → (w.brokerOf c, a.key) ∈ E
  joins : ∀ c ∈ E.calls, ∀ a o, w.phaseOf c = .waiting a o → o ∈ E.calls
  releases : ∀ c ∈ E.calls, ∀ i, w.phaseOf c = .releasing i → i ∈ E.consumers
  consumer : ∀ i ∈ E.consumers, ∀ x, w.consumers.get? i = some x → x.stream ∈ E.streams
  place : ∀ n ∈ E.connections, n < w.connections.size → (w.connection n).stream ∈ E.streams
  dials : ∀ c ∈ E.calls, ∀ s d, (w.phaseOf c).job? = some (s, .dial d) → E.Links w d.connection s

/-- What `w'` has more than `w` is shown, and the tuner answers in `v` as it does in `w`. -/
structure Admits (E : Excerpt) (v w w' : System) : Prop where
  calls : w.calls.size < w'.calls.size → w.calls.size ∈ E.calls
  streams : w.streams.size < w'.streams.size → w.streams.size ∈ E.streams
  connections : w.connections.size < w'.connections.size → w.connections.size ∈ E.connections
  consumers : w.consumers.size < w'.consumers.size → w.consumers.size ∈ E.consumers
  answers : w.connections.size < w'.connections.size → v.terms.headD {} = w.terms.headD {}

theorem Admits.congr {v₁ w₁ : System} (h : E.Admits v w w') (calls : w₁.calls.size = w.calls.size)
    (streams : w₁.streams.size = w.streams.size)
    (connections : w₁.connections.size = w.connections.size)
    (consumers : w₁.consumers.size = w.consumers.size) (hv : v₁.terms = v.terms)
    (hw : w₁.terms = w.terms) : E.Admits v₁ w₁ w' := by
  constructor
  · rw [calls]
    exact h.calls
  · rw [streams]
    exact h.streams
  · rw [connections]
    exact h.connections
  · rw [consumers]
    exact h.consumers
  · rw [connections, hv, hw]
    exact h.answers

namespace Mirrors

section

variable (h : E.Mirrors g v w) (hc : c ∈ E.calls)

include h hc

/-- The broker of the call counts. -/
theorem tick (t : Tick) : E.Mirrors g (v.record (v.brokerOf (E.calls c)) t)
    (w.record (w.brokerOf c) t) := by
  rw [h.brokerOf c hc]
  exact h.record _ t

/-! ### Seeking and waiting -/

theorem enqueue (hk : (w.brokerOf c, a.key) ∈ E)
    (fresh : w.streams.size < (w.enqueue c a).streams.size → w.streams.size ∈ E.streams) :
    E.Mirrors g (v.enqueue (E.calls c) (E.wish a)) (w.enqueue c a) := by
  have covers := h.covers _ _ hk
  have flight : ((E.slot (w.slot (w.brokerOf c) a.key)).opening.filter v.inFlight) =
      ((w.slot (w.brokerOf c) a.key).opening.filter w.inFlight).map E.calls := by
    cases ho : (w.slot (w.brokerOf c) a.key).opening with
    | none => simp [ho]
    | some o =>
      simp only [opening_slot, ho, Option.map_some, Option.filter_some, h.inFlight (covers.opening o ho)]
      split <;> rfl
  simp only [System.enqueue, h.brokerOf c hc, key_wish, h.slot _ _ hk, flight] at fresh ⊢
  cases ho : (w.slot (w.brokerOf c) a.key).opening.filter w.inFlight with
  | none =>
    rw [ho] at fresh
    exact h.beginOpen hc (fresh (by simp)) hk covers
  | some o => exact h.setPhase hc rfl (by simp [Phase.holds])

theorem reuse (hs : s ∈ E.streams) (hi : w.consumers.size ∈ E.consumers) :
    E.Mirrors g (v.reuse (E.calls c) (E.wish a) (E.streams s)) (w.reuse c a s) := by
  have counted := h.tuneStream hs (f := fun x => { x with consumers := x.consumers + 1 }) rfl rfl
  exact ((counted.attach hc hs hi).tick hc .reused).note _ _ _ _

theorem seek (hk : (w.brokerOf c, a.key) ∈ E) (admits : E.Admits v w (w.seek c a)) :
    E.Mirrors g (v.seek (E.calls c) (E.wish a)) (w.seek c a) := by
  have covers := h.covers _ _ hk
  have fresh := admits.streams
  have joined := admits.consumers
  simp only [System.seek, h.brokerOf c hc, key_wish, h.slot _ _ hk, shared_slot] at fresh joined ⊢
  cases hs : (w.slot (w.brokerOf c) a.key).shared with
  | none =>
    simp only [hs] at fresh
    exact h.enqueue hc hk fresh
  | some s =>
    have shown := covers.shared hs
    simp only [hs, Option.map_some, h.stream s shown, consumers_stream, isLive_stream, media_wish,
      request_stream] at fresh joined ⊢
    by_cases unattended : (w.stream s).consumers = 0
    · simp only [if_pos unattended]
      exact (h.note _ _ _ _).finish hc rfl
    · simp only [if_neg unattended] at fresh joined ⊢
      by_cases live : (w.stream s).isLive
      · simp only [if_pos live] at joined ⊢
        cases hm : a.media.filter (· ≠ (w.stream s).request.media) with
        | none =>
          simp only [hm] at joined
          refine h.reuse hc shown (joined ?_)
          simp [System.reuse, System.attach, System.addConsumer, System.record, System.note]
        | some media => exact (h.note _ _ _ _).finish hc rfl
      · simp only [if_neg live] at fresh ⊢
        refine enqueue ?_ hc hk fresh
        exact putSlot (h.note _ _ _ _) hk (slot_demote covers).symm (covers_demote covers)

theorem endWait (ho : o ∈ E.calls) :
    E.Mirrors g (v.endWait (E.calls c) (E.wish a) (E.calls o)) (w.endWait c a o) := by
  have told := h.announcedBy o ho
  simp only [System.announcedBy] at told
  simp only [System.endWait, h.hasFired, cancel_wish, key_wish, told]
  split
  · exact h.finish hc rfl
  · cases (w.calls.get? o).bind (·.announced) with
    | none => exact h.setPhase hc rfl (by simp [Phase.holds])
    | some x =>
      cases x with
      | opened => exact h.setPhase hc rfl (by simp [Phase.holds])
      | failed e => exact (h.note _ _ _ _).finish hc rfl

/-! ### Opening -/

section

variable (hk : (w.brokerOf c, a.key) ∈ E) (hs : s ∈ E.streams)

include hk hs

theorem failOpen (e : StreamError) :
    E.Mirrors g (v.failOpen (E.calls c) (E.wish a) (E.streams s) (E.error e)) (w.failOpen c a s e) := by
  have failed := h.finish hc (o := .failed e) rfl
  have ended := failed.endOpen hc (k := a.key) (by rwa [finish_eq, brokerOf_setPhase])
  exact announce (note (tick (ended.reap hs) hc .openFailed) _ _ _ _) hc rfl

theorem concludeOpen (joined : w.consumers.size < (w.concludeOpen c a s).consumers.size →
      w.consumers.size ∈ E.consumers) :
    E.Mirrors g (v.concludeOpen (E.calls c) (E.wish a) (E.streams s)) (w.concludeOpen c a s) := by
  simp only [System.concludeOpen, key_wish, h.stream s hs, key_stream, isConnected_stream,
    state_stream, sharing_stream] at joined ⊢
  split
  · have rejecting := h.hold hc hs (p := .rejecting s none
      (.violation a.key (.unfit (w.stream s).state (w.stream s).key))) rfl rfl
    have ended := rejecting.endOpen hc (k := a.key) (by rwa [brokerOf_setPhase])
    exact announce (note ended _ _ _ _) hc rfl
  · rename_i fit
    simp only [if_neg fit] at joined
    have counted := h.tuneStream hs (f := fun x => { x with consumers := x.consumers + 1 }) rfl rfl
    have listed := counted.register hc hs hk
    have attached := listed.attach hc hs (joined (by
      simp [System.announce, System.note, System.record, System.attach, System.addConsumer]))
    exact announce (note (tick attached hc .opened) _ _ _ _) hc rfl

omit h hk in
/-- The open is still at work on its stream. -/
theorem opening (h : E.Mirrors g v w) (rest : List OpenMove) (x : OpenWait) :
    E.Mirrors g (v.setPhase (E.calls c) (.opening (E.wish a) (E.streams s) (rest.map E.openMove) (E.wait x)))
      (w.setPhase c (.opening a s rest x)) :=
  h.hold hc hs rfl rfl

theorem settleOpening (rest : List OpenMove) (x : CloseStep) :
    E.Mirrors g
      (v.settleOpening (E.calls c) (E.wish a) (E.streams s) (rest.map E.openMove) (E.closeStep x))
      (w.settleOpening c a s rest x) := by
  cases x with
  | stage stage => exact h.opening hc hs rest (.closing stage)
  | finished r =>
    cases r with
    | ok u => exact h.opening hc hs rest .nowhere
    | error e => exact h.failOpen hc hk hs e

theorem nextMove (l : List OpenMove) (admits : E.Admits v w (w.nextMove c a s l)) :
    E.Mirrors g (v.nextMove (E.calls c) (E.wish a) (E.streams s) (l.map E.openMove))
      (w.nextMove c a s l) := by
  cases l with
  | nil => exact h.concludeOpen hc hk hs admits.consumers
  | cons move rest =>
    cases move with
    | pause ms =>
      simp only [List.map_cons, openMove, System.nextMove, h.clock]
      exact h.opening hc hs rest (.pausing (w.clock + ms))
    | fail e => exact h.failOpen hc hk hs e
    | connect token =>
      have dials : (w.stream s).lifecycle = .unopened → w.hasFired token = false →
          w.connections.size < (w.nextMove c a s (.connect token :: rest)).connections.size := by
        intro unopened unfired
        simp [System.nextMove, System.startOpen, unopened, unfired, System.ask, System.witness,
          System.setStream, System.setPhase]
      obtain ⟨started, next⟩ := h.startOpen hs c (E.calls c) token fun unopened unfired =>
        ⟨admits.connections (dials unopened unfired), admits.answers (dials unopened unfired)⟩
      have kept : (w.startOpen c s token).1.brokerOf c = w.brokerOf c :=
        (hushed_startOpen w c s token).brokerOf c
      simp only [List.map_cons, openMove, System.nextMove]
      rcases hw : w.startOpen c s token with ⟨w₁, x⟩
      rcases hv : v.startOpen (E.calls c) (E.streams s) token with ⟨v₁, y⟩
      rw [hw, hv] at started next
      rw [hw] at kept
      subst next
      cases x with
      | dialing d => exact started.opening hc hs rest (.dialing d)
      | finished r =>
        cases r with
        | ok u => exact started.opening hc hs rest .nowhere
        | error e => exact started.failOpen hc (by rwa [kept]) hs e
    | exhaust =>
      simp only [List.map_cons, openMove, System.nextMove, h.stream s hs, pump_stream, connection?_pump]
      refine opening hc hs ?_ rest .ending
      cases hn : (w.stream s).pump.connection? with
      | none => exact h
      | some n =>
        obtain ⟨shown, there, place⟩ := h.pumps s hs n hn
        exact h.deliver shown there (by rwa [place]) .finish
    | close =>
      obtain ⟨started, next⟩ := h.startClose hs c (E.calls c)
      simp only [List.map_cons, openMove, nextMove_close, next]
      exact started.settleOpening hc (by rwa [(hushed_startClose w c s).brokerOf]) hs rest _

theorem turnOpening (l : List OpenMove) (x : OpenWait)
    (dials : ∀ d, x = .dialing d → E.Links w d.connection s)
    (admits : E.Admits v w (w.turnOpening c a s l x)) :
    E.Mirrors g (v.turnOpening (E.calls c) (E.wish a) (E.streams s) (l.map E.openMove) (E.wait x))
      (w.turnOpening c a s l x) := by
  cases x with
  | nowhere => exact h.nextMove hc hk hs l admits
  | outside => exact h
  | pausing due | ending => exact h.opening hc hs l .nowhere
  | dialing d =>
    obtain ⟨ended, next⟩ := h.finishOpen hs c (E.calls c) (dials d rfl)
    have kept : (w.finishOpen c s d).1.brokerOf c = w.brokerOf c :=
      (calm_finishOpen w c s d).brokerOf c
    simp only [wait, System.turnOpening] at admits ⊢
    rcases w.finishOpen_cases c s d with ⟨l, e, -, hw⟩ | hw
    · rcases hv : v.finishOpen (E.calls c) (E.streams s) (E.dial d) with ⟨v₁, y⟩
      rw [hw, hv] at ended next
      rw [hw] at kept ⊢
      subst next
      exact ended.failOpen hc (by rwa [kept]) hs e
    · rcases v.finishOpen_cases (E.calls c) (E.streams s) (E.dial d) with ⟨l, e, -, hv⟩ | hv
      · rw [hw, hv] at next
        cases next
      · rw [hw, hv] at ended
        rw [hw] at kept admits
        rw [hw, hv]
        refine ended.nextMove hc (by rwa [kept]) hs _ (admits.congr rfl ?_ ?_ rfl rfl rfl)
        · simp [System.connected, System.setLink, System.note]
        · simp [System.connected, System.setLink, System.note, System.setStream]
  | closing stage =>
    obtain ⟨ended, next⟩ := h.advanceClose hs c (E.calls c) stage
    simp only [wait, turnOpening_closing, next]
    exact ended.settleOpening hc (by rwa [(calm_advanceClose w c s stage).brokerOf]) hs l _

end

/-! ### Refusing, releasing, and calls on a stream by itself -/

/-- A call ends and lets go of its stream. -/
theorem leave (hs : s ∈ E.streams) (x : Outcome) :
    E.Mirrors g ((v.finish (E.calls c) (E.outcome x)).reap (E.streams s)) ((w.finish c x).reap s) :=
  (h.finish hc rfl).reap hs

theorem settleRejection (hs : s ∈ E.streams) (e : StreamError) (x : CloseStep) :
    E.Mirrors g (v.settleRejection (E.calls c) (E.streams s) (E.error e) (E.closeStep x))
      (w.settleRejection c s e x) := by
  cases x with
  | stage stage => exact h.hold hc hs rfl rfl
  | finished r =>
    cases r with
    | ok u => exact h.leave hc hs (.failed e)
    | error f => exact (h.note _ _ _ _).leave hc hs (.failed e)

theorem turnRejecting (hs : s ∈ E.streams) (e : StreamError) (stage : Option CloseStage) :
    E.Mirrors g (v.turnRejecting (E.calls c) (E.streams s) (E.error e) stage)
      (w.turnRejecting c s e stage) := by
  obtain ⟨closing, next⟩ := h.turnClose hs c (E.calls c) stage
  simp only [System.turnRejecting, next]
  exact closing.settleRejection hc hs e _

theorem settleTear (hs : s ∈ E.streams) (x : CloseStep) :
    E.Mirrors g (v.settleTear (E.calls c) (E.streams s) (E.closeStep x)) (w.settleTear c s x) := by
  cases x with
  | stage stage => exact h.hold hc hs rfl rfl
  | finished r =>
    have counted : E.Mirrors g (v.account (v.brokerOf (E.calls c)) (E.result r))
        (w.account (w.brokerOf c) r) := by
      rw [h.brokerOf c hc]
      exact h.account _ rfl
    cases r with
    | ok u => exact counted.leave hc hs .done
    | error e => exact counted.leave hc hs (.failed e)

theorem turnTearing (hs : s ∈ E.streams) (stage : Option CloseStage) :
    E.Mirrors g (v.turnTearing (E.calls c) (E.streams s) stage) (w.turnTearing c s stage) := by
  obtain ⟨closing, next⟩ := h.turnClose hs c (E.calls c) stage
  simp only [System.turnTearing, next]
  exact closing.settleTear hc hs _

theorem settleClose (hs : s ∈ E.streams) (x : CloseStep) :
    E.Mirrors g (v.settleClose (E.calls c) (E.streams s) (E.closeStep x)) (w.settleClose c s x) := by
  cases x with
  | stage stage => exact h.hold hc hs rfl rfl
  | finished r =>
    cases r with
    | ok u => exact h.leave hc hs .done
    | error e => exact h.leave hc hs (.failed e)

theorem turnDialStart (hs : s ∈ E.streams) (token : Option Token)
    (admits : E.Admits v w (w.turnDialStart c s token)) :
    E.Mirrors g (v.turnDialStart (E.calls c) (E.streams s) token) (w.turnDialStart c s token) := by
  have dials : (w.stream s).lifecycle = .unopened → w.hasFired token = false →
      w.connections.size < (w.turnDialStart c s token).connections.size := by
    intro unopened unfired
    simp [System.turnDialStart, System.startOpen, unopened, unfired, System.ask, System.witness,
      System.setStream, System.setPhase]
  obtain ⟨started, next⟩ := h.startOpen hs c (E.calls c) token fun unopened unfired =>
    ⟨admits.connections (dials unopened unfired), admits.answers (dials unopened unfired)⟩
  simp only [System.turnDialStart]
  rcases hw : w.startOpen c s token with ⟨w₁, x⟩
  rcases hv : v.startOpen (E.calls c) (E.streams s) token with ⟨v₁, y⟩
  rw [hw, hv] at started next
  subst next
  cases x with
  | dialing d => exact started.hold hc hs rfl rfl
  | finished r =>
    cases r with
    | ok u => exact started.leave hc hs .done
    | error e => exact started.leave hc hs (.failed e)

theorem turnDialing (hs : s ∈ E.streams) {d : Dial} (hd : E.Links w d.connection s) :
    E.Mirrors g (v.turnDialing (E.calls c) (E.streams s) (E.dial d)) (w.turnDialing c s d) := by
  obtain ⟨ended, next⟩ := h.finishOpen hs c (E.calls c) hd
  simp only [System.turnDialing]
  rcases hw : w.finishOpen c s d with ⟨w₁, x⟩
  rcases hv : v.finishOpen (E.calls c) (E.streams s) (E.dial d) with ⟨v₁, y⟩
  rw [hw, hv] at ended next
  subst next
  cases x with
  | ok u => exact ended.leave hc hs .done
  | error e => exact ended.leave hc hs (.failed e)

theorem enter (ctx : RequestContext) (a : Acquisition) :
    E.Mirrors g (v.enter (E.calls c) ctx (E.wish a)) (w.enter c ctx a) := by
  have asked := h.note (some (E.calls c)) (some c) (.authorizationDecided .liveTvAccess)
    (.authorizationDecided .liveTvAccess)
  simp only [System.enter, System.authorized, h.desk]
  by_cases accepted : (w.desk.decide ctx .liveTvAccess).isAccepted
  · simp only [accepted, if_true]
    exact asked.setPhase hc (p := .seeking a) rfl (by simp [Phase.holds])
  · simp only [accepted]
    exact (asked.note _ _ _ _).finish hc (o := .denied _) rfl

/-- The consumer is shown with its stream, which is listed only where that shows. -/
theorem release (hi : i ∈ E.consumers)
    (hs : ∀ x, w.consumers.get? i = some x → x.stream ∈ E.streams) :
    E.Mirrors g (v.release (E.calls c) (E.consumers i)) (w.release c i) := by
  have there := h.consumer i hi
  simp only [System.release]
  cases hx : w.consumers.get? i with
  | none =>
    rw [hx] at there
    simp only [there, Option.map_none]
    exact h.finish hc rfl
  | some x =>
    have shown := hs x hx
    have refused : ∀ e e' key breach, E.Mirrors g
        (v.refuseRelease (E.calls c) (E.consumers i) e key breach) (w.refuseRelease c i e' key breach) :=
      fun e e' key breach =>
        note (finish (h.setStanding hi .refused) hc (o := .failed (.violation key breach)) rfl) _ _ _ _
    have registered : (v.slot (w.brokerOf c) x.key).isRegistered (E.streams x.stream) =
        (w.slot (w.brokerOf c) x.key).isRegistered x.stream := by
      rw [Bool.eq_iff_iff, Slot.isRegistered_iff, Slot.isRegistered_iff, h.mem_slot shown]
    have counted := tuneStream (h.setStanding hi .released) shown
      (f := fun y => { y with consumers := y.consumers - 1 }) rfl rfl
    rw [hx] at there
    simp only [there, Option.map_some, Excerpt.consumer, h.isHeld shown, h.brokerOf c hc, registered,
      h.stream _ shown, consumers_stream, counted.stream _ shown]
    by_cases vanished : (!w.isHeld x.stream) = true
    · simp only [if_pos vanished]
      exact refused _ _ _ _
    simp only [if_neg vanished]
    by_cases unlisted : (!(w.slot (w.brokerOf c) x.key).isRegistered x.stream) = true
    · simp only [if_pos unlisted]
      exact refused _ _ _ _
    simp only [if_neg unlisted]
    by_cases uncounted : (w.stream x.stream).consumers = 0
    · simp only [if_pos uncounted]
      exact refused _ _ _ _
    simp only [if_neg uncounted]
    by_cases others : (((w.setStanding i .released).setStream x.stream fun y =>
        { y with consumers := y.consumers - 1 }).stream x.stream).consumers ≠ 0
    · simp only [if_pos others]
      exact note (finish counted hc (o := .done) rfl) _ _ _ _
    · have hk : (w.brokerOf c, x.key) ∈ E := by
        by_contra beside
        refine (h.unlisted _ _ beside _ shown).2 ((Slot.isRegistered_iff _ _).1 ?_)
        simpa using unlisted
      have covers := h.covers _ _ hk
      simp only [if_neg others, h.slot _ _ hk]
      exact note (hold (counted.putSlot hk (slot_deregister covers shown).symm
        (covers_deregister covers _)) hc shown (p := .tearing x.stream none) rfl rfl) _ _ _ _

/-! ### Turns -/

theorem turnCall (closed : E.Closed w) (still : (w.phaseOf c).isSweep = false)
    (admits : E.Admits v w (w.turnCall c (w.phaseOf c))) :
    E.Mirrors g (v.turnCall (E.calls c) (v.phaseOf (E.calls c))) (w.turnCall c (w.phaseOf c)) := by
  have holds := h.holds c hc
  have wish := closed.wish c hc
  have dials := closed.dials c hc
  rw [h.phaseOf c hc]
  cases hp : w.phaseOf c with
  | admission ctx a => exact h.enter hc ctx a
  | seeking a =>
    rw [hp] at wish admits
    exact h.seek hc (wish a rfl) admits
  | waiting a o => exact h.endWait hc (closed.joins c hc a o hp)
  | opening a s moves x =>
    rw [hp] at holds wish dials admits
    refine h.turnOpening hc (wish a rfl) (holds s (List.mem_singleton_self s)) moves x ?_ admits
    rintro d rfl
    exact dials s d rfl
  | rejecting s stage e =>
    rw [hp] at holds
    exact h.turnRejecting hc (holds s (List.mem_singleton_self s)) e stage
  | releasing i =>
    have hi := closed.releases c hc i hp
    exact h.release hc hi (closed.consumer i hi)
  | tearing s stage =>
    rw [hp] at holds
    exact h.turnTearing hc (holds s (List.mem_singleton_self s)) stage
  | sweepStart | sweeping current rest n =>
    rw [hp] at still
    cases still
  | dialStart s token =>
    rw [hp] at holds admits
    exact h.turnDialStart hc (holds s (List.mem_singleton_self s)) token admits
  | dialing s d =>
    rw [hp] at holds dials
    exact h.turnDialing hc (holds s (List.mem_singleton_self s)) (dials s d rfl)
  | closeStart s =>
    rw [hp] at holds
    have hs := holds s (List.mem_singleton_self s)
    obtain ⟨closing, next⟩ := h.turnClose hs c (E.calls c) none
    simp only [phase, System.turnCall, next]
    exact closing.settleClose hc hs _
  | closing s stage =>
    rw [hp] at holds
    have hs := holds s (List.mem_singleton_self s)
    obtain ⟨closing, next⟩ := h.turnClose hs c (E.calls c) (some stage)
    simp only [phase, System.turnCall, next]
    exact closing.settleClose hc hs _
  | finished o | abandoned => exact h

theorem phaseReady (closed : E.Closed w) (still : (w.phaseOf c).isSweep = false) :
    v.phaseReady (v.phaseOf (E.calls c)) = w.phaseReady (w.phaseOf c) := by
  have holds := h.holds c hc
  rw [h.phaseOf c hc]
  cases hp : w.phaseOf c with
  | waiting a o =>
    simp [phase, System.phaseReady, h.hasFired, h.openOver (closed.joins c hc a o hp)]
  | opening a s moves x =>
    rw [hp] at holds
    exact h.openWaitDue (holds s (List.mem_singleton_self s)) x
  | rejecting s stage _ | tearing s stage =>
    rw [hp] at holds
    cases stage with
    | none => rfl
    | some stage => exact h.stageDue (holds s (List.mem_singleton_self s)) stage
  | closing s stage =>
    rw [hp] at holds
    exact h.stageDue (holds s (List.mem_singleton_self s)) stage
  | sweepStart | sweeping current rest n =>
    rw [hp] at still
    cases still
  | dialing s d => exact h.dialDue d
  | admission | seeking | releasing | dialStart | closeStart | finished | abandoned => rfl

theorem turn (closed : E.Closed w) (still : (w.phaseOf c).isSweep = false)
    (admits : E.Admits v w (w.turn (.call c))) :
    E.Mirrors g (v.turn (.call (E.calls c))) (w.turn (.call c)) := by
  simp only [System.turn, ready, h.phaseReady hc closed still] at admits ⊢
  by_cases due : w.phaseReady (w.phaseOf c)
  · simp only [due, if_true] at admits ⊢
    exact h.turnCall hc closed still admits
  · simpa [due] using h

theorem abandon (closed : E.Closed w) (still : (w.phaseOf c).isSweep = false) :
    E.Mirrors g (v.abandon (E.calls c)) (w.abandon c) := by
  have holds := h.holds c hc
  have wish := closed.wish c hc
  simp only [System.abandon, h.phaseOf c hc, isSuspended_phase]
  by_cases awake : (!(w.phaseOf c).isSuspended) = true
  · simp only [if_pos awake]
    exact h
  simp only [if_neg awake]
  have gone : ∀ {v w : System}, E.Mirrors g v w →
      E.Mirrors g (v.setPhase (E.calls c) .abandoned) (w.setPhase c .abandoned) := fun h =>
    h.setPhase hc rfl (by simp [Phase.holds])
  cases hp : w.phaseOf c with
  | opening a s moves x =>
    rw [hp] at holds wish
    have hs := holds s (List.mem_singleton_self s)
    have kept : (w.abandonWait s x).brokerOf c = w.brokerOf c := (calm_abandonWait w s x).brokerOf c
    refine note (reap (endOpen (gone (h.abandonWait hs x)) hc ?_) hs) _ _ _ _
    rw [brokerOf_setPhase, kept]
    exact wish a rfl
  | rejecting s stage _ | tearing s stage =>
    rw [hp] at holds
    have hs := holds s (List.mem_singleton_self s)
    cases stage with
    | none => exact gone h
    | some stage => exact (gone (h.abandonClose hs stage)).reap hs
  | closing s stage =>
    rw [hp] at holds
    have hs := holds s (List.mem_singleton_self s)
    exact (gone (h.abandonClose hs stage)).reap hs
  | dialing s d =>
    rw [hp] at holds
    exact (gone (h.setLink _ _ _ _)).reap (holds s (List.mem_singleton_self s))
  | sweepStart | sweeping current rest n =>
    rw [hp] at still
    cases still
  | waiting | admission | seeking | releasing | dialStart | closeStart | finished | abandoned =>
    exact gone h

end

/-! ### Steps -/

section

variable (h : E.Mirrors g v w)

include h

theorem provide (hc : c ∈ E.calls) (hs : s ∈ E.streams) :
    E.Mirrors g (v.provide (E.calls c) (.ok (E.streams s))) (w.provide c (.ok s)) := by
  simp only [System.provide, h.phaseOf c hc]
  cases hp : w.phaseOf c with
  | opening a t moves x =>
    cases x with
    | outside =>
      simp only [phase, wait, h.isFree hs]
      split
      · have taken := h.tuneStream hs (f := fun x => { x with named := false }) rfl rfl
        exact taken.hold hc hs (p := .opening a s moves .nowhere) rfl rfl
      · exact h
    | nowhere | pausing | dialing | ending | closing => exact h
  | _ => exact h

theorem provideError (hc : c ∈ E.calls) (e : StreamError) :
    E.Mirrors g (v.provide (E.calls c) (.error (E.error e))) (w.provide c (.error e)) := by
  have holds := h.holds c hc
  simp only [System.provide, h.phaseOf c hc]
  cases hp : w.phaseOf c with
  | opening a t moves x =>
    rw [hp] at holds
    cases x with
    | outside => exact h.setPhase hc (p := .opening a t [.fail e] .nowhere) rfl holds
    | nowhere | pausing | dialing | ending | closing => exact h
  | _ => exact h

theorem dropConsumer (hi : i ∈ E.consumers) :
    E.Mirrors g (v.dropConsumer (E.consumers i)) (w.dropConsumer i) := by
  simp only [System.dropConsumer, h.consumer i hi]
  cases w.consumers.get? i with
  | none => exact h
  | some x =>
    simp only [Option.map_some, Excerpt.consumer]
    split
    · exact (h.setStanding hi .dropped).note _ _ _ _
    · exact h

theorem isAllowed {b : BrokerId} {x : Errand} (shown : E.showsErrand b x) :
    (E.errand x).isAllowed v b = x.isAllowed w b := by
  cases x with
  | acquire a | enter ctx a => simp [errand, Errand.isAllowed, h.brokers]
  | release i =>
    simp only [errand, Errand.isAllowed, h.brokers, h.consumer i shown]
    cases w.consumers.get? i <;> rfl
  | sweep => cases shown
  | openStream s token => simp [errand, Errand.isAllowed, h.stream s shown]
  | closeStream s => simp [errand, Errand.isAllowed, h.stream s shown]

theorem start {b : BrokerId} {gated : Bool} {x : Errand} (shown : E.showsErrand b x)
    (admits : w.calls.size < (w.start b gated x).calls.size → w.calls.size ∈ E.calls) :
    E.Mirrors g (v.start b gated (E.errand x)) (w.start b gated x) := by
  simp only [System.start, h.isAllowed shown] at admits ⊢
  cases allowed : x.isAllowed w b with
  | false => simpa using h
  | true =>
    have begun : w.calls.size < (w.begin b gated x).calls.size := by
      simp [calls_begin]
    simp only [allowed, if_true] at admits ⊢
    have added := h.addCall (admits begun) (x := { broker := b, gated, phase := (E.errand x).origin })
      (y := { broker := b, gated, phase := x.origin }) (origin_errand x) rfl rfl (holds_origin shown)
    cases x with
    | release i => exact added.setStanding shown _
    | acquire | enter | openStream | closeStream => exact added
    | sweep => cases shown

theorem letGo (hs : s ∈ E.streams) :
    E.Mirrors g (v.step (.letGo (E.streams s))) (w.step (.letGo s)) :=
  (h.tuneStream hs (f := fun x => { x with named := false }) rfl rfl).reap hs

/-- A step with what is shown, taken alike in the mirror, leaves them mirrored. -/
theorem step {m : Move} (hv : v.Wired v.jobs) (hw : w.Wired w.jobs) (closed : E.Closed w)
    (still : ∀ c, m.actor = some c → (w.phaseOf c).isSweep = false) (shown : E.showsMove w m)
    (admits : E.Admits v w (w.step m)) : E.Mirrors g (v.step (E.move m)) (w.step m) := by
  cases m with
  | turn r =>
    cases r with
    | call c => exact h.turn shown closed (still c rfl) admits
    | pump s =>
      have hs : s ∈ E.streams := shown
      simp only [move, System.step, System.turn, ready, h.stream s hs, pump_stream, stopping_stream,
        isReading_pump]
      by_cases due : (w.stream s).pump.isReading && (w.stream s).stopping
      · simpa only [due, if_true] using h.turnPump hs
      · simpa [due] using h
  | start b gated x => exact h.start shown admits.calls
  | deliver n e =>
    have hn : n ∈ E.connections := shown
    by_cases there : n < w.connections.size
    · exact h.deliver hn there (closed.place n hn there) e
    · have there' : ¬ E.connections n < v.connections.size := by rwa [h.connections, Pick.lt_iff hn]
      simpa only [move, System.step, hv.deliver_missing there', hw.deliver_missing there] using h
  | cancel t =>
    simp only [move, System.step, h.fired]
    split
    · exact h
    · exact { h with fired := rfl }
  | abandon c => exact h.abandon shown closed (still c rfl)
  | provide c r =>
    cases r with
    | ok s =>
      simp only [showsMove, Bool.and_eq_true] at shown
      exact h.provide shown.1 shown.2
    | error e => exact h.provideError shown e
  | dropConsumer i => exact h.dropConsumer shown
  | make r config => exact h.addStream shown rfl
  | letGo s => exact h.letGo shown
  | setDesk desk => exact { h with desk := rfl }
  | elapse ms => exact { h with clock := by rw [move, System.step, System.step, h.clock] }

end

end Mirrors

end Excerpt

end TunerBroker
