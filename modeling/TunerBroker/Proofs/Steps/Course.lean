import TunerBroker.Proofs.Steps.Advance
import TunerBroker.Proofs.Steps.Change

/-! The course of a call: where a move takes it from each place, what is counted on the way, and what it
announces. Counters change and announcements are made nowhere else. -/

namespace TunerBroker

/-- What the end of a close counts. -/
def closeTicks : Except StreamError Unit → List Tick
  | .ok _ => [.closed]
  | .error e => if e.isViolation then [] else [.closed, .closeFailed]

/-- How a call ends that ends with a close. -/
def Outcome.ofClose : Except StreamError Unit → Outcome
  | .ok _ => .done
  | .error e => .failed e

/-- A stream without a connection is reported as neither live nor ended. -/
theorem Stream.not_isConnected {x : Stream} (h : !x.isConnected) :
    x.state ≠ .live ∧ x.state ≠ .ended := by
  unfold isConnected at h
  unfold state
  cases hx : x.lifecycle <;> simp_all [Lifecycle.state]

namespace System

/-- A move takes the call to a place, has ticks counted, and has something announced. -/
inductive Course (m : Move) (w : System) (c : CallId) :
    Phase → List Tick → Option Announcement → Prop where
  | stay : Course m w c (w.phaseOf c) [] none
  | abandon (move : m = .abandon c) (suspended : (w.phaseOf c).isSuspended) :
      Course m w c .abandoned [] none
  | enter {ctx : RequestContext} {a : Acquisition} (place : w.phaseOf c = .admission ctx a) :
      Course m w c (.seeking a) [] none
  | deny {ctx : RequestContext} {a : Acquisition} {d : Decision}
      (place : w.phaseOf c = .admission ctx a) : Course m w c (.finished (.denied d)) [] none
  /-- The stream on offer has no consumer, which does not happen. -/
  | unattended {a : Acquisition} {s : StreamId} (place : w.phaseOf c = .seeking a)
      (shared : (w.slot (w.brokerOf c) a.key).shared = some s)
      (uncounted : (w.stream s).consumers = 0) :
      Course m w c (.finished (.failed (.violation a.key .unattended))) [] none
  /-- The stream on offer delivers other media than asked for. -/
  | differ {a : Acquisition} {s : StreamId} {x : MediaSource} (place : w.phaseOf c = .seeking a)
      (shared : (w.slot (w.brokerOf c) a.key).shared = some s) (live : (w.stream s).isLive)
      (other : a.media = some x ∧ x ≠ (w.stream s).request.media) :
      Course m w c (.finished (.failed (.mismatch a.key (w.stream s).request.media x))) [] none
  /-- The stream on offer is given to the call as well. -/
  | reuse {a : Acquisition} {s : StreamId} (place : w.phaseOf c = .seeking a)
      (shared : (w.slot (w.brokerOf c) a.key).shared = some s) (live : (w.stream s).isLive) :
      Course m w c (.finished (.attached w.consumers.size)) [.reused] none
  /-- The call waits for another's open. -/
  | join {a : Acquisition} {o : CallId} (place : w.phaseOf c = .seeking a)
      (taken : (w.slot (w.brokerOf c) a.key).opening.filter w.inFlight = some o) :
      Course m w c (.waiting a o) [] none
  | open {a : Acquisition} {s : StreamId} {wait : OpenWait} (place : w.phaseOf c = .seeking a)
      (vacant : (w.slot (w.brokerOf c) a.key).opening.filter w.inFlight = none)
      (ended : ∀ t, (w.slot (w.brokerOf c) a.key).shared = some t → (w.stream t).isLive = false) :
      Course m w c (.opening a s a.plan.moves wait) [] none
  /-- The token fires while the call waits for another's open. -/
  | cancel {a : Acquisition} {o : CallId} (place : w.phaseOf c = .waiting a o)
      (fired : w.hasFired a.cancel) :
      Course m w c (.finished (.failed (.cancelled a.key))) [] none
  /-- The open that the call has waited for has failed. -/
  | inherit {a : Acquisition} {o : CallId} {e : StreamError} (place : w.phaseOf c = .waiting a o)
      (told : w.announcedBy o = some (.failed e)) : Course m w c (.finished (.failed e)) [] none
  /-- The open that the call has waited for is over, but has not failed. -/
  | retry {a : Acquisition} {o : CallId} (place : w.phaseOf c = .waiting a o)
      (told : ∀ e, w.announcedBy o ≠ some (.failed e)) : Course m w c (.seeking a) [] none
  /-- The open goes on, with a stream from elsewhere if that is what it has waited for. -/
  | onward {a : Acquisition} {s t : StreamId} {moves rest : List OpenMove} {wait wait' : OpenWait}
      (place : w.phaseOf c = .opening a s moves wait) (same : t = s ∨ wait = .outside) :
      Course m w c (.opening a t rest wait') [] none
  | fail {a : Acquisition} {s : StreamId} {moves : List OpenMove} {wait : OpenWait}
      {e : StreamError} (place : w.phaseOf c = .opening a s moves wait) :
      Course m w c (.finished (.failed e)) [.openFailed] (some (.failed e))
  /-- The open gives a stream that is not fit to be listed. -/
  | reject {a : Acquisition} {s : StreamId} {moves : List OpenMove} {wait : OpenWait}
      {st : StreamState} {k : SourceKey} (place : w.phaseOf c = .opening a s moves wait)
      (unfit : k ≠ a.key ∨ st ≠ .live ∧ st ≠ .ended) :
      Course m w c (.rejecting s none (.violation a.key (.unfit st k))) []
        (some (.failed (.violation a.key (.unfit st k))))
  | give {a : Acquisition} {s : StreamId} {moves : List OpenMove} {wait : OpenWait}
      {i : ConsumerId} (place : w.phaseOf c = .opening a s moves wait) :
      Course m w c (.finished (.attached i)) [.opened] (some .opened)
  | rejecting {s : StreamId} {stage : Option CloseStage} {next : CloseStage} {e : StreamError}
      (place : w.phaseOf c = .rejecting s stage e) :
      Course m w c (.rejecting s (some next) e) [] none
  | rejected {s : StreamId} {stage : Option CloseStage} {e : StreamError}
      (place : w.phaseOf c = .rejecting s stage e) : Course m w c (.finished (.failed e)) [] none
  | refuse {i : ConsumerId} {k : SourceKey} {breach : Breach} (place : w.phaseOf c = .releasing i) :
      Course m w c (.finished (.failed (.violation k breach))) [] none
  | detach {i : ConsumerId} (place : w.phaseOf c = .releasing i) :
      Course m w c (.finished .done) [] none
  | last {i : ConsumerId} {s : StreamId} (place : w.phaseOf c = .releasing i) :
      Course m w c (.tearing s none) [] none
  | tear {s : StreamId} {stage : Option CloseStage} {next : CloseStage}
      (place : w.phaseOf c = .tearing s stage) : Course m w c (.tearing s (some next)) [] none
  | torn {s : StreamId} {stage : Option CloseStage} (result : Except StreamError Unit)
      (place : w.phaseOf c = .tearing s stage) :
      Course m w c (.finished (.ofClose result)) (closeTicks result) none
  | sweep (place : w.phaseOf c = .sweepStart) :
      Course m w c (.sweeping none (w.listed (w.brokerOf c)) 0) [] none
  | sweeping {current : Option (StreamId × CloseStage)} {left : List StreamId} {n : Nat}
      {s : StreamId} {next : CloseStage} {rest : List StreamId}
      (place : w.phaseOf c = .sweeping current left n) (owns : (w.phaseOf c).owns = s :: rest) :
      Course m w c (.sweeping (some (s, next)) rest n) [] none
  | swept {current : Option (StreamId × CloseStage)} {left : List StreamId} {n : Nat}
      {s : StreamId} {rest : List StreamId} (result : Except StreamError Unit)
      (place : w.phaseOf c = .sweeping current left n) (owns : (w.phaseOf c).owns = s :: rest) :
      Course m w c (.sweeping none rest (n + 1)) (closeTicks result) none
  | clear {n : Nat} (place : w.phaseOf c = .sweeping none [] n) :
      Course m w c (.finished (.swept n)) [] none
  /-- A call on a stream by itself goes on with it, or ends. -/
  | lone {s : StreamId} {p : Phase} (borrows : s ∈ (w.phaseOf c).borrows)
      (next : p.borrows = [s] ∨ p.isOver ∧ p.attached? = none) : Course m w c p [] none

/-- From `w` to `w'` the call takes one of its courses. -/
def Fares (m : Move) (c : CallId) (w w' : System) : Prop :=
  ∃ p ticks x, Course m w c p ticks x ∧ Advance c p ticks x w w'

variable {m : Move} {w w₁ w' : System} {c : CallId} {a : Acquisition} {s : StreamId}
  {moves : List OpenMove} {wait : OpenWait}

theorem Fares.stay (h : Hushed w w') : Fares m c w w' := ⟨_, _, _, .stay, .of_hushed h c⟩

section Turn

variable (hc : c < w.calls.size)

include hc

/-- The call goes to another place and nothing else is heard. -/
theorem Fares.go {p : Phase} (h : Hushed w w₁) (course : Course m w c p [] none) :
    Fares m c w (w₁.setPhase c p) :=
  ⟨p, [], none, course, (Advance.of_hushed h c).setPhase hc p⟩

/-! ### Seeking -/

theorem fares_enter {ctx : RequestContext} (hp : w.phaseOf c = .admission ctx a) :
    Fares m c w (w.enter c ctx a) := by
  have heard : Hushed w (w.authorized (some c) ctx .liveTvAccess).1 := (Hushed.refl w).note _ _
  simp only [enter]
  split
  · exact .go hc heard (.enter hp)
  · exact .go hc (heard.note _ _) (.deny hp)

/-- A call that finds nothing to its use on offer joins an open or begins one. -/
theorem fares_enqueue (hp : w.phaseOf c = .seeking a) (h : Hushed w w₁)
    (mark : (w₁.slot (w.brokerOf c) a.key).opening = (w.slot (w.brokerOf c) a.key).opening)
    (ended : ∀ t, (w.slot (w.brokerOf c) a.key).shared = some t → (w.stream t).isLive = false) :
    Fares m c w (w₁.enqueue c a) := by
  have flight : w₁.inFlight = w.inFlight := by
    funext d
    rw [inFlight, inFlight, h.phaseOf]
  simp only [enqueue, h.brokerOf, mark, flight]
  split
  · exact .go hc h (.join hp ‹_›)
  · exact .go hc ((h.putSlot _ _ _).addStream _) (.open hp ‹_› ended)

/-- One more consumer of the stream on offer is counted as such. -/
theorem Advance.reuse (a : Acquisition) (s : StreamId) :
    Advance c (.finished (.attached w.consumers.size)) [.reused] none w (w.reuse c a s) := by
  have counted := (Hushed.refl w).setStream s fun y => { y with consumers := y.consumers + 1 }
  exact (((Advance.of_hushed counted c).attach hc s).record .reused).note _ _

theorem fares_seek (hp : w.phaseOf c = .seeking a) : Fares m c w (w.seek c a) := by
  simp only [seek]
  split
  · rename_i hs
    refine fares_enqueue hc hp (.refl w) rfl ?_
    intro t ht
    rw [hs] at ht
    cases ht
  · rename_i s hs
    split
    · exact .go hc ((Hushed.refl w).note _ _) (.unattended hp hs ‹_›)
    · split
      · rename_i live
        split
        · rename_i x hx
          rw [Option.filter_eq_some_iff, decide_eq_true_eq] at hx
          exact .go hc ((Hushed.refl w).note _ _) (.differ hp hs live hx)
        · exact ⟨_, _, _, .reuse hp hs live, .reuse hc a s⟩
      · rename_i dead
        have demoted := ((Hushed.refl w).note (some c) (.replacingEnded a.key (w.stream s).consumers)).putSlot
          (w.brokerOf c) a.key (w.slot (w.brokerOf c) a.key).demote
        refine fares_enqueue hc hp demoted ?_ ?_
        · rw [slot_putSlot]
          split
          · exact Slot.opening_demote _
          · rfl
        · intro t ht
          obtain rfl : s = t := Option.some.inj (hs.symm.trans ht)
          exact Bool.eq_false_of_not_eq_true dead

theorem fares_endWait {o : CallId} (hp : w.phaseOf c = .waiting a o) :
    Fares m c w (w.endWait c a o) := by
  simp only [endWait]
  split
  · exact .go hc (.refl w) (.cancel hp ‹_›)
  · split
    · exact .go hc ((Hushed.refl w).note _ _) (.inherit hp ‹_›)
    · rename_i told
      exact .go hc (.refl w) (.retry hp told)

/-! ### Opening -/

section Opening

variable (hp : w.phaseOf c = .opening a s moves wait) (h : Hushed w w₁)

include hp h

theorem fares_failOpen (e : StreamError) : Fares m c w (w₁.failOpen c a s e) := by
  have ended := (((Advance.of_hushed h c).finish hc (.failed e)).hush
    ((Hushed.refl _).endOpen c a.key none)).reap s
  exact ⟨_, _, _, .fail hp, ((ended.record .openFailed).note _ _).announce hc _⟩

theorem fares_concludeOpen : Fares m c w (w₁.concludeOpen c a s) := by
  simp only [concludeOpen]
  split
  · rename_i unfit
    refine ⟨_, _, _, .reject hp (unfit.imp id Stream.not_isConnected), ?_⟩
    refine Advance.announce (.note (.hush (.setPhase (.of_hushed h c) hc _) ?_) _ _) hc _
    exact (Hushed.refl _).endOpen c a.key none
  · have counted := h.setStream s fun y => { y with consumers := y.consumers + 1 }
    have attached := (Advance.of_hushed (counted.endOpen c a.key (some s)) c).attach hc s
    exact ⟨_, _, _, .give hp, ((attached.record .opened).note _ _).announce hc _⟩

theorem fares_nextMove (l : List OpenMove) : Fares m c w (w₁.nextMove c a s l) := by
  cases l with
  | nil => exact fares_concludeOpen hc hp h
  | cons move rest =>
    cases move with
    | pause ms => exact .go hc h (.onward hp (.inl rfl))
    | fail e => exact fares_failOpen hc hp h e
    | connect token =>
      have started := h.trans (hushed_startOpen w₁ c s token)
      simp only [nextMove]
      split <;> rename_i heq <;> rw [heq] at started
      · exact .go hc started (.onward hp (.inl rfl))
      · exact .go hc started (.onward hp (.inl rfl))
      · exact fares_failOpen hc hp started _
    | exhaust =>
      simp only [nextMove]
      split
      · exact .go hc (h.trans (calm_deliver _ _ _).toHushed) (.onward hp (.inl rfl))
      · exact .go hc h (.onward hp (.inl rfl))
    | close =>
      have started := h.trans (hushed_startClose w₁ c s)
      simp only [nextMove]
      split <;> rename_i heq <;> rw [heq] at started
      · exact .go hc started (.onward hp (.inl rfl))
      · exact .go hc started (.onward hp (.inl rfl))
      · exact fares_failOpen hc hp started _

end Opening

theorem fares_turnOpening (hp : w.phaseOf c = .opening a s moves wait) :
    Fares m c w (w.turnOpening c a s moves wait) := by
  cases wait with
  | nowhere => exact fares_nextMove hc hp (.refl w) moves
  | outside => exact .stay (.refl w)
  | pausing due => exact .go hc (.refl w) (.onward hp (.inl rfl))
  | ending => exact .go hc (.refl w) (.onward hp (.inl rfl))
  | dialing d =>
    have ended := (calm_finishOpen w c s d).toHushed
    simp only [turnOpening]
    split <;> rename_i heq <;> rw [heq] at ended
    · exact fares_nextMove hc hp ended moves
    · exact fares_failOpen hc hp ended _
  | closing stage =>
    have advanced := (calm_advanceClose w c s stage).toHushed
    simp only [turnOpening]
    split <;> rename_i heq <;> rw [heq] at advanced
    · exact .go hc advanced (.onward hp (.inl rfl))
    · exact .go hc advanced (.onward hp (.inl rfl))
    · exact fares_failOpen hc hp advanced _

theorem fares_provide (result : Except StreamError StreamId) :
    Fares m c w (w.provide c result) := by
  simp only [provide]
  split
  · rename_i hp
    exact .go hc (.refl w) (.onward hp (.inl rfl))
  · rename_i hp
    split
    · exact .go hc ((Hushed.refl w).setStream _ _) (.onward hp (.inr rfl))
    · exact .stay (.refl w)
  · exact .stay (.refl w)

/-! ### Closing -/

theorem fares_turnRejecting {stage : Option CloseStage} {e : StreamError}
    (hp : w.phaseOf c = .rejecting s stage e) : Fares m c w (w.turnRejecting c s e stage) := by
  have closing := hushed_turnClose w c s stage
  simp only [turnRejecting, settleRejection]
  split
  · exact .go hc closing (.rejecting hp)
  · exact ⟨_, _, _, .rejected hp, ((Advance.of_hushed closing c).finish hc _).reap s⟩
  · have noted := closing.note (some c)
    exact ⟨_, _, _, .rejected hp, ((Advance.of_hushed (noted _) c).finish hc _).reap s⟩

omit hc in
/-- The end of a close is counted on the broker of the call. -/
theorem Advance.account {p : Phase} {x : Option Announcement} (h : Advance c p [] x w w')
    (result : Except StreamError Unit) :
    Advance c p (closeTicks result) x w (w'.account (w'.brokerOf c) result) := by
  cases result with
  | ok u => exact h.record .closed
  | error e =>
    simp only [System.account, closeTicks]
    split
    · exact h
    · exact (h.record .closed).record .closeFailed

theorem fares_turnTearing {stage : Option CloseStage} (hp : w.phaseOf c = .tearing s stage) :
    Fares m c w (w.turnTearing c s stage) := by
  have closing := hushed_turnClose w c s stage
  simp only [turnTearing, settleTear]
  split
  · exact .go hc closing (.tear hp)
  · rename_i result heq
    have counted := (Advance.of_hushed closing c).account result
    have ended := (counted.finish hc (.ofClose result)).reap s
    refine ⟨_, _, _, .torn result hp, ?_⟩
    cases result <;> exact ended

theorem fares_settleSweep {current : Option (StreamId × CloseStage)} {left rest : List StreamId}
    {n : Nat} (hp : w.phaseOf c = .sweeping current left n) (owns : (w.phaseOf c).owns = s :: rest)
    (h : Hushed w w₁) (step : CloseStep) : Fares m c w (w₁.settleSweep c s rest n step) := by
  cases step with
  | stage stage => exact .go hc h (.sweeping hp owns)
  | finished result =>
    have counted := (Advance.of_hushed h c).account result
    exact ⟨_, _, _, .swept result hp owns, (counted.setPhase hc _).reap s⟩

theorem fares_turnSweeping {current : Option (StreamId × CloseStage)} {left : List StreamId}
    {n : Nat} (hp : w.phaseOf c = .sweeping current left n) :
    Fares m c w (w.turnSweeping c current left n) := by
  simp only [turnSweeping]
  split
  · exact fares_settleSweep hc hp (by simp [hp, Phase.owns]) (hushed_turnClose w c _ _) _
  · refine fares_settleSweep hc hp (by simp [hp, Phase.owns]) ?_ _
    exact ((Hushed.refl w).note _ _).trans (hushed_turnClose _ c _ _)
  · refine .go hc ?_ (.clear hp)
    split
    · exact (Hushed.refl w).note _ _
    · exact .refl w

/-! ### Releasing -/

theorem fares_release {i : ConsumerId} (hp : w.phaseOf c = .releasing i) :
    Fares m c w (w.release c i) := by
  have refused : ∀ e k breach, Fares m c w (w.refuseRelease c i e k breach) := by
    intro e k breach
    have standing := Advance.of_hushed ((Hushed.refl w).setStanding i .refused) c
    exact ⟨_, _, _, .refuse hp, (standing.finish hc _).note _ _⟩
  simp only [release]
  split
  · exact .go hc (.refl w) (.refuse hp)
  · rename_i x hx
    split
    · exact refused _ _ _
    · split
      · exact refused _ _ _
      · split
        · exact refused _ _ _
        · have released := ((Hushed.refl w).setStanding i .released).setStream x.stream fun y =>
            { y with consumers := y.consumers - 1 }
          split
          · have ended := (Advance.of_hushed released c).finish hc .done
            exact ⟨_, _, _, .detach hp, ended.note _ _⟩
          · have off := released.putSlot (w.brokerOf c) x.key
              ((w.slot (w.brokerOf c) x.key).deregister x.stream)
            exact ⟨_, _, _, .last hp, ((Advance.of_hushed off c).setPhase hc _).note _ _⟩

/-! ### Streams by themselves -/

theorem fares_leave {o : Outcome} (hb : s ∈ (w.phaseOf c).borrows)
    (ho : (Phase.finished o).attached? = none) (h : Hushed w w₁) :
    Fares m c w ((w₁.finish c o).reap s) :=
  ⟨_, _, _, .lone hb (.inr ⟨rfl, ho⟩), ((Advance.of_hushed h c).finish hc o).reap s⟩

theorem fares_settleClose (hb : s ∈ (w.phaseOf c).borrows) (h : Hushed w w₁) (step : CloseStep) :
    Fares m c w (w₁.settleClose c s step) := by
  simp only [settleClose]
  split
  · exact .go hc h (.lone hb (.inl rfl))
  · exact fares_leave hc hb rfl h
  · exact fares_leave hc hb rfl h

theorem fares_turnDialStart {token : Option Token} (hp : w.phaseOf c = .dialStart s token) :
    Fares m c w (w.turnDialStart c s token) := by
  have hb : s ∈ (w.phaseOf c).borrows := by simp [hp, Phase.borrows]
  have started := hushed_startOpen w c s token
  simp only [turnDialStart]
  split <;> rename_i heq <;> rw [heq] at started
  · exact .go hc started (.lone hb (.inl rfl))
  · exact fares_leave hc hb rfl started
  · exact fares_leave hc hb rfl started

theorem fares_turnDialing {d : Dial} (hp : w.phaseOf c = .dialing s d) :
    Fares m c w (w.turnDialing c s d) := by
  have hb : s ∈ (w.phaseOf c).borrows := by simp [hp, Phase.borrows]
  have ended := (calm_finishOpen w c s d).toHushed
  simp only [turnDialing]
  split <;> rename_i heq <;> rw [heq] at ended
  · exact fares_leave hc hb rfl ended
  · exact fares_leave hc hb rfl ended

/-! ### Moves -/

theorem fares_turnCall : Fares m c w (w.turnCall c (w.phaseOf c)) := by
  cases hp : w.phaseOf c with
  | admission ctx a => exact fares_enter hc hp
  | seeking a => exact fares_seek hc hp
  | waiting a o => exact fares_endWait hc hp
  | opening a s moves wait => exact fares_turnOpening hc hp
  | rejecting s stage e => exact fares_turnRejecting hc hp
  | releasing i => exact fares_release hc hp
  | tearing s stage => exact fares_turnTearing hc hp
  | sweepStart => exact .go hc ((Hushed.refl w).setSlots _ _) (.sweep hp)
  | sweeping current rest n => exact fares_turnSweeping hc hp
  | dialStart s token => exact fares_turnDialStart hc hp
  | dialing s d => exact fares_turnDialing hc hp
  | closeStart s =>
    exact fares_settleClose hc (by simp [hp, Phase.borrows]) (hushed_turnClose w c s none) _
  | closing s stage =>
    exact fares_settleClose hc (by simp [hp, Phase.borrows]) (hushed_turnClose w c s (some stage)) _
  | finished o => exact .stay (.refl w)
  | abandoned => exact .stay (.refl w)

/-- A call that waits is over when it is abandoned, and nothing is heard of it. -/
theorem Advance.abandon (hs : (w.phaseOf c).isSuspended) :
    Advance c .abandoned [] none w (w.abandon c) := by
  have leave : ∀ w₁, Hushed w w₁ → Advance c .abandoned [] none w (w₁.setPhase c .abandoned) :=
    fun w₁ h => (Advance.of_hushed h c).setPhase hc _
  simp only [System.abandon, hs, Bool.not_true, Bool.false_eq_true, if_false]
  split
  · rename_i a s moves wait hp
    have ended := leave _ (calm_abandonWait w s wait).toHushed
    exact ((ended.hush ((Hushed.refl _).endOpen c a.key none)).reap s).note _ _
  · exact (leave _ (calm_abandonClose w _ _).toHushed).reap _
  · exact (leave _ (calm_abandonClose w _ _).toHushed).reap _
  · exact (leave _ (calm_abandonClose w _ _).toHushed).reap _
  · exact ((leave _ (calm_abandonClose w _ _).toHushed).reap _).hush ((Calm.refl _).foldl_reap _).toHushed
  · exact (leave _ ((Hushed.refl w).setLink _ _)).reap _
  · exact leave w (.refl w)

theorem fares_abandon : Fares (.abandon c) c w (w.abandon c) := by
  by_cases hs : (w.phaseOf c).isSuspended
  · exact ⟨_, _, _, .abandon rfl hs, .abandon hc hs⟩
  · simp only [abandon, hs, Bool.not_false, if_true]
    exact .stay (.refl w)

end Turn

/-- A move takes its call on one of its courses, begins a call, or goes unheard. -/
theorem step_course (w : System) (m : Move) :
    (∃ c, m.actor = some c ∧ Fares m c w (w.step m)) ∨
    (∃ b gated errand, m = .start b gated errand ∧ errand.isAllowed w b ∧
      w.step m = w.begin b gated errand) ∨
    m.actor = none ∧ Hushed w (w.step m) := by
  have stay : ∀ c, w.phaseOf c = .abandoned ∨ c < w.calls.size := fun c => by
    by_cases hp : w.phaseOf c = .abandoned
    · exact .inl hp
    · exact .inr (w.lt_of_phaseOf c hp)
  cases m with
  | turn r =>
    cases r with
    | call c =>
      refine .inl ⟨c, rfl, ?_⟩
      simp only [step, turn]
      split
      · rcases stay c with hp | hc
        · rw [hp]
          exact .stay (.refl w)
        · exact fares_turnCall hc
      · exact .stay (.refl w)
    | pump s =>
      refine .inr (.inr ⟨rfl, ?_⟩)
      simp only [step, turn]
      split
      · exact (calm_turnPump w s).toHushed
      · exact .refl w
  | start b gated errand =>
    simp only [step, start]
    split
    · exact .inr (.inl ⟨b, gated, errand, rfl, ‹_›, rfl⟩)
    · exact .inr (.inr ⟨rfl, .refl w⟩)
  | deliver n e => exact .inr (.inr ⟨rfl, (calm_deliver w n e).toHushed⟩)
  | cancel t =>
    refine .inr (.inr ⟨rfl, ?_⟩)
    simp only [step]
    split
    · exact .refl w
    · exact { Hushed.refl w with fired := List.subset_cons_self _ _ }
  | abandon c =>
    refine .inl ⟨c, rfl, ?_⟩
    rcases stay c with hp | hc
    · simp only [step, abandon, hp, Phase.isSuspended]
      exact .stay (.refl w)
    · exact fares_abandon hc
  | provide c result =>
    refine .inl ⟨c, rfl, ?_⟩
    rcases stay c with hp | hc
    · simp only [step, provide, hp]
      exact .stay (.refl w)
    · exact fares_provide hc result
  | dropConsumer i =>
    refine .inr (.inr ⟨rfl, ?_⟩)
    simp only [step, dropConsumer]
    split
    · split
      · exact ((Hushed.refl w).setStanding i _).note _ _
      · exact .refl w
    · exact .refl w
  | make r config => exact .inr (.inr ⟨rfl, (Hushed.refl w).addStream _⟩)
  | letGo s => exact .inr (.inr ⟨rfl, ((Hushed.refl w).setStream s _).reap s⟩)
  | setDesk desk => exact .inr (.inr ⟨rfl, { Hushed.refl w with }⟩)
  | elapse ms => exact .inr (.inr ⟨rfl, { Hushed.refl w with }⟩)

/-- A move of a call takes it on one of its courses. -/
theorem step_fares (actor : m.actor = some c) : Fares m c w (w.step m) := by
  rcases w.step_course m with ⟨d, hd, fares⟩ | ⟨b, gated, errand, rfl, -⟩ | ⟨none, -⟩
  · obtain rfl : d = c := Option.some.inj (hd.symm.trans actor)
    exact fares
  · cases actor
  · rw [none] at actor
    cases actor

/-! ### What stays -/

/-- A call that is over does nothing any more. -/
theorem Course.past {p : Phase} {ticks : List Tick} {x : Option Announcement}
    (h : Course m w c p ticks x) (past : (w.phaseOf c).isOver) :
    p = w.phaseOf c ∧ ticks = [] ∧ x = none := by
  cases h with
  | stay => exact ⟨rfl, rfl, rfl⟩
  | abandon move suspended =>
    cases hp : w.phaseOf c <;> simp [hp, Phase.isOver, Phase.isSuspended] at past suspended
  | lone borrows next =>
    cases hp : w.phaseOf c <;> simp [hp, Phase.isOver, Phase.borrows] at past borrows
  | _ => simp_all [Phase.isOver]

theorem announcedBy_begin (w : System) (b : BrokerId) (gated : Bool) (errand : Errand)
    (c : CallId) : (w.begin b gated errand).announcedBy c = w.announcedBy c := by
  rw [announcedBy, calls_begin, addCall, Table.get?_add]
  split
  · rename_i he
    rw [announcedBy, he, (Table.get?_eq_none_iff _ _).2 (Nat.le_refl _)]
    rfl
  · rfl

theorem countersOf_begin (w : System) (b b' : BrokerId) (gated : Bool) (errand : Errand) :
    (w.begin b gated errand).countersOf b' = w.countersOf b' := by
  rw [countersOf, broker, brokers_begin]
  rfl

/-- Only the moves of a call take it anywhere or let it announce anything. -/
theorem step_other (hc : c < w.calls.size) (hm : m.actor ≠ some c) :
    (w.step m).phaseOf c = w.phaseOf c ∧ (w.step m).announcedBy c = w.announcedBy c := by
  rcases w.step_course m with ⟨d, hd, p, ticks, x, -, adv⟩ | ⟨b, gated, errand, -, -, he⟩ | ⟨-, h⟩
  · have hcd : c ≠ d := by
      rintro rfl
      exact hm hd
    exact ⟨by rw [adv.phaseOf, if_neg hcd], by rw [adv.announced, if_neg hcd]⟩
  · rw [he, phaseOf_begin, if_neg (Nat.ne_of_lt hc)]
    exact ⟨rfl, announcedBy_begin w b gated errand c⟩
  · exact ⟨h.phaseOf c, h.announced c⟩

/-- A call that is over stays so. -/
theorem step_over (m : Move) (past : (w.phaseOf c).isOver) (hc : c < w.calls.size) :
    (w.step m).phaseOf c = w.phaseOf c := by
  by_cases actor : m.actor = some c
  · obtain ⟨p, ticks, x, course, adv⟩ := step_fares (w := w) actor
    rw [adv.phaseOf, if_pos rfl]
    exact (course.past past).1
  · exact (step_other hc actor).1

/-- A call stays on its broker. -/
theorem step_keeps (hc : c < w.calls.size) (m : Move) :
    c < (w.step m).calls.size ∧ (w.step m).brokerOf c = w.brokerOf c := by
  rcases w.step_course m with ⟨d, -, p, ticks, x, -, adv⟩ | ⟨b, gated, errand, -, -, he⟩ | ⟨-, h⟩
  · exact ⟨adv.calls ▸ hc, adv.brokerOf c⟩
  · rw [he, brokerOf_begin, if_neg (Nat.ne_of_lt hc), calls_begin, calls_size_addCall]
    exact ⟨Nat.lt_succ_of_lt hc, rfl⟩
  · exact ⟨h.calls ▸ hc, h.brokerOf c⟩

/-- A call stays where it is, is moved itself, or begins. -/
theorem step_cases (w : System) (m : Move) (c : CallId) :
    (w.step m).phaseOf c = w.phaseOf c ∧ (w.step m).announcedBy c = w.announcedBy c ∨
    m.actor = some c ∧ c < w.calls.size ∨
    ∃ b gated errand, m = .start b gated errand ∧ c = w.calls.size ∧
      c < (w.step m).calls.size ∧ (w.step m).phaseOf c = errand.origin ∧
      (w.step m).brokerOf c = b ∧ (w.step m).announcedBy c = none := by
  by_cases lt : c < w.calls.size
  · by_cases actor : m.actor = some c
    · exact .inr (.inl ⟨actor, lt⟩)
    · exact .inl (step_other lt actor)
  · have le := Nat.le_of_not_lt lt
    have silent : w.announcedBy c = none := by
      rw [announcedBy, (Table.get?_eq_none_iff _ _).2 le]
      rfl
    have absent : (w.step m).calls.size ≤ c →
        (w.step m).phaseOf c = w.phaseOf c ∧ (w.step m).announcedBy c = w.announcedBy c := by
      intro le'
      rw [phaseOf_of_size_le _ _ le', phaseOf_of_size_le _ _ le, silent, announcedBy,
        (Table.get?_eq_none_iff _ _).2 le']
      exact ⟨rfl, rfl⟩
    rcases w.step_course m with ⟨d, -, p, ticks, x, -, adv⟩ | ⟨b, gated, errand, hm, -, he⟩ | ⟨-, h⟩
    · exact .inl (absent (adv.calls ▸ le))
    · have size : (w.step m).calls.size = w.calls.size + 1 := by rw [he, calls_begin, calls_size_addCall]
      rcases Nat.eq_or_lt_of_le le with rfl | lt'
      · refine .inr (.inr ⟨b, gated, errand, hm, rfl, size ▸ Nat.lt_succ_self _, ?_, ?_, ?_⟩)
        · rw [he, phaseOf_begin, if_pos rfl]
        · rw [he, brokerOf_begin, if_pos rfl]
        · rw [he, announcedBy_begin, silent]
      · exact .inl (absent (size ▸ lt'))
    · exact .inl (absent (h.calls ▸ le))

theorem run_other (hc : c < w.calls.size) (moves : List Move)
    (hm : ∀ m ∈ moves, m.actor ≠ some c) :
    (w.run moves).phaseOf c = w.phaseOf c ∧ (w.run moves).announcedBy c = w.announcedBy c := by
  induction moves generalizing w with
  | nil => exact ⟨rfl, rfl⟩
  | cons m moves ih =>
    have here := step_other hc (hm m List.mem_cons_self)
    have later := ih (step_keeps hc m).1 fun m' hm' => hm m' (List.mem_cons_of_mem _ hm')
    exact ⟨later.1.trans here.1, later.2.trans here.2⟩

theorem run_keeps (hc : c < w.calls.size) (moves : List Move) :
    c < (w.run moves).calls.size ∧ (w.run moves).brokerOf c = w.brokerOf c := by
  induction moves generalizing w with
  | nil => exact ⟨hc, rfl⟩
  | cons m moves ih =>
    obtain ⟨lt, broker⟩ := step_keeps hc m
    obtain ⟨lt', broker'⟩ := ih lt
    exact ⟨lt', broker'.trans broker⟩

theorem run_over (moves : List Move) (past : (w.phaseOf c).isOver) (hc : c < w.calls.size) :
    (w.run moves).phaseOf c = w.phaseOf c := by
  induction moves generalizing w with
  | nil => rfl
  | cons m moves ih =>
    have same := step_over m past hc
    exact (ih (by rw [same]; exact past) (step_keeps hc m).1).trans same

/-- A token stays cancelled. -/
theorem fired_step (w : System) (m : Move) : w.fired ⊆ (w.step m).fired := by
  rcases w.step_course m with ⟨d, -, p, ticks, x, -, adv⟩ | ⟨b, gated, errand, -, -, he⟩ | ⟨-, h⟩
  · exact adv.fired
  · rw [he]
    cases errand <;> exact List.Subset.refl _
  · exact h.fired

theorem fired_run (w : System) (moves : List Move) : w.fired ⊆ (w.run moves).fired := by
  induction moves generalizing w with
  | nil => exact List.Subset.refl _
  | cons m moves ih => exact List.Subset.trans (w.fired_step m) (ih (w.step m))

theorem hasFired_run {token : Option Token} (moves : List Move)
    (h : (w.run moves).hasFired token = false) : w.hasFired token = false := by
  cases token with
  | none => rfl
  | some t =>
    simp only [hasFired, List.contains_eq_mem, decide_eq_false_iff_not] at h ⊢
    exact fun ht => h (w.fired_run moves ht)

end System

end TunerBroker
