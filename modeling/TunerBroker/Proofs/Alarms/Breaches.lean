import TunerBroker.Proofs.Opens.Dialing
import TunerBroker.Proofs.Closes.Sweep

/-! How calls come to a breach. A move of a call raises one alarm at most, and only where the call finds
something amiss: then it ends with a breach, or goes on to refuse the stream of its open. The errors that
the work of an open comes to by itself, and those of an open that a call has waited for, are passed on
without an alarm. -/

namespace TunerBroker

/-- The error that a move of an open fails with by itself. -/
def OpenMove.excuse? : OpenMove → Option StreamError
  | fail e => some e
  | _ => none

namespace Phase

/-- The errors that the work of an open may still come to by itself. -/
def excuses : Phase → List StreamError
  | admission _ a | seeking a | waiting a _ => a.plan.moves.filterMap OpenMove.excuse?
  | opening _ _ moves _ => moves.filterMap OpenMove.excuse?
  | _ => []

/-- The call has come to a breach: it has ended with one, or refuses the stream of its open. -/
def isBreached : Phase → Bool
  | finished (.failed e) => e.isViolation
  | rejecting _ _ _ => true
  | _ => false

end Phase

/-- One move less leaves no more to fail with. -/
theorem OpenMove.excuses_subset (move : OpenMove) (rest : List OpenMove) :
    rest.filterMap excuse? ⊆ (move :: rest).filterMap excuse? := by
  rw [List.filterMap_cons]
  split
  · exact List.Subset.refl _
  · exact List.subset_cons_self _ _

namespace System

/-- What the next turn of a call can find amiss. -/
inductive Fault (w : System) (c : CallId) : Prop where
  /-- The stream on offer has no consumer. -/
  | unattended {a : Acquisition} {s : StreamId} (place : w.phaseOf c = .seeking a)
      (shared : (w.slot (w.brokerOf c) a.key).shared = some s) (uncounted : (w.stream s).consumers = 0)
  /-- The open gives a stream of another key, or one that is not connected. -/
  | unfit {a : Acquisition} {s : StreamId} {v : System} (yields : w.Makes c a s [] v)
      (unfit : (v.stream s).key ≠ a.key ∨ (v.stream s).isConnected = false)
  /-- The broker does not list the stream of the consumer to be released, or counts none on it. -/
  | unlisted {i : ConsumerId} {x : Consumer} (place : w.phaseOf c = .releasing i)
      (there : w.consumers.get? i = some x)
      (unfit : w.isHeld x.stream → (w.slot (w.brokerOf c) x.key).isRegistered x.stream →
        (w.stream x.stream).consumers = 0)
  /-- The stream to be opened is not unopened. -/
  | misopened {s : StreamId} {token : Option Token} {v : System} (begins : w.BeginsOpen c s token v)
      (state : (v.stream s).state ≠ .unopened)
  /-- The stream to be closed, other than for a broker, has nothing to close. -/
  | misclosed {s : StreamId} {v : System} (begins : w.BeginsClose c s v)
      (own : (w.phaseOf c).closes = [])
      (state : (v.stream s).state ∉ [StreamState.unopened, .live, .ended])

/-- A move takes the call to a place, and has it raise an alarm if so marked. -/
inductive Answers (m : Move) (w : System) (c : CallId) : Phase → Bool → Prop where
  | stay : Answers m w c (w.phaseOf c) false
  | leave : Answers m w c .abandoned false
  /-- It goes on, or ends, without a breach. -/
  | calm {p : Phase} (before : (w.phaseOf c).isBreached = false) (after : p.isBreached = false)
      (excuses : p.excuses ⊆ (w.phaseOf c).excuses) : Answers m w c p false
  /-- The work that its open does by itself has ended with an error. -/
  | told {p : Phase} {e : StreamError} (move : m = .provide c (.error e))
      (before : (w.phaseOf c).isBreached = false) (after : p.isBreached = false)
      (excuses : p.excuses ⊆ [e]) : Answers m w c p false
  | excuse {e : StreamError} (before : (w.phaseOf c).isBreached = false)
      (own : e ∈ (w.phaseOf c).excuses) : Answers m w c (.finished (.failed e)) false
  /-- The open that it has waited for has failed. -/
  | inherit {a : Acquisition} {o : CallId} {e : StreamError} (turn : m = .turn (.call c))
      (place : w.phaseOf c = .waiting a o) (told : w.announcedBy o = some (.failed e)) :
      Answers m w c (.finished (.failed e)) false
  | breach {e : StreamError} (turn : m = .turn (.call c)) (before : (w.phaseOf c).isBreached = false)
      (fault : w.Fault c) (violation : e.isViolation) : Answers m w c (.finished (.failed e)) true
  | reject {s : StreamId} {e : StreamError} (turn : m = .turn (.call c))
      (before : (w.phaseOf c).isBreached = false) (fault : w.Fault c) (violation : e.isViolation) :
      Answers m w c (.rejecting s none e) true
  /-- The close of a refused stream may be refused in turn. -/
  | rejecting {s : StreamId} {stage : Option CloseStage} {next : CloseStage} {e : StreamError}
      {raised : Bool} (place : w.phaseOf c = .rejecting s stage e) :
      Answers m w c (.rejecting s (some next) e) raised
  | rejected {s : StreamId} {stage : Option CloseStage} {e : StreamError} {raised : Bool}
      (place : w.phaseOf c = .rejecting s stage e) : Answers m w c (.finished (.failed e)) raised

/-- From `w` to `w'` the call raises an alarm if so marked, and nothing else does. -/
def Raises (raised : Bool) (c : CallId) (w w' : System) : Prop :=
  w'.alarms = if raised then some c :: w.alarms else w.alarms

/-- From `w` to `w'` the call goes one of these ways. -/
def Rings (m : Move) (c : CallId) (w w' : System) : Prop :=
  ∃ p raised, Answers m w c p raised ∧ w'.phaseOf c = p ∧ Raises raised c w w'

variable {m : Move} {w w₁ w' w'' v : System} {c : CallId} {a : Acquisition} {s : StreamId}
  {moves l : List OpenMove} {wait : OpenWait} {p : Phase} {raised : Bool} {e : StreamError}
  {stage : Option CloseStage}

/-! ### Where no alarm is raised -/

/-- An attempt does not come out with a breach. -/
theorem finishOpen_unbreached {d : Dial} (h : (w.finishOpen c s d).2 = .error e) :
    e.isViolation = false := by
  simp only [finishOpen] at h
  split at h
  · cases h; rfl
  · split at h
    · split at h <;> cases h
      rfl
    · cases h; rfl

/-- A close that is let in raises no alarm with that. -/
theorem calm_startClose (h : (w.stream s).state ∈ [StreamState.unopened, .live, .ended]) :
    Calm w (w.startClose c s).1 := by
  rw [closable_iff] at h
  unfold startClose
  dsimp only
  split
  · exact (Calm.refl w).setStream s _
  · exact (Calm.refl w).setStream s _
  · simp_all

theorem alarms_account (w : System) (b : BrokerId) (result : Except StreamError Unit) :
    (w.account b result).alarms = w.alarms := by
  cases result with
  | ok u => rfl
  | error e =>
    simp only [account]
    split <;> rfl

theorem Raises.calm (h : Calm w w₁) : Raises false c w w₁ := h.alarms

theorem Raises.alarm (h : Calm w w₁) {x : Event} (hx : x.isAlarm) : Raises true c w (w₁.note c x) := by
  rw [Raises, alarms_note, if_pos hx, if_pos rfl, h.alarms]

/-- What comes next changes neither the place of the call nor the alarms. -/
theorem Rings.after (h : Rings m c w w') (phase : w''.phaseOf c = w'.phaseOf c)
    (alarms : w''.alarms = w'.alarms) : Rings m c w w'' := by
  obtain ⟨p, raised, answers, place, raises⟩ := h
  exact ⟨p, raised, answers, phase.trans place, alarms.trans raises⟩

theorem Rings.calm (h : Rings m c w w') (g : Calm w' w'') : Rings m c w w'' :=
  h.after (g.phaseOf c) g.alarms

theorem Rings.announce (h : Rings m c w w') (x : Announcement) : Rings m c w (w'.announce c x) :=
  h.after (((Frame.refl (S := ∅) w').announce c x).phaseOf c) rfl

theorem Rings.record (h : Rings m c w w') (b : BrokerId) (t : Tick) : Rings m c w (w'.record b t) :=
  h.after rfl rfl

theorem Rings.note (h : Rings m c w w') (o : Option CallId) {x : Event} (hx : x.isAlarm = false) :
    Rings m c w (w'.note o x) :=
  h.calm ((Calm.refl w').note o hx)

theorem Rings.stay (h : Calm w w') : Rings m c w w' := ⟨_, false, .stay, h.phaseOf c, h.alarms⟩

/-! ### The moves of an open -/

namespace Makes

theorem unbreached (h : w.Makes c a s moves v) : (w.phaseOf c).isBreached = false := by
  cases h with
  | next place | atOnce place => rw [place]; rfl

theorem excuses (h : w.Makes c a s moves v) :
    (w.phaseOf c).excuses = moves.filterMap OpenMove.excuse? := by
  cases h with
  | next place | atOnce place => rw [place]; rfl

theorem own (h : w.Makes c a s moves v) : (w.phaseOf c).closes = [] := by
  cases h with
  | next place | atOnce place => rw [place]; rfl

theorem beginsOpen {token : Option Token} {rest : List OpenMove}
    (h : w.Makes c a s (.connect token :: rest) v) : w.BeginsOpen c s token v := by
  cases h with
  | next place => exact .move place
  | atOnce place made => exact .atOnce place made

theorem beginsClose {rest : List OpenMove} (h : w.Makes c a s (.close :: rest) v) :
    w.BeginsClose c s v := by
  cases h with
  | next place => exact .move place
  | atOnce place made => exact .atOnce place made

/-- The open goes on with what is left. -/
theorem onward {move : OpenMove} {rest : List OpenMove} (h : w.Makes c a s (move :: rest) v)
    (t : StreamId) (wait : OpenWait) : Answers m w c (.opening a t rest wait) false :=
  .calm h.unbreached rfl (by rw [h.excuses]; exact OpenMove.excuses_subset move rest)

end Makes

section Turn

variable (hc : c < w.calls.size)

include hc

/-- The call goes to another place, with an alarm raised before or none. -/
theorem Rings.go (h : Hushed w w₁) (raises : Raises raised c w w₁) (answers : Answers m w c p raised) :
    Rings m c w (w₁.setPhase c p) := by
  refine ⟨p, raised, answers, ?_, raises⟩
  rw [phaseOf_setPhase, if_pos ⟨rfl, h.calls ▸ hc⟩]

theorem Rings.goCalm (h : Calm w w₁) (answers : Answers m w c p false) :
    Rings m c w (w₁.setPhase c p) :=
  .go hc h.toHushed (.calm h) answers

theorem Rings.goLoud (h : Calm w w₁) {x : Event} (hx : x.isAlarm) (answers : Answers m w c p true) :
    Rings m c w ((w₁.note c x).setPhase c p) :=
  .go hc (h.toHushed.note _ _) (.alarm h hx) answers

/-- The call ends, or goes on, with nothing more to come to by itself. -/
theorem Rings.pass (h : Calm w w₁) (before : (w.phaseOf c).isBreached = false)
    (after : p.isBreached = false) (excuses : p.excuses = []) : Rings m c w (w₁.setPhase c p) :=
  .goCalm hc h (.calm before after (by rw [excuses]; exact List.nil_subset _))

theorem Rings.attach (h : Calm w w₁) (before : (w.phaseOf c).isBreached = false) (s : StreamId) :
    Rings m c w (w₁.attach c s) :=
  .pass hc (h.hush ((Hushed.refl w₁).addConsumer _) rfl) before rfl rfl

/-! ### Seeking -/

theorem rings_enter {ctx : RequestContext} (hp : w.phaseOf c = .admission ctx a) :
    Rings m c w (w.enter c ctx a) := by
  have decided : Calm w (w.note c (.authorizationDecided .liveTvAccess)) := (Calm.refl w).note _ rfl
  have unbreached : (w.phaseOf c).isBreached = false := by rw [hp]; rfl
  unfold enter authorized
  dsimp only
  split
  · exact .goCalm hc decided (.calm unbreached rfl (by rw [hp]; exact List.Subset.refl _))
  · exact .pass hc (decided.note c rfl) unbreached rfl rfl

theorem rings_enqueue (hp : w.phaseOf c = .seeking a) (h : Calm w w₁) : Rings m c w (w₁.enqueue c a) := by
  have answers : ∀ {q : Phase}, q.isBreached = false → q.excuses = (Phase.seeking a).excuses →
      Answers m w c q false := fun hq same =>
    .calm (by rw [hp]; rfl) hq (by rw [hp, same]; exact List.Subset.refl _)
  simp only [enqueue]
  split
  · exact .goCalm hc h (answers rfl rfl)
  · exact .goCalm hc ((h.putSlot _ _ _).addStream _) (answers rfl rfl)

theorem rings_reuse (hp : w.phaseOf c = .seeking a) (s : StreamId) : Rings m c w (w.reuse c a s) := by
  have counted := (Calm.refl w).setStream s fun x => { x with consumers := x.consumers + 1 }
  exact ((Rings.attach hc counted (by rw [hp]; rfl) s).record _ .reused).note c rfl

theorem rings_seek (turn : m = .turn (.call c)) (hp : w.phaseOf c = .seeking a) :
    Rings m c w (w.seek c a) := by
  have unbreached : (w.phaseOf c).isBreached = false := by rw [hp]; rfl
  simp only [seek]
  split
  · exact rings_enqueue hc hp (.refl w)
  · rename_i s hs
    split
    · exact .goLoud hc (.refl w) rfl (.breach turn unbreached (.unattended hp hs ‹_›) rfl)
    · split
      · split
        · exact .pass hc ((Calm.refl w).note c rfl) unbreached rfl rfl
        · exact rings_reuse hc hp s
      · exact rings_enqueue hc hp (((Calm.refl w).note c rfl).putSlot _ _ _)

theorem rings_endWait {o : CallId} (turn : m = .turn (.call c)) (hp : w.phaseOf c = .waiting a o) :
    Rings m c w (w.endWait c a o) := by
  have unbreached : (w.phaseOf c).isBreached = false := by rw [hp]; rfl
  simp only [endWait]
  split
  · exact .pass hc (.refl w) unbreached rfl rfl
  · split
    · exact .goCalm hc ((Calm.refl w).note c rfl) (.inherit turn hp ‹_›)
    · exact .goCalm hc (.refl w) (.calm unbreached rfl (by rw [hp]; exact List.Subset.refl _))

/-! ### Opening -/

theorem rings_failOpen (h : Hushed w w₁) (raises : Raises raised c w w₁)
    (answers : Answers m w c (.finished (.failed e)) raised) : Rings m c w (w₁.failOpen c a s e) := by
  have ended := (Rings.go hc h raises answers).calm (((Calm.refl _).endOpen c a.key none).reap s)
  exact ((ended.record _ .openFailed).note c rfl).announce _

omit hc in
theorem Makes.rings_concludeOpen (h : w.Makes c a s [] v) (turn : m = .turn (.call c)) :
    Rings m c w (v.concludeOpen c a s) := by
  simp only [concludeOpen]
  split
  · rename_i unfit
    have fault : w.Fault c := .unfit h (unfit.imp_right fun hn => by simpa using hn)
    have loud := Rings.goLoud (x := .streamRejected a.key (.unfit (v.stream s).state (v.stream s).key))
      h.lt h.calm rfl (.reject (s := s) (e := .violation a.key
        (.unfit (v.stream s).state (v.stream s).key)) turn h.unbreached fault rfl)
    exact Rings.announce (loud.after ((Hushed.endOpen (.refl _) c a.key none).phaseOf c) rfl) _
  · have counted := h.calm.setStream s fun x => { x with consumers := x.consumers + 1 }
    have given := Rings.attach (m := m) h.lt (counted.endOpen c a.key (some s)) h.unbreached s
    exact ((given.record _ .opened).note c rfl).announce _

omit hc in
theorem Makes.rings_nextMove (h : w.Makes c a s l v) (turn : m = .turn (.call c)) :
    Rings m c w (v.nextMove c a s l) := by
  cases l with
  | nil => exact h.rings_concludeOpen turn
  | cons move rest =>
    cases move with
    | pause ms => exact .goCalm h.lt h.calm (h.onward s _)
    | fail e =>
      refine rings_failOpen h.lt h.calm.toHushed (.calm h.calm) (.excuse h.unbreached ?_)
      rw [h.excuses]
      exact List.mem_cons_self
    | connect token =>
      by_cases unopened : (v.stream s).state = .unopened
      · have lifecycle : (v.stream s).lifecycle = .unopened :=
          (Stream.state_eq_iff (by rintro ⟨⟩)).1 unopened
        cases fired : v.hasFired token with
        | true =>
          simp only [nextMove, startOpen_fired lifecycle fired]
          exact rings_failOpen h.lt h.calm.toHushed (.calm h.calm)
            (.calm h.unbreached (by rfl) (List.nil_subset _))
        | false =>
          simp only [nextMove, startOpen_unfired lifecycle fired]
          exact .goCalm h.lt (h.calm.trans (calm_ask v s)) (h.onward s _)
      · simp only [nextMove, startOpen_refused unopened]
        exact rings_failOpen h.lt (h.calm.toHushed.note _ _) (.alarm h.calm rfl)
          (.breach turn h.unbreached (.misopened h.beginsOpen unopened) rfl)
    | exhaust =>
      simp only [nextMove]
      split
      · exact .goCalm h.lt (h.calm.trans (calm_deliver _ _ _)) (h.onward s _)
      · exact .goCalm h.lt h.calm (h.onward s _)
    | close =>
      by_cases closable : (v.stream s).state ∈ [StreamState.unopened, .live, .ended]
      · have started := h.calm.trans (calm_startClose (c := c) closable)
        have proper := isLetIn_startClose (c := c) |>.2 closable
        simp only [nextMove]
        split <;> rename_i heq <;> rw [heq] at started proper
        · exact .goCalm h.lt started (h.onward s _)
        · exact .goCalm h.lt started (h.onward s _)
        · refine rings_failOpen h.lt started.toHushed (.calm started)
            (.calm h.unbreached ?_ (List.nil_subset _))
          simpa [CloseStep.isLetIn, Phase.isBreached] using proper
      · simp only [nextMove, startClose_refused closable]
        exact rings_failOpen h.lt (h.calm.toHushed.note _ _) (.alarm h.calm rfl)
          (.breach turn h.unbreached (.misclosed h.beginsClose h.own closable) rfl)

theorem rings_turnOpening (turn : m = .turn (.call c)) (hp : w.phaseOf c = .opening a s moves wait) :
    Rings m c w (w.turnOpening c a s moves wait) := by
  have unbreached : (w.phaseOf c).isBreached = false := by rw [hp]; rfl
  have onward : ∀ wait', Answers m w c (.opening a s moves wait') false := fun wait' =>
    .calm unbreached rfl (by rw [hp]; exact List.Subset.refl _)
  have failed : ∀ {w₁ e}, Calm w w₁ → e.isViolation = false → Rings m c w (w₁.failOpen c a s e) :=
    fun h proper => rings_failOpen hc h.toHushed (.calm h)
      (.calm unbreached proper (List.nil_subset _))
  cases wait with
  | nowhere => exact (Makes.next hp).rings_nextMove turn
  | outside => exact .stay (.refl w)
  | pausing due => exact .goCalm hc (.refl w) (onward _)
  | ending => exact .goCalm hc (.refl w) (onward _)
  | dialing d =>
    simp only [turnOpening]
    split <;> rename_i heq
    · have makes := Makes.atOnce hp (by rw [heq])
      rw [heq] at makes
      exact makes.rings_nextMove turn
    · have ended := calm_finishOpen w c s d
      rw [heq] at ended
      exact failed ended (finishOpen_unbreached (by rw [heq]))
  | closing stage =>
    have advanced := calm_advanceClose w c s stage
    simp only [turnOpening]
    split <;> rename_i heq <;> rw [heq] at advanced
    · exact .goCalm hc advanced (onward _)
    · exact .goCalm hc advanced (onward _)
    · exact failed advanced (advanceClose_unbreached (by rw [heq]))

theorem rings_provide (result : Except StreamError StreamId) (hm : m = .provide c result) :
    Rings m c w (w.provide c result) := by
  simp only [provide]
  split
  · rename_i hp
    exact .goCalm hc (.refl w) (.told hm (by rw [hp]; rfl) rfl (List.Subset.refl _))
  · rename_i hp
    split
    · refine .goCalm hc ((Calm.refl w).setStream _ _) (.calm (by rw [hp]; rfl) rfl ?_)
      rw [hp]
      exact List.Subset.refl _
    · exact .stay (.refl w)
  · exact .stay (.refl w)

/-! ### Closing -/

omit hc in
/-- A turn of a close that finds its stream where it has to raises no alarm. -/
theorem calm_turnClose (atHand : w.AtHand s stage) : Calm w (w.turnClose c s stage).1 := by
  cases stage with
  | none =>
    refine calm_startClose ((closable_iff _).2 (.inr ?_))
    exact atHand
  | some stage => exact calm_advanceClose w c s stage

theorem rings_turnRejecting (hp : w.phaseOf c = .rejecting s stage e) :
    Rings m c w (w.turnRejecting c s e stage) := by
  obtain ⟨raised, raises⟩ : ∃ raised, Raises raised c w (w.turnClose c s stage).1 := by
    cases stage with
    | some stage => exact ⟨false, .calm (calm_advanceClose w c s stage)⟩
    | none =>
      by_cases closable : (w.stream s).state ∈ [StreamState.unopened, .live, .ended]
      · exact ⟨false, .calm (calm_startClose closable)⟩
      · refine ⟨true, ?_⟩
        rw [turnClose, startClose_refused closable]
        exact .alarm (.refl w) rfl
  have hushed := hushed_turnClose w c s stage
  simp only [turnRejecting, settleRejection]
  split
  · exact .go hc hushed raises (.rejecting hp)
  · exact (Rings.go hc hushed raises (.rejected hp)).calm ((Calm.refl _).reap s)
  · rename_i f _
    have noted k : Raises raised c w ((w.turnClose c s stage).1.note c (.rejectedCloseFailed k f)) := by
      rw [Raises, alarms_note]
      exact raises
    exact (Rings.go hc (hushed.note _ _) (noted _) (.rejected hp)).calm ((Calm.refl _).reap s)

theorem rings_settled {q : CloseStage → Phase} {r : Except StreamError Unit → Phase}
    (unbreached : (w.phaseOf c).isBreached = false) (h : Calm w w₁) (atHand : w₁.AtHand s stage)
    (onward : ∀ x, (q x).isBreached = false ∧ (q x).excuses = [])
    (ended : ∀ x, (∀ e, x = .error e → e.isViolation = false) →
      (r x).isBreached = false ∧ (r x).excuses = []) :
    Rings m c w ((w₁.turnClose c s stage).1.settled c s q r (w₁.turnClose c s stage).2) := by
  have turned := h.trans (calm_turnClose (c := c) atHand)
  rcases turnClose_cases c atHand with ⟨x, hx⟩ | ⟨x, hx, proper⟩
  · rw [hx]
    exact .pass hc turned unbreached (onward x).1 (onward x).2
  · rw [hx]
    generalize (w₁.turnClose c s stage).1 = u at turned ⊢
    have place : ((u.account (u.brokerOf c) x).setPhase c (r x)).phaseOf c = r x := by
      rw [phaseOf_setPhase, if_pos ⟨rfl, (still_account u _ x).frame.calls ▸ turned.calls ▸ hc⟩]
    refine Rings.calm ⟨r x, false, .calm unbreached (ended x proper).1 ?_, place, ?_⟩
      ((Calm.refl _).reap s)
    · rw [(ended x proper).2]
      exact List.nil_subset _
    · exact (alarms_account u _ x).trans turned.alarms

theorem Regular.rings_turnTearing (h : w.Regular) (hp : w.phaseOf c = .tearing s stage) :
    Rings m c w (w.turnTearing c s stage) := by
  simp only [turnTearing, settleTear_eq]
  refine rings_settled hc (by rw [hp]; rfl) (.refl w) ?_ (fun _ => ⟨rfl, rfl⟩) fun x proper => ?_
  · cases stage with
    | none => exact h.poised.ahead (c := c) (by rw [hp]; exact List.mem_singleton_self s)
    | some stage => exact h.wired.manned (c := c) (by rw [jobs, hp]; rfl)
  · cases x with
    | ok => exact ⟨rfl, rfl⟩
    | error e => exact ⟨proper e rfl, rfl⟩

theorem Regular.rings_turnSweeping {current : Option (StreamId × CloseStage)} {left : List StreamId}
    {n : Nat} (h : w.Regular) (hp : w.phaseOf c = .sweeping current left n) :
    Rings m c w (w.turnSweeping c current left n) := by
  have unbreached : (w.phaseOf c).isBreached = false := by rw [hp]; rfl
  simp only [turnSweeping, settleSweep_eq]
  split
  · exact rings_settled hc unbreached (.refl w) (h.wired.manned (c := c) (by rw [jobs, hp]; rfl))
      (fun _ => ⟨rfl, rfl⟩) fun _ _ => ⟨rfl, rfl⟩
  · exact rings_settled hc unbreached ((Calm.refl w).note c rfl)
      (h.poised.ahead (c := c) (by rw [hp]; exact List.mem_cons_self))
      (fun _ => ⟨rfl, rfl⟩) fun _ _ => ⟨rfl, rfl⟩
  · refine .pass hc ?_ unbreached rfl rfl
    split
    · exact (Calm.refl w).note c rfl
    · exact .refl w

/-! ### Releasing -/

/-- The consumer to be released is there. -/
theorem Ledger.rings_release {i : ConsumerId} (l : w.Ledger) (turn : m = .turn (.call c))
    (hp : w.phaseOf c = .releasing i) : Rings m c w (w.release c i) := by
  obtain ⟨x, hx, -⟩ := l.handed (c := c) (i := i) (by rw [hp]; rfl)
  have unbreached : (w.phaseOf c).isBreached = false := by rw [hp]; rfl
  have refused : ∀ {e k breach}, Event.isAlarm e → (w.isHeld x.stream →
      (w.slot (w.brokerOf c) x.key).isRegistered x.stream → (w.stream x.stream).consumers = 0) →
      Rings m c w (w.refuseRelease c i e k breach) := fun {e k breach} he unfit =>
    (Rings.goLoud hc ((Calm.refl w).setStanding i .refused) he (p := .finished (.failed
      (.violation k breach))) (.breach turn unbreached (.unlisted hp hx unfit) rfl)).after rfl rfl
  simp only [release, hx]
  split
  · rename_i gone
    refine refused rfl fun held => ?_
    rw [held] at gone
    cases gone
  · split
    · rename_i unlisted
      refine refused rfl fun _ listed => ?_
      rw [listed] at unlisted
      cases unlisted
    · split
      · exact refused rfl fun _ _ => ‹_›
      · have released := ((Calm.refl w).setStanding i .released).setStream x.stream fun y =>
          { y with consumers := y.consumers - 1 }
        split
        · exact (Rings.pass hc released unbreached (p := .finished .done) rfl rfl).note c rfl
        · exact (Rings.pass hc (released.putSlot (w.brokerOf c) x.key
            ((w.slot (w.brokerOf c) x.key).deregister x.stream)) unbreached
              (p := .tearing x.stream none) rfl rfl).note c rfl

/-! ### Streams by themselves -/

theorem rings_turnDialStart {token : Option Token} (turn : m = .turn (.call c))
    (hp : w.phaseOf c = .dialStart s token) : Rings m c w (w.turnDialStart c s token) := by
  have unbreached : (w.phaseOf c).isBreached = false := by rw [hp]; rfl
  by_cases unopened : (w.stream s).state = .unopened
  · have lifecycle : (w.stream s).lifecycle = .unopened :=
      (Stream.state_eq_iff (by rintro ⟨⟩)).1 unopened
    cases fired : w.hasFired token with
    | true =>
      simp only [turnDialStart, startOpen_fired lifecycle fired]
      exact (Rings.pass hc (.refl w) unbreached rfl rfl).calm ((Calm.refl _).reap s)
    | false =>
      simp only [turnDialStart, startOpen_unfired lifecycle fired]
      exact .pass hc (calm_ask w s) unbreached rfl rfl
  · simp only [turnDialStart, startOpen_refused unopened]
    exact (Rings.goLoud hc (.refl w) rfl (.breach turn unbreached (.misopened (.alone hp) unopened)
      rfl)).calm ((Calm.refl _).reap s)

theorem rings_turnDialing {d : Dial} (hp : w.phaseOf c = .dialing s d) :
    Rings m c w (w.turnDialing c s d) := by
  have unbreached : (w.phaseOf c).isBreached = false := by rw [hp]; rfl
  have ended := calm_finishOpen w c s d
  simp only [turnDialing]
  split <;> rename_i heq <;> rw [heq] at ended
  · exact (Rings.pass hc ended unbreached rfl rfl).calm ((Calm.refl _).reap s)
  · refine (Rings.pass hc ended unbreached ?_ rfl).calm ((Calm.refl _).reap s)
    exact finishOpen_unbreached (by rw [heq])

theorem rings_settleClose (unbreached : (w.phaseOf c).isBreached = false) (h : Calm w w₁)
    {step : CloseStep} (letIn : step.isLetIn) : Rings m c w (w₁.settleClose c s step) := by
  simp only [settleClose]
  split
  · exact .pass hc h unbreached rfl rfl
  · exact (Rings.pass hc h unbreached rfl rfl).calm ((Calm.refl _).reap s)
  · refine (Rings.pass hc h unbreached ?_ rfl).calm ((Calm.refl _).reap s)
    simpa [CloseStep.isLetIn, Phase.isBreached] using letIn

theorem rings_closeStart (turn : m = .turn (.call c)) (hp : w.phaseOf c = .closeStart s) :
    Rings m c w ((w.startClose c s).1.settleClose c s (w.startClose c s).2) := by
  have unbreached : (w.phaseOf c).isBreached = false := by rw [hp]; rfl
  by_cases closable : (w.stream s).state ∈ [StreamState.unopened, .live, .ended]
  · exact rings_settleClose hc unbreached (calm_startClose closable) (isLetIn_startClose.2 closable)
  · rw [startClose_refused closable]
    exact (Rings.goLoud hc (.refl w) rfl (.breach turn unbreached
      (.misclosed (.alone hp) (by rw [hp]; rfl) closable) rfl)).calm ((Calm.refl _).reap s)

omit hc in
theorem isLetIn_advanceClose (w : System) (c : CallId) (s : StreamId) (stage : CloseStage) :
    (w.advanceClose c s stage).2.isLetIn := by
  rcases h : (w.advanceClose c s stage).2 with next | ⟨e | u⟩
  · rfl
  · simp [CloseStep.isLetIn, advanceClose_unbreached h]
  · rfl

/-! ### Moves -/

theorem Regular.rings_turnCall (h : w.Regular) (turn : m = .turn (.call c)) :
    Rings m c w (w.turnCall c (w.phaseOf c)) := by
  cases hp : w.phaseOf c with
  | admission ctx a => exact rings_enter hc hp
  | seeking a => exact rings_seek hc turn hp
  | waiting a o => exact rings_endWait hc turn hp
  | opening a s moves wait => exact rings_turnOpening hc turn hp
  | rejecting s stage e => exact rings_turnRejecting hc hp
  | releasing i => exact h.ledger.rings_release hc turn hp
  | tearing s stage => exact h.rings_turnTearing hc hp
  | sweepStart =>
    exact .pass hc ((Calm.refl w).hush ((Hushed.refl w).setSlots _ _) rfl) (by rw [hp]; rfl) rfl rfl
  | sweeping current rest n => exact h.rings_turnSweeping hc hp
  | dialStart s token => exact rings_turnDialStart hc turn hp
  | dialing s d => exact rings_turnDialing hc hp
  | closeStart s => exact rings_closeStart hc turn hp
  | closing s stage =>
    exact rings_settleClose hc (by rw [hp]; rfl) (calm_advanceClose w c s stage)
      (isLetIn_advanceClose w c s stage)
  | finished o => exact .stay (.refl w)
  | abandoned => exact .stay (.refl w)

theorem rings_abandon : Rings m c w (w.abandon c) := by
  by_cases hs : (w.phaseOf c).isSuspended
  swap
  · simp only [abandon, hs, Bool.not_false, if_true]
    exact .stay (.refl w)
  have leave : ∀ w₁, Calm w w₁ → Rings m c w (w₁.setPhase c .abandoned) :=
    fun w₁ h => .goCalm hc h .leave
  simp only [abandon, hs, Bool.not_true, Bool.false_eq_true, if_false]
  split
  · rename_i a s moves wait hp
    have ended := leave _ (calm_abandonWait w s wait)
    exact (ended.calm (((Calm.refl _).endOpen c a.key none).reap s)).note c rfl
  · exact (leave _ (calm_abandonClose w _ _)).calm ((Calm.refl _).reap _)
  · exact (leave _ (calm_abandonClose w _ _)).calm ((Calm.refl _).reap _)
  · exact (leave _ (calm_abandonClose w _ _)).calm ((Calm.refl _).reap _)
  · exact (leave _ (calm_abandonClose w _ _)).calm (((Calm.refl _).reap _).foldl_reap _)
  · exact (leave _ ((Calm.refl w).setLink _ _)).calm ((Calm.refl _).reap _)
  · exact leave w (.refl w)

end Turn

/-- A move of a call takes it one of these ways. -/
theorem Regular.rings (h : w.Regular) (actor : m.actor = some c) : Rings m c w (w.step m) := by
  have stay : w.phaseOf c = .abandoned ∨ c < w.calls.size := by
    by_cases hp : w.phaseOf c = .abandoned
    · exact .inl hp
    · exact .inr (w.lt_of_phaseOf c hp)
  unfold Move.actor at actor
  split at actor
  · cases actor
    simp only [System.step, System.turn]
    split
    · rcases stay with hp | hc
      · rw [hp]
        exact .stay (.refl w)
      · exact h.rings_turnCall hc rfl
    · exact .stay (.refl w)
  · cases actor
    rcases stay with hp | hc
    · simp only [System.step, System.abandon, hp, Phase.isSuspended]
      exact .stay (.refl w)
    · exact rings_abandon hc
  · cases actor
    rcases stay with hp | hc
    · simp only [System.step, System.provide, hp]
      exact .stay (.refl w)
    · exact rings_provide hc _ rfl
  · cases actor

/-- What is no move of a call raises no alarm. -/
theorem alarms_step (still : m.actor = none) : (w.step m).alarms = w.alarms := by
  cases m with
  | turn r =>
    cases r with
    | call c => cases still
    | pump s =>
      simp only [step, turn]
      split
      · exact (calm_turnPump w s).alarms
      · rfl
  | start b gated errand =>
    simp only [step, start]
    split
    · cases errand <;> rfl
    · rfl
  | deliver n e => exact (calm_deliver w n e).alarms
  | cancel t =>
    simp only [step]
    split <;> rfl
  | abandon c | provide c result => cases still
  | dropConsumer i =>
    simp only [step, dropConsumer]
    split
    · split
      · exact (((Calm.refl w).setStanding i _).note none rfl).alarms
      · rfl
    · rfl
  | make r config => rfl
  | letGo s => exact (((Calm.refl w).setStream s _).reap s).alarms
  | setDesk desk => rfl
  | elapse ms => rfl

end System

end TunerBroker
