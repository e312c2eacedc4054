import TunerBroker.Proofs.Steps.View

/-! What nothing depends on. The system does not look at its log, and no call but a sweep looks at
whether it was made through the gate. So a step does the same to a system over an older log, and to one in
which a call is taken for one made without the gate. -/

namespace TunerBroker

/-- A call about to be decided on, taken for one that is about to look at the slot. -/
def Phase.past : Phase → Phase
  | admission _ a => seeking a
  | p => p

/-- A call taken for one made without the gate. -/
def Call.ungated (x : Call) : Call := { x with gated := false, phase := x.phase.past }

namespace Phase

theorem past_eq {p : Phase} (hp : ∀ ctx a, p ≠ .admission ctx a) : p.past = p := by
  cases p with
  | admission ctx a => exact absurd rfl (hp ctx a)
  | _ => rfl

@[simp] theorem isOpening_past (p : Phase) : p.past.isOpening = p.isOpening := by cases p <;> rfl
@[simp] theorem isSuspended_past (p : Phase) : p.past.isSuspended = p.isSuspended := by
  cases p <;> rfl
@[simp] theorem holds_past (p : Phase) : p.past.holds = p.holds := by cases p <;> rfl

end Phase

/-- An entry that is there changes alike before and after another is added. -/
theorem Table.update_add {α : Type} {t : Table α} {i : Nat} (lt : i < t.size) (f : α → α) (a : α) :
    (t.add a).update i f = (t.update i f).add a := by
  rw [Table.mk.injEq]
  refine List.ext_getElem? fun j => ?_
  change ((t.add a).update i f).get? j = ((t.update i f).add a).get? j
  simp only [Table.get?_update, Table.get?_add, Table.size_update]
  by_cases last : j = t.size
  · rw [if_neg (last ▸ (Nat.ne_of_lt lt).symm), if_pos last, if_pos last]
  · simp only [last, if_false]

/-- The entry added last is changed by changing what is added. -/
theorem Table.update_add_self {α : Type} (t : Table α) (f : α → α) (a : α) :
    (t.add a).update t.size f = t.add (f a) := by
  rw [Table.mk.injEq]
  refine List.ext_getElem? fun j => ?_
  change ((t.add a).update t.size f).get? j = (t.add (f a)).get? j
  simp only [Table.get?_update, Table.get?_add]
  split <;> rfl

namespace System

/-- The same system with an older log beneath its own. -/
def atop (w : System) (j : List Entry) : System := { w with journal := w.journal ++ j }

/-- The system without its log. -/
def bare (w : System) : System := { w with journal := [] }

/-- The system with one call taken for one made without the gate. -/
def ungated (w : System) (g : CallId) : System :=
  { w with calls := w.calls.update g Call.ungated }

/-- The system over an older log, with one call, if any, taken for one made without the gate. -/
def guise (w : System) (g : Option CallId) (j : List Entry) : System :=
  { w with
    calls := g.elim w.calls fun g => w.calls.update g Call.ungated
    journal := w.journal ++ j }

variable (w : System) (g : Option CallId) (j : List Entry) (b : BrokerId) (k : SourceKey) (c : CallId) (s : StreamId)
  (n : ConnectionId) (i : ConsumerId) (a : Acquisition)

/-! ### What is read off the system -/

section

variable (t : Option Token) (d : Dial) (stage : CloseStage) (wait : OpenWait)

@[simp] theorem stream_guise : (w.guise g j).stream s = w.stream s := rfl
@[simp] theorem connection_guise : (w.guise g j).connection n = w.connection n := rfl
@[simp] theorem slot_guise : (w.guise g j).slot b k = w.slot b k := rfl
@[simp] theorem hasFired_guise : (w.guise g j).hasFired t = w.hasFired t := rfl
@[simp] theorem accepts_guise : (w.guise g j).accepts n = w.accepts n := rfl
@[simp] theorem clock_guise : (w.guise g j).clock = w.clock := rfl
@[simp] theorem desk_guise : (w.guise g j).desk = w.desk := rfl
@[simp] theorem consumers_guise : (w.guise g j).consumers = w.consumers := rfl
@[simp] theorem streams_guise : (w.guise g j).streams = w.streams := rfl
@[simp] theorem listed_guise : (w.guise g j).listed b = w.listed b := rfl
@[simp] theorem dialDue_guise : (w.guise g j).dialDue d = w.dialDue d := rfl
@[simp] theorem stageDue_guise : (w.guise g j).stageDue s stage = w.stageDue s stage := by
  cases stage <;> rfl
@[simp] theorem openWaitDue_guise : (w.guise g j).openWaitDue s wait = w.openWaitDue s wait := by
  cases wait with
  | closing stage => exact stageDue_guise w g j s stage
  | _ => rfl

theorem get?_guise : (w.guise g j).calls.get? c =
    (w.calls.get? c).map fun x => if g = some c then x.ungated else x := by
  cases g with
  | none => simp [guise]
  | some g =>
    rw [guise, Option.elim_some, Table.get?_update]
    by_cases h : c = g
    · simp [h]
    · simp [h, Ne.symm h]

theorem phaseOf_guise :
    (w.guise g j).phaseOf c = if g = some c then (w.phaseOf c).past else w.phaseOf c := by
  rw [phaseOf, phaseOf, get?_guise]
  cases w.calls.get? c <;> by_cases h : g = some c <;> simp [h, Call.ungated, Phase.past]

@[simp] theorem brokerOf_guise : (w.guise g j).brokerOf c = w.brokerOf c := by
  rw [brokerOf, brokerOf, get?_guise]
  cases w.calls.get? c with
  | none => rfl
  | some x => by_cases h : g = some c <;> simp [h, Call.ungated]

@[simp] theorem told_guise : ((w.guise g j).calls.get? c).bind (·.announced) =
    (w.calls.get? c).bind (·.announced) := by
  rw [get?_guise]
  cases w.calls.get? c with
  | none => rfl
  | some x => by_cases h : g = some c <;> simp [h, Call.ungated]

@[simp] theorem openOver_guise : (w.guise g j).openOver c = w.openOver c := by
  rw [openOver, openOver, get?_guise]
  cases w.calls.get? c with
  | none => rfl
  | some x => by_cases h : g = some c <;> simp [h, Call.ungated]

@[simp] theorem inFlight_guise : (w.guise g j).inFlight = w.inFlight := by
  funext d
  rw [inFlight, inFlight, phaseOf_guise]
  split <;> simp

theorem holds_guise : ((w.guise g j).phaseOf c).holds = (w.phaseOf c).holds := by
  rw [phaseOf_guise]
  split <;> simp

@[simp] theorem isHeld_guise : (w.guise g j).isHeld s = w.isHeld s := by
  rw [Bool.eq_iff_iff, isHeld_iff, isHeld_iff]
  simp only [holds_guise, stream_guise, slot_guise]

@[simp] theorem isFree_guise : (w.guise g j).isFree s = w.isFree s := by
  rw [Bool.eq_iff_iff, isFree_iff, isFree_iff]
  simp only [holds_guise, stream_guise]

@[simp] theorem phaseReady_guise (p : Phase) : (w.guise g j).phaseReady p = w.phaseReady p := by
  cases p with
  | rejecting s stage e => cases stage <;> simp [phaseReady]
  | tearing s stage => cases stage <;> simp [phaseReady]
  | sweeping current rest n => cases current <;> simp [phaseReady]
  | _ => simp [phaseReady]

end

/-! ### Small changes -/

section

variable (o : Option CallId) (e : Event) (f : Stream → Stream) (l : LinkState) {p : Phase}
  (x : Slot) (t : Tick) (q : Standing) (r : Outcome) (y : Announcement) (z : Stream)

@[simp] theorem note_guise : (w.guise g j).note o e = (w.note o e).guise g j := rfl
@[simp] theorem setStream_guise : (w.guise g j).setStream s f = (w.setStream s f).guise g j := rfl
@[simp] theorem addStream_guise : (w.guise g j).addStream z = (w.addStream z).guise g j := rfl
@[simp] theorem setLink_guise : (w.guise g j).setLink n l = (w.setLink n l).guise g j := rfl
@[simp] theorem dropLink_guise : (w.guise g j).dropLink n = (w.dropLink n).guise g j := rfl
@[simp] theorem putSlot_guise : (w.guise g j).putSlot b k x = (w.putSlot b k x).guise g j := rfl
@[simp] theorem setSlots_guise (h : Keyed SourceKey Slot → Keyed SourceKey Slot) :
    (w.guise g j).setSlots b h = (w.setSlots b h).guise g j := rfl
@[simp] theorem record_guise : (w.guise g j).record b t = (w.record b t).guise g j := rfl
@[simp] theorem setStanding_guise : (w.guise g j).setStanding i q = (w.setStanding i q).guise g j :=
  rfl

/-- Two changes of a call commute if they do so on every call. -/
theorem update_guise {h : Call → Call} (comm : ∀ x : Call, h x.ungated = (h x).ungated) :
    ({ w.guise g j with calls := (w.guise g j).calls.update c h } : System) =
      ({ w with calls := w.calls.update c h } : System).guise g j := by
  cases g with
  | none => rfl
  | some g =>
    simp only [guise, Option.elim_some, Table.update, mk.injEq, Table.mk.injEq, true_and, and_true]
    by_cases same : g = c
    · subst same
      rw [List.modify_modify_eq, List.modify_modify_eq]
      congr 1
      funext x
      exact comm x
    · exact List.modify_modify_ne _ _ _ same

/-- No call comes to its admission but where it begins. -/
@[simp] theorem setPhase_guise (hp : ∀ ctx a, p ≠ .admission ctx a) :
    (w.guise g j).setPhase c p = (w.setPhase c p).guise g j :=
  update_guise w g j c fun x => by simp [Call.ungated, Phase.past_eq hp]

@[simp] theorem finish_guise : (w.guise g j).finish c r = (w.finish c r).guise g j :=
  setPhase_guise w g j c (by simp)

@[simp] theorem announce_guise : (w.guise g j).announce c y = (w.announce c y).guise g j :=
  update_guise w g j c fun _ => rfl

@[simp] theorem attach_guise : (w.guise g j).attach c s = (w.attach c s).guise g j := by
  simp only [attach, brokerOf_guise]
  exact finish_guise (w.addConsumer _) g j c _

@[simp] theorem endOpen_guise (given : Option StreamId) :
    (w.guise g j).endOpen c k given = (w.endOpen c k given).guise g j := by
  cases given <;> simp [endOpen]

@[simp] theorem beginOpen_guise : (w.guise g j).beginOpen c a x = (w.beginOpen c a x).guise g j := by
  simp only [beginOpen, brokerOf_guise, putSlot_guise, addStream_guise, streams_guise]
  exact setPhase_guise _ g j c (by simp)

@[simp] theorem reuse_guise : (w.guise g j).reuse c a s = (w.reuse c a s).guise g j := by
  simp [reuse]

end

@[simp] theorem ite_guise (p : Prop) [Decidable p] (v : System) :
    (if p then v else w).guise g j = if p then v.guise g j else w.guise g j :=
  apply_ite (guise · g j) p v w

/-! ### Pumps and connections -/

@[simp] theorem detachPump_guise : (w.guise g j).detachPump s = (w.detachPump s).guise g j := by
  cases h : ((w.setStream s fun x => { x with stopping := true, detached := true }).stream s).pump <;>
    simp [detachPump, h]

@[simp] theorem reap_guise : (w.guise g j).reap s = (w.reap s).guise g j := by simp [reap]

theorem foldl_reap_guise (l : List StreamId) :
    l.foldl reap (w.guise g j) = (l.foldl reap w).guise g j := by
  induction l generalizing w with
  | nil => rfl
  | cons s l ih => rw [List.foldl_cons, List.foldl_cons, reap_guise, ih]

@[simp] theorem endPump_guise : (w.guise g j).endPump s n = (w.endPump s n).guise g j := by
  by_cases h : (w.stream s).detached <;> simp [endPump, h]

theorem turnPump_guise : (w.guise g j).turnPump s = (w.turnPump s).guise g j := by
  cases h : (w.stream s).pump <;> simp [turnPump, h]

@[simp] theorem deliver_guise (e : SourceEvent) :
    (w.guise g j).deliver n e = (w.deliver n e).guise g j := by
  by_cases h : w.accepts n <;> cases e <;> simp [deliver, h]

/-! ### Opening and closing one stream -/

@[simp] theorem startOpen_guise (t : Option Token) : (w.guise g j).startOpen c s t =
    ((w.startOpen c s t).1.guise g j, (w.startOpen c s t).2) := by
  by_cases unopened : (w.stream s).lifecycle = .unopened <;>
    by_cases fired : w.hasFired t <;> simp [startOpen, unopened, fired]
  exact ⟨rfl, rfl, rfl⟩

@[simp] theorem finishOpen_guise (d : Dial) : (w.guise g j).finishOpen c s d =
    ((w.finishOpen c s d).1.guise g j, (w.finishOpen c s d).2) := by
  by_cases fired : w.hasFired d.token <;> by_cases due : d.answer ≤ w.clock <;>
    cases h : (w.connection d.connection).terms.failure <;>
      simp [finishOpen, fired, due, h] <;> rfl

@[simp] theorem turnClose_guise (stage : Option CloseStage) : (w.guise g j).turnClose c s stage =
    ((w.turnClose c s stage).1.guise g j, (w.turnClose c s stage).2) := by
  have closed (v : System) (fault : Option ShutdownFault) : (v.guise g j).closed c s fault =
      ((v.closed c s fault).1.guise g j, (v.closed c s fault).2) := by
    cases fault <;> rfl
  cases stage with
  | none => cases h : (w.stream s).lifecycle <;> simp [turnClose, startClose, h]
  | some stage =>
    cases stage <;> cases h : (w.stream s).pump <;> simp [turnClose, advanceClose, closed, h]
    rfl

@[simp] theorem abandonClose_guise (stage : CloseStage) :
    (w.guise g j).abandonClose s stage = (w.abandonClose s stage).guise g j := by
  cases stage <;> simp [abandonClose]

@[simp] theorem account_guise (result : Except StreamError Unit) :
    (w.guise g j).account b result = (w.account b result).guise g j := by
  cases result <;> simp [account]

/-! ### Acquiring -/

@[simp] theorem enqueue_guise : (w.guise g j).enqueue c a = (w.enqueue c a).guise g j := by
  cases h : (w.slot (w.brokerOf c) a.key).opening.filter w.inFlight <;> simp [enqueue, h]

theorem seek_guise : (w.guise g j).seek c a = (w.seek c a).guise g j := by
  cases h : (w.slot (w.brokerOf c) a.key).shared with
  | none => simp [seek, h]
  | some s =>
    by_cases none : (w.stream s).consumers = 0
    · simp [seek, h, none]
    · by_cases live : (w.stream s).isLive
      · cases hm : a.media with
        | none => simp [seek, h, none, live, hm]
        | some x =>
          by_cases same : x = (w.stream s).request.media <;>
            simp [seek, h, none, live, hm, same, Option.filter]
      · simp [seek, h, none, live]

theorem endWait_guise (o : CallId) : (w.guise g j).endWait c a o = (w.endWait c a o).guise g j := by
  rcases h : (w.calls.get? o).bind (·.announced) with _ | _ | e <;> simp [endWait, h]

@[simp] theorem failOpen_guise (e : StreamError) :
    (w.guise g j).failOpen c a s e = (w.failOpen c a s e).guise g j := by
  simp [failOpen]

@[simp] theorem concludeOpen_guise :
    (w.guise g j).concludeOpen c a s = (w.concludeOpen c a s).guise g j := by
  simp [concludeOpen]

section

variable (moves : List OpenMove) (wait : OpenWait)

@[simp] theorem nextMove_guise :
    (w.guise g j).nextMove c a s moves = (w.nextMove c a s moves).guise g j := by
  cases moves with
  | nil => simp [nextMove]
  | cons move rest =>
    cases move with
    | pause ms => simp [nextMove]
    | fail e => simp [nextMove]
    | connect t =>
      rcases h : w.startOpen c s t with ⟨v, d | (e | u)⟩ <;> simp [nextMove, h]
    | exhaust => cases h : (w.stream s).pump.connection? <;> simp [nextMove, h]
    | close =>
      have closing : (w.guise g j).startClose c s =
          ((w.startClose c s).1.guise g j, (w.startClose c s).2) := turnClose_guise w g j c s none
      rcases h : w.startClose c s with ⟨v, stage | (e | u)⟩ <;>
        simp [nextMove, closing, h]

theorem turnOpening_guise :
    (w.guise g j).turnOpening c a s moves wait = (w.turnOpening c a s moves wait).guise g j := by
  cases wait with
  | nowhere => exact nextMove_guise w g j c s a moves
  | outside => rfl
  | pausing | ending => simp [turnOpening]
  | dialing d => rcases h : w.finishOpen c s d with ⟨v, e | u⟩ <;> simp [turnOpening, h]
  | closing stage =>
    have closing : (w.guise g j).advanceClose c s stage =
        ((w.advanceClose c s stage).1.guise g j, (w.advanceClose c s stage).2) :=
      turnClose_guise w g j c s (some stage)
    rcases h : w.advanceClose c s stage with ⟨v, next | (e | u)⟩ <;>
      simp [turnOpening, closing, h]

end

theorem turnRejecting_guise (e : StreamError) (stage : Option CloseStage) :
    (w.guise g j).turnRejecting c s e stage = (w.turnRejecting c s e stage).guise g j := by
  rcases h : w.turnClose c s stage with ⟨v, next | (f | u)⟩ <;>
    simp [turnRejecting, settleRejection, h]

/-! ### Releasing -/

theorem release_guise : (w.guise g j).release c i = (w.release c i).guise g j := by
  have tears (v : System) (s) := setPhase_guise v g j c (p := .tearing s none) (by simp)
  cases h : w.consumers.get? i with
  | none => simp [release, h]
  | some x =>
    simp only [release, refuseRelease, consumers_guise, h, isHeld_guise, slot_guise,
      brokerOf_guise, stream_guise, setStanding_guise, setStream_guise, putSlot_guise,
      finish_guise, note_guise, ite_guise, tears]

theorem turnTearing_guise (stage : Option CloseStage) :
    (w.guise g j).turnTearing c s stage = (w.turnTearing c s stage).guise g j := by
  rcases h : w.turnClose c s stage with ⟨v, next | result⟩ <;>
    simp [turnTearing, settleTear, h]

theorem sweep_guise : (w.guise g j).sweep c = (w.sweep c).guise g j := by
  simp [sweep]

theorem settleSweep_guise (rest : List StreamId) (count : Nat) (step : CloseStep) :
    (w.guise g j).settleSweep c s rest count step =
      (w.settleSweep c s rest count step).guise g j := by
  cases step <;> simp [settleSweep]

/-- Only the log of a sweep tells whether it was made through the gate. -/
theorem turnSweeping_guise (other : g ≠ some c) (current : Option (StreamId × CloseStage))
    (rest : List StreamId) (count : Nat) : (w.guise g j).turnSweeping c current rest count =
      (w.turnSweeping c current rest count).guise g j := by
  have gated : (w.guise g j).isGated c = w.isGated c := by
    rw [isGated, isGated, get?_guise]
    cases w.calls.get? c <;> simp [other]
  cases current with
  | some x => simp [turnSweeping, settleSweep_guise]
  | none =>
    cases rest with
    | nil => by_cases h : w.isGated c <;> simp [turnSweeping, gated, h]
    | cons s rest => simp [turnSweeping, settleSweep_guise]

theorem dropConsumer_guise : (w.guise g j).dropConsumer i = (w.dropConsumer i).guise g j := by
  cases h : w.consumers.get? i <;> simp [dropConsumer, h]

/-! ### Steps -/

theorem abandonWait_guise (wait : OpenWait) :
    (w.guise g j).abandonWait s wait = (w.abandonWait s wait).guise g j := by
  cases wait <;> simp [abandonWait]

theorem abandon_guise : (w.guise g j).abandon c = (w.abandon c).guise g j := by
  by_cases suspended : (w.phaseOf c).isSuspended
  · have same : (w.guise g j).phaseOf c = w.phaseOf c := by
      rw [phaseOf_guise]
      split
      · exact Phase.past_eq fun ctx a h => by simp [h, Phase.isSuspended] at suspended
      · rfl
    simp only [abandon, same]
    cases h : w.phaseOf c with
    | rejecting s stage e => cases stage <;> simp [Phase.isSuspended]
    | tearing s stage => cases stage <;> simp [Phase.isSuspended]
    | sweeping current rest n => cases current <;> simp [Phase.isSuspended, foldl_reap_guise]
    | _ => simp [abandonWait_guise]
  · have stays : ((w.guise g j).phaseOf c).isSuspended = false := by
      rw [phaseOf_guise]
      split <;> simpa using suspended
    simp [abandon, suspended, stays]

theorem provide_guise (result : Except StreamError StreamId) :
    (w.guise g j).provide c result = (w.provide c result).guise g j := by
  by_cases place : ∃ a s moves, w.phaseOf c = .opening a s moves .outside
  · obtain ⟨a, s, moves, h⟩ := place
    have same : (w.guise g j).phaseOf c = .opening a s moves .outside := by
      rw [phaseOf_guise, h]
      split <;> rfl
    cases result with
    | error e => simp [provide, same, h]
    | ok t => by_cases free : w.isFree t <;> simp [provide, same, h, free]
  · have idle : ∀ {v : System}, (∀ a s moves, v.phaseOf c ≠ .opening a s moves .outside) →
        v.provide c result = v := by
      intro v no
      simp only [provide]
      split
      · exact absurd ‹_› (no _ _ _)
      · exact absurd ‹_› (no _ _ _)
      · rfl
    have no (a s moves) (h : w.phaseOf c = .opening a s moves .outside) : False :=
      place ⟨a, s, moves, h⟩
    rw [idle no, idle]
    intro a s moves h
    rw [phaseOf_guise] at h
    split at h
    · cases hp : w.phaseOf c <;> simp_all [Phase.past]
    · exact no a s moves h

theorem enter_guise (ctx : RequestContext) :
    (w.guise g j).enter c ctx a = (w.enter c ctx a).guise g j := by
  by_cases h : (w.desk.decide ctx .liveTvAccess).isAccepted <;> simp [enter, authorized, h]

theorem turnCall_guise {p : Phase} (still : g = some c → ∀ current rest n, p ≠ .sweeping current rest n) :
    (w.guise g j).turnCall c p = (w.turnCall c p).guise g j := by
  cases p with
  | admission ctx a => exact enter_guise w g j c a ctx
  | seeking a => exact seek_guise w g j c a
  | waiting a o => exact endWait_guise w g j c a o
  | opening a s moves wait => exact turnOpening_guise w g j c s a moves wait
  | rejecting s stage e => exact turnRejecting_guise w g j c s e stage
  | releasing i => exact release_guise w g j c i
  | tearing s stage => exact turnTearing_guise w g j c s stage
  | sweepStart => exact sweep_guise w g j c
  | sweeping current rest n =>
    exact turnSweeping_guise w g j c (fun same => still same current rest n rfl) current rest n
  | dialStart s t =>
    rcases h : w.startOpen c s t with ⟨v, d | (e | u)⟩ <;> simp [turnCall, turnDialStart, h]
  | dialing s d => rcases h : w.finishOpen c s d with ⟨v, e | u⟩ <;> simp [turnCall, turnDialing, h]
  | closeStart s =>
    rcases h : w.turnClose c s none with ⟨v, next | (e | u)⟩ <;> simp [turnCall, settleClose, h]
  | closing s stage =>
    rcases h : w.turnClose c s (some stage) with ⟨v, next | (e | u)⟩ <;>
      simp [turnCall, settleClose, h]
  | finished o => rfl
  | abandoned => rfl

variable {w g j}

theorem addCall_guise (there : ∀ c ∈ g, c < w.calls.size) (x : Call) :
    (w.guise g j).addCall x = (w.addCall x).guise g j := by
  cases g with
  | none => rfl
  | some g => simp only [addCall, guise, Option.elim_some, Table.update_add (there g rfl)]

/-- A step but the admission itself does to the system seen so what it does to the system. -/
theorem step_guise {m : Move} (there : ∀ c ∈ g, c < w.calls.size)
    (still : ∀ c ∈ g, ∀ current rest n, w.phaseOf c ≠ .sweeping current rest n)
    (later : ∀ c ∈ g, m = .turn (.call c) → ∀ ctx a, w.phaseOf c ≠ .admission ctx a) :
    (w.guise g j).step m = (w.step m).guise g j := by
  cases m with
  | turn r =>
    cases r with
    | call c =>
      have same : (w.guise g j).phaseOf c = w.phaseOf c := by
        rw [phaseOf_guise]
        split
        · exact Phase.past_eq (later c ‹_› rfl)
        · rfl
      have turned := turnCall_guise w g j c (p := w.phaseOf c) (still c)
      by_cases ready : w.phaseReady (w.phaseOf c) <;>
        simp [step, turn, System.ready, same, turned, ready]
    | pump s =>
      by_cases ready : (w.stream s).pump.isReading && (w.stream s).stopping <;>
        simp_all [step, turn, System.ready, turnPump_guise]
  | start b gated errand =>
    have same : errand.isAllowed (w.guise g j) b = errand.isAllowed w b := by cases errand <;> rfl
    have begun : (w.guise g j).begin b gated errand = (w.begin b gated errand).guise g j := by
      cases errand <;> simp only [begin, addCall_guise there, setStanding_guise]
    by_cases allowed : errand.isAllowed w b <;> simp [step, start, same, begun, allowed]
  | deliver n e => exact deliver_guise w g j n e
  | cancel t =>
    by_cases fired : w.fired.contains t
    · rw [step, if_pos (by exact fired), step, if_pos fired]
    · rw [step, if_neg (by exact fired), step, if_neg fired]
      rfl
  | abandon c => exact abandon_guise w g j c
  | provide c result => exact provide_guise w g j c result
  | dropConsumer i => exact dropConsumer_guise w g j i
  | make r config => rfl
  | letGo s => exact reap_guise (w.setStream s fun x => { x with named := false }) g j s
  | setDesk desk => rfl
  | elapse ms => rfl

/-! ### The log, and the gate -/

theorem ungated_eq (w : System) (c : CallId) : w.ungated c = w.guise (some c) [] := by
  simp [ungated, guise]

theorem phaseOf_ungated (w : System) (c d : CallId) :
    (w.ungated c).phaseOf d = if c = d then (w.phaseOf d).past else w.phaseOf d := by
  simp only [ungated_eq, phaseOf_guise, Option.some.injEq]

/-- Where the call itself has come to, up to its admission, does not show. -/
theorem ungated_setPhase (w : System) (c : CallId) {p : Phase} (place : (w.phaseOf c).past = p.past) :
    (w.setPhase c p).ungated c = w.ungated c := by
  simp only [setPhase, ungated, Table.update, List.modify_modify_eq, mk.injEq, Table.mk.injEq, true_and,
    and_true]
  refine List.ext_getElem? fun j => ?_
  simp only [List.getElem?_modify]
  by_cases same : c = j
  · subst same
    simp only [phaseOf, Table.get?] at place
    cases hx : w.calls.entries[c]? <;> simp_all [Call.ungated]
  · simp [same]

/-- Short of its admission, a call made through the gate takes the steps of one made without. -/
theorem step_ungated {m : Move} {c : CallId} (there : c < w.calls.size)
    (still : ∀ current rest n, w.phaseOf c ≠ .sweeping current rest n)
    (later : m = .turn (.call c) → ∀ ctx a, w.phaseOf c ≠ .admission ctx a) :
    (w.ungated c).step m = (w.step m).ungated c := by
  rw [ungated_eq, ungated_eq]
  refine step_guise ?_ ?_ ?_ <;> rintro d ⟨⟩
  · exact there
  · exact still
  · exact later

/-- A step over an older log does what it does without it. -/
theorem step_atop (w : System) (j : List Entry) (m : Move) : (w.atop j).step m = (w.step m).atop j :=
  step_guise (g := none) (by simp) (by simp) (by simp)

/-- What a step does to the system without its log is what it does to the system. -/
theorem bare_step (w : System) (m : Move) : (w.step m).bare = (w.bare.step m).bare := by
  have same := step_atop w.bare w.journal m
  change w.step m = _ at same
  rw [same]
  rfl

end System

end TunerBroker
