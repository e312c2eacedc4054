import TunerBroker.Proofs.Consumers.Attachment
import TunerBroker.Proofs.Steps.Course
import TunerBroker.Proofs.Opens.SingleFlight
import TunerBroker.System.Settle

/-! Waiting for another call's open. As long as a call waits, the open it waits for is in flight under its
key, or has been announced one way or the other, or its opener was abandoned; in the last two cases the
wait is over. -/

namespace TunerBroker

/-- A call that has announced the error `e` ends with it, unless it is abandoned. -/
inductive Phase.Bears (e : StreamError) : Phase → Prop where
  | failed : Bears e (.finished (.failed e))
  | rejecting (s : StreamId) (stage : Option CloseStage) : Bears e (.rejecting s stage e)
  | abandoned : Bears e .abandoned

deriving instance DecidableEq for Announcement

/-- Where an announcement sends a call that has waited for it with the wish `a`. -/
def Announcement.sends (a : Acquisition) : Announcement → Phase
  | failed e => .finished (.failed e)
  | opened => .seeking a

namespace System

/-- What calls have announced is how they came out, and the calls that wait are told. -/
structure Informed (w : System) : Prop where
  opened : ∀ c, w.announcedBy c = some .opened → ∃ i, w.phaseOf c = .finished (.attached i)
  failed : ∀ c e, w.announcedBy c = some (.failed e) → (w.phaseOf c).Bears e
  tended : ∀ c a o, w.phaseOf c = .waiting a o → o < w.calls.size ∧
    (w.Opens o (w.brokerOf c) a.key ∨ w.announcedBy o ≠ none ∨ w.phaseOf o = .abandoned)

variable {m : Move} {w w' : System} {c d o : CallId} {a : Acquisition} {b : BrokerId}
  {k : SourceKey} {p : Phase} {ticks : List Tick} {x : Option Announcement} {e : StreamError}

/-! ### One move of a call -/

/-- Only an open is announced. -/
theorem Course.announces (h : Course m w c p ticks x) (hx : x ≠ none) :
    (w.phaseOf c).isOpening := by
  cases h with
  | fail place | reject place | give place => rw [place]; rfl
  | _ => exact absurd rfl hx

theorem Course.bears (h : Course m w c p ticks x) (hb : (w.phaseOf c).Bears e) : p.Bears e := by
  generalize hq : w.phaseOf c = q at hb
  cases hb with
  | failed | abandoned =>
    rw [(h.past (by rw [hq]; rfl)).1, hq]
    constructor
  | rejecting s stage =>
    cases h with
    | stay => rw [hq]; exact .rejecting s stage
    | abandon => exact .abandoned
    | rejecting place =>
      rw [hq] at place
      cases place
      exact .rejecting _ _
    | rejected place =>
      rw [hq] at place
      cases place
      exact .failed
    | lone borrows => simp [hq, Phase.borrows] at borrows
    | _ => simp_all

/-- An open goes on for its key, or is announced, or is abandoned. -/
theorem Course.opening (h : Course m w c p ticks x) (ha : (w.phaseOf c).opens? = some a) :
    p.opens? = some a ∨ x ≠ none ∨ p = .abandoned := by
  cases h with
  | stay => exact .inl ha
  | abandon => exact .inr (.inr rfl)
  | onward place =>
    rw [place] at ha
    exact .inl ha
  | fail | reject | give => exact .inr (.inl (by simp))
  | lone borrows =>
    rw [(Phase.borrower borrows).1] at ha
    cases ha
  | _ => simp_all [Phase.opens?]

theorem lt_of_announced {y : Announcement} (hy : w.announcedBy c = some y) : c < w.calls.size := by
  by_contra hn
  rw [announcedBy, (Table.get?_eq_none_iff _ _).2 (Nat.le_of_not_lt hn)] at hy
  cases hy

namespace Informed

/-! ### What has been announced -/

/-- An open in flight has not been announced. -/
theorem silent (h : w.Informed) (ho : (w.phaseOf c).isOpening) : w.announcedBy c = none := by
  cases hx : w.announcedBy c with
  | none => rfl
  | some y =>
    cases y with
    | opened =>
      obtain ⟨i, hi⟩ := h.opened c hx
      rw [hi] at ho
      cases ho
    | failed e =>
      have hb := h.failed c e hx
      generalize w.phaseOf c = q at hb ho
      cases hb <;> cases ho

/-- What a call has announced stands. -/
theorem announced_step (h : w.Informed) (m : Move) {y : Announcement}
    (hy : w.announcedBy c = some y) : (w.step m).announcedBy c = some y := by
  by_cases actor : m.actor = some c
  · obtain ⟨p, ticks, x, course, adv⟩ := step_fares (w := w) actor
    rw [adv.announced, if_pos rfl]
    cases x with
    | none => exact hy
    | some z =>
      rw [h.silent (course.announces (Option.some_ne_none z))] at hy
      cases hy
  · exact (step_other (lt_of_announced hy) actor).2.trans hy

/-! ### Every step -/

theorem hushed (h : w.Informed) (g : Hushed w w') : w'.Informed where
  opened c hc := by
    rw [g.announced] at hc
    rw [g.phaseOf]
    exact h.opened c hc
  failed c e hc := by
    rw [g.announced] at hc
    rw [g.phaseOf]
    exact h.failed c e hc
  tended c a o hp := by
    rw [g.phaseOf] at hp
    rw [g.calls, g.announced, g.phaseOf, g.brokerOf,
      Flight.opens_congr (w := w) (g.brokerOf o) (by rw [g.phaseOf])]
    exact h.tended c a o hp

theorem begin (h : w.Informed) (b : BrokerId) (gated : Bool) (errand : Errand) :
    (w.begin b gated errand).Informed := by
  refine ⟨fun c hc => ?_, fun c e hc => ?_, fun c a o hp => ?_⟩
  · rw [announcedBy_begin] at hc
    rw [phaseOf_begin, if_neg (Nat.ne_of_lt (lt_of_announced hc))]
    exact h.opened c hc
  · rw [announcedBy_begin] at hc
    rw [phaseOf_begin, if_neg (Nat.ne_of_lt (lt_of_announced hc))]
    exact h.failed c e hc
  · have hc : c ≠ w.calls.size := by
      rintro rfl
      rw [phaseOf_begin, if_pos rfl] at hp
      cases errand <;> cases hp
    rw [phaseOf_begin, if_neg hc] at hp
    obtain ⟨ho, told⟩ := h.tended c a o hp
    have hne := Nat.ne_of_lt ho
    rw [brokerOf_begin, if_neg hc, announcedBy_begin, phaseOf_begin, if_neg hne, calls_begin,
      calls_size_addCall, Flight.opens_congr (w := w) (by rw [brokerOf_begin, if_neg hne])
        (by rw [phaseOf_begin, if_neg hne])]
    exact ⟨Nat.lt_succ_of_lt ho, told⟩

/-- A call that goes to wait joins an open in flight for its key. -/
theorem joins (g : w.Flight) (course : Course m w c (.waiting a o) ticks x)
    (hp : w.phaseOf c ≠ .waiting a o) :
    w.phaseOf c = .seeking a ∧ w.Opens o (w.brokerOf c) a.key := by
  generalize hq : Phase.waiting a o = q at course hp
  cases course with
  | stay => exact absurd rfl hp
  | join place taken =>
    cases hq
    rw [g.opening_filter] at taken
    exact ⟨place, (g.marks _ _ _).1 taken⟩
  | lone borrows next =>
    subst hq
    rcases next with hn | ⟨hn, -⟩ <;> cases hn
  | _ => cases hq

/-- A call that has announced that it gave a stream has ended so. -/
theorem advance_opened (h : w.Informed) (course : Course m w c p ticks x)
    (adv : Advance c p ticks x w w') (hd : w'.announcedBy d = some .opened) :
    ∃ i, w'.phaseOf d = .finished (.attached i) := by
  rw [adv.announced] at hd
  rw [adv.phaseOf]
  split at hd
  · rename_i hdc
    subst hdc
    rw [if_pos rfl]
    cases x with
    | none =>
      obtain ⟨i, hi⟩ := h.opened d hd
      exact ⟨i, by rw [(course.past (by rw [hi]; rfl)).1, hi]⟩
    | some y =>
      cases hd
      cases course with
      | give place => exact ⟨_, rfl⟩
  · rename_i hdc
    rw [if_neg hdc]
    exact h.opened d hd

/-- A call that has announced an error ends with it. -/
theorem advance_failed (h : w.Informed) (course : Course m w c p ticks x)
    (adv : Advance c p ticks x w w') (hd : w'.announcedBy d = some (.failed e)) :
    (w'.phaseOf d).Bears e := by
  rw [adv.announced] at hd
  rw [adv.phaseOf]
  split at hd
  · rename_i hdc
    subst hdc
    rw [if_pos rfl]
    cases x with
    | none => exact course.bears (h.failed d e hd)
    | some y =>
      cases hd
      cases course with
      | fail place => exact .failed
      | reject place unfit => exact .rejecting _ _
  · rename_i hdc
    rw [if_neg hdc]
    exact h.failed d e hd

/-- An open that is waited for goes on, or is announced, or its call is abandoned. -/
theorem advance_tended (course : Course m w c p ticks x) (adv : Advance c p ticks x w w')
    (hd : w.Opens o b k ∨ w.announcedBy o ≠ none ∨ w.phaseOf o = .abandoned) :
    w'.Opens o b k ∨ w'.announcedBy o ≠ none ∨ w'.phaseOf o = .abandoned := by
  by_cases hoc : o = c
  · subst hoc
    have phase : w'.phaseOf o = p := by rw [adv.phaseOf, if_pos rfl]
    have announced : w'.announcedBy o = x.or (w.announcedBy o) := by rw [adv.announced, if_pos rfl]
    rcases hd with ⟨hb, a', ha', hk⟩ | told | gone
    · rcases course.opening ha' with hn | hn | hn
      · exact .inl ⟨by rw [adv.brokerOf, hb], a', by rw [phase, hn], hk⟩
      · exact .inr (.inl (by rw [announced]; cases x <;> simp_all))
      · exact .inr (.inr (phase.trans hn))
    · exact .inr (.inl (by rw [announced]; cases x <;> simp_all))
    · exact .inr (.inr (by rw [phase, (course.past (by rw [gone]; rfl)).1, gone]))
  · rw [Flight.opens_congr (adv.brokerOf o) (by rw [adv.phaseOf, if_neg hoc]), adv.announced,
      if_neg hoc, adv.phaseOf, if_neg hoc]
    exact hd

theorem advance (h : w.Informed) (g : w.Flight) (course : Course m w c p ticks x)
    (adv : Advance c p ticks x w w') : w'.Informed := by
  refine ⟨fun d => h.advance_opened course adv, fun d e => h.advance_failed course adv,
    fun d a o hp => ?_⟩
  rw [adv.calls, adv.brokerOf]
  by_cases waits : w.phaseOf d = .waiting a o
  · obtain ⟨ho, hd⟩ := h.tended d a o waits
    exact ⟨ho, advance_tended course adv hd⟩
  · have hdc : d = c := by
      by_contra hdc
      rw [adv.phaseOf, if_neg hdc] at hp
      exact waits hp
    subst hdc
    rw [adv.phaseOf, if_pos rfl] at hp
    subst hp
    have opens := (joins g course waits).2
    exact ⟨opens.lt, advance_tended course adv (.inl opens)⟩

theorem step (h : w.Informed) (g : w.Flight) (m : Move) : (w.step m).Informed := by
  rcases w.step_course m with ⟨c, -, p, ticks, x, course, adv⟩ | ⟨b, gated, errand, -, -, he⟩ |
    ⟨-, hushed⟩
  · exact h.advance g course adv
  · rw [he]
    exact h.begin b gated errand
  · exact h.hushed hushed

/-! ### Every run -/

theorem run (h : w.Informed) (g : w.Sound) (moves : List Move) : (w.run moves).Informed := by
  induction moves generalizing w with
  | nil => exact h
  | cons m moves ih => exact ih (h.step g.flight m) (g.step m)

theorem announced_run (h : w.Informed) (g : w.Sound) (moves : List Move) {y : Announcement}
    (hy : w.announcedBy c = some y) : (w.run moves).announcedBy c = some y := by
  induction moves generalizing w with
  | nil => exact hy
  | cons m moves ih => exact ih (h.step g.flight m) (g.step m) (h.announced_step m hy)

end Informed

theorem informed_fresh (configs : List BrokerConfig) (desk : AccessDesk)
    (terms : List TunerTerms) : (fresh configs desk terms).Informed := by
  refine ⟨fun c hc => ?_, fun c e hc => ?_, fun c a o hp => ?_⟩
  · cases hc
  · cases hc
  · cases hp

/-! ### The end of a wait -/

/-- A wait is over once the open has been announced or its opener is in flight no more. -/
theorem openOver_iff : w.openOver o ↔ w.announcedBy o ≠ none ∨ (w.phaseOf o).isOpening = false := by
  simp only [openOver, announcedBy, phaseOf]
  cases w.calls.get? o with
  | none => simp [Phase.isOpening]
  | some call => cases hx : call.announced <;> simp [hx]

theorem mem_awake : .call c ∈ w.awake ↔ w.ready (.call c) := by
  have there : ∀ x, (x, c) ∈ w.calls.indexed ↔ w.calls.get? c = some x := by
    intro x
    rw [Table.indexed, Table.get?, List.mem_zipIdx_iff_getElem?]
  simp only [awake, List.mem_append, List.mem_filterMap, Option.ite_none_right_eq_some,
    Option.some.injEq, Runner.call.injEq, reduceCtorEq, and_false, exists_false, or_false,
    Prod.exists, ready, phaseOf]
  constructor
  · rintro ⟨x, d, hx, hr, rfl⟩
    rw [(there x).1 hx]
    exact hr
  · intro hr
    cases hx : w.calls.get? c with
    | none => simp [hx, phaseReady] at hr
    | some x => exact ⟨x, c, (there x).2 hx, by simpa [hx] using hr, rfl⟩

/-- In a settled state no call can go on. -/
theorem not_ready_of_settled (h : w.isSettled) (c : CallId) : w.ready (.call c) = false := by
  apply Bool.eq_false_of_not_eq_true
  intro hr
  rw [isSettled, List.isEmpty_iff] at h
  have hm := mem_awake.2 hr
  rw [h] at hm
  cases hm

/-- A call whose wait is over can go on. -/
theorem ready_of_over (hp : w.phaseOf c = .waiting a o) (past : w.openOver o) :
    w.ready (.call c) := by
  simp [ready, hp, phaseReady, past]

theorem step_seeking (hp : w.phaseOf c = .seeking a) :
    w.step (.turn (.call c)) = w.seek c a := by
  simp [step, turn, ready, phaseReady, turnCall, hp]

theorem step_waiting (hp : w.phaseOf c = .waiting a o) (past : w.openOver o) :
    w.step (.turn (.call c)) = w.endWait c a o := by
  simp only [step, turn, ready_of_over hp past, if_true, hp, turnCall]

/-- With its turn a call leaves a wait that is over. -/
theorem leaves_wait (hp : w.phaseOf c = .waiting a o) (past : w.openOver o) (a' : Acquisition)
    (o' : CallId) : (w.step (.turn (.call c))).phaseOf c ≠ .waiting a' o' := by
  have hc : c < w.calls.size := w.lt_of_phaseOf c (by simp [hp])
  rw [step_waiting hp past]
  simp only [endWait]
  split
  · simp [phaseOf_setPhase, hc]
  · split <;> simp [phaseOf_setPhase, hc]

/-- What has been announced decides where a wait leads, unless the token has fired. -/
theorem step_waiting_told (hp : w.phaseOf c = .waiting a o) {y : Announcement}
    (told : w.announcedBy o = some y) (unfired : w.hasFired a.cancel = false) :
    (w.step (.turn (.call c))).phaseOf c = y.sends a := by
  have hc : c < w.calls.size := w.lt_of_phaseOf c (by simp [hp])
  have past : w.openOver o := openOver_iff.2 (.inl (by simp [told]))
  rw [announcedBy] at told
  rw [step_waiting hp past, endWait, unfired, told]
  cases y <;> simp [Announcement.sends, phaseOf_setPhase, hc]

/-- A call that waits finds the open it waits for in flight, with its mark in the slot and not
announced yet; or it can go on, and does not wait once it has. -/
inductive Attended (w : System) (c : CallId) (a : Acquisition) (o : CallId) : Prop where
  | inFlight (opens : w.Opens o (w.brokerOf c) a.key)
      (mark : (w.slot (w.brokerOf c) a.key).opening = some o) (silent : w.announcedBy o = none)
  | past (told : w.announcedBy o ≠ none ∨ w.phaseOf o = .abandoned)
      (ready : w.ready (.call c))
      (leaves : ∀ a' o', (w.step (.turn (.call c))).phaseOf c ≠ .waiting a' o')

theorem Informed.attended (h : w.Informed) (g : w.Flight) (hp : w.phaseOf c = .waiting a o) :
    w.Attended c a o := by
  obtain ⟨-, opens | told⟩ := h.tended c a o hp
  · refine .inFlight opens ((g.marks _ _ _).2 opens) (h.silent ?_)
    obtain ⟨-, a', ha', -⟩ := opens
    rw [← Phase.opens?_isSome, ha']
    rfl
  · have past : w.openOver o := by
      rw [openOver_iff]
      refine told.imp id fun hn => ?_
      rw [hn]
      rfl
    exact .past told (ready_of_over hp past) (leaves_wait hp past)

/-- In every run, at every moment, a call that waits for an open is attended to: either that open is in
flight for the key, its mark is the one in the slot and it has not been announced, or it has been
announced or its opener was abandoned, and then the call can go on and does. So in a settled state
calls wait only with an open in flight for their key. A wait that is over without an announcement is
over because the opener was abandoned. What is announced stays announced: whenever a call resumes that
has waited for it, it goes where that sends it. -/
theorem no_stranded_waiter (configs : List BrokerConfig) (desk : AccessDesk)
    (terms : List TunerTerms) (moves : List Move) :
    let w := (fresh configs desk terms).run moves
    (∀ c a o, w.phaseOf c = .waiting a o → w.Attended c a o) ∧
    (w.isSettled → ∀ c a o, w.phaseOf c = .waiting a o →
      w.Opens o (w.brokerOf c) a.key ∧ (w.slot (w.brokerOf c) a.key).opening = some o) ∧
    (∀ c a o, w.phaseOf c = .waiting a o → w.openOver o → w.announcedBy o = none →
      w.phaseOf o = .abandoned) ∧
    ∀ o y later, w.announcedBy o = some y →
      (w.run later).announcedBy o = some y ∧ ∀ c a, (w.run later).phaseOf c = .waiting a o →
        (w.run later).hasFired a.cancel = false → (w.run later).ready (.call c) ∧
          ((w.run later).step (.turn (.call c))).phaseOf c = y.sends a := by
  intro w
  have g : w.Sound := (sound_fresh configs desk terms).run moves
  have h : w.Informed := (informed_fresh configs desk terms).run (sound_fresh configs desk terms) moves
  refine ⟨fun c a o hp => h.attended g.flight hp, ?_, ?_, ?_⟩
  · intro settled c a o hp
    cases h.attended g.flight hp with
    | inFlight opens mark silent => exact ⟨opens, mark⟩
    | past told ready leaves =>
      rw [not_ready_of_settled settled] at ready
      cases ready
  · intro c a o hp past silent
    obtain ⟨-, ⟨-, a', ha', -⟩ | told | gone⟩ := h.tended c a o hp
    · rw [openOver_iff, silent, ← Phase.opens?_isSome, ha'] at past
      simp at past
    · exact absurd silent told
    · exact gone
  · intro o y later hy
    have hy' := h.announced_run g later hy
    refine ⟨hy', fun c a hp unfired => ⟨ready_of_over hp ?_, step_waiting_told hp hy' unfired⟩⟩
    rw [openOver_iff, hy']
    exact .inl (Option.some_ne_none y)

/-- Two calls come for the sample source; one opens and the other waits. -/
def oneWaits : List Move :=
  [.start 0 false sampleErrand, .turn (.call 0), .start 0 false sampleErrand, .turn (.call 1)]

/-- The same, and then the tuner refuses the connection. -/
def refusedWhileOneWaits : List Move := oneWaits ++ [.turn (.call 0), .turn (.call 0)]

/-- One broker, whose tuner refuses its first connection. -/
def refusing : System := fresh [{}] {} [{ failure := some "refused" }]

theorem no_stranded_waiter_refusedWhileOneWaits :
    (refusing.run oneWaits).Attended 1 (.ofRequest sampleRequest none {}) 0 ∧
    (refusing.run refusedWhileOneWaits).announcedBy 0 =
      some (.failed (.connect sampleRequest.key "refused")) ∧
    (((refusing.run refusedWhileOneWaits).run [.elapse 1]).step (.turn (.call 1))).phaseOf 1 =
      .finished (.failed (.connect sampleRequest.key "refused")) := by
  obtain ⟨waits, -⟩ := no_stranded_waiter [{}] {} [{ failure := some "refused" }] oneWaits
  obtain ⟨-, -, -, told⟩ :=
    no_stranded_waiter [{}] {} [{ failure := some "refused" }] refusedWhileOneWaits
  have announced : (refusing.run refusedWhileOneWaits).announcedBy 0 =
      some (.failed (.connect sampleRequest.key "refused")) := by decide
  obtain ⟨-, resumes⟩ := told 0 _ [.elapse 1] announced
  exact ⟨waits 1 _ 0 rfl, announced, (resumes 1 (.ofRequest sampleRequest none {}) rfl rfl).2⟩

end System

end TunerBroker
