import TunerBroker.Proofs.Opens.Seeking
import TunerBroker.Proofs.Consumers.Tenure

/-! Calls that wait for one open share its outcome. An error is returned to all of them, at no cost of
their own; after any other end they look at the slot like calls that come just then. -/

namespace TunerBroker

namespace System

variable {m : Move} {w w₁ w' : System} {a : Acquisition} {b : BrokerId} {k : SourceKey}
  {c o first : CallId} {e : StreamError} {wish : CallId → Acquisition} {cs : List CallId}
  {s : StreamId} {x : Option Announcement} {p : Phase} {ticks : List Tick}

/-! ### The end of an open -/

/-- How the open of `o` for the key comes to an end between `w` and `w'`, and what it announces. -/
inductive EndsOpen (w w' : System) (o : CallId) (b : BrokerId) (k : SourceKey) :
    Option Announcement → Prop where
  /-- It returns an error, which is counted once. -/
  | failed {e : StreamError} (ends : w'.phaseOf o = .finished (.failed e))
      (counts : ∀ b', w'.countersOf b' =
        if b' = b then (w.countersOf b').record .openFailed else w.countersOf b') :
      EndsOpen w w' o b k (some (.failed e))
  /-- It gives a stream of another key or one that is not connected, and is to return a violation. -/
  | rejected {s : StreamId} {st : StreamState} {k' : SourceKey}
      (unfit : k' ≠ k ∨ st ≠ .live ∧ st ≠ .ended)
      (ends : w'.phaseOf o = .rejecting s none (.violation k (.unfit st k')))
      (counts : ∀ b', w'.countersOf b' = w.countersOf b') :
      EndsOpen w w' o b k (some (.failed (.violation k (.unfit st k'))))
  /-- It gives a stream that is listed, and its call a consumer of that stream. -/
  | gave {i : ConsumerId} {x : Consumer} (ends : w'.phaseOf o = .finished (.attached i))
      (there : w'.consumers.get? i = some x) (listed : x.stream ∈ w'.listedAt b k)
      (counts : ∀ b', w'.countersOf b' =
        if b' = b then (w.countersOf b').record .opened else w.countersOf b') :
      EndsOpen w w' o b k (some .opened)
  /-- Its call is dropped. -/
  | dropped (ends : w'.phaseOf o = .abandoned) (counts : ∀ b', w'.countersOf b' = w.countersOf b') :
      EndsOpen w w' o b k none

/-- Only its own call ends an open. -/
theorem actor_of_ends (opens : w.Opens o b k) (ends : ¬ (w.step m).Opens o b k) :
    m.actor = some o := by
  have lt := opens.lt
  obtain ⟨broker, a, ha, key⟩ := opens
  by_contra hm
  apply ends
  rw [Opens, (step_keeps lt m).2, (step_other lt hm).1]
  exact ⟨broker, a, ha, key⟩

theorem Sound.endsOpen (g : w.Sound) (h : w.Informed) (opens : w.Opens o b k)
    (ends : ¬ (w.step m).Opens o b k) :
    w.EndsOpen (w.step m) o b k ((w.step m).announcedBy o) := by
  have actor := actor_of_ends opens ends
  obtain ⟨rfl, a, ha, rfl⟩ := opens
  have opening : (w.phaseOf o).isOpening := by
    rw [← Phase.opens?_isSome, ha]
    rfl
  have seated : w.brokerOf o < w.brokers.size := g.flight.seated o (by
    cases hp : w.phaseOf o <;> simp_all [Phase.opens?, Phase.isSeated])
  obtain ⟨p, ticks, x, course, adv⟩ := step_fares (w := w) actor
  have phase : (w.step m).phaseOf o = p := by rw [adv.phaseOf, if_pos rfl]
  have told : (w.step m).announcedBy o = x := by
    rw [adv.announced, if_pos rfl, h.silent opening, Option.or_none]
  have moved : p.opens? ≠ some a := fun same =>
    ends ⟨adv.brokerOf o, a, by rw [phase, same], rfl⟩
  have counts := adv.counted seated
  have uncounted : ticks = [] → ∀ b', (w.step m).countersOf b' = w.countersOf b' := by
    rintro rfl b'
    exact (counts b').trans (ite_self _)
  rw [told]
  cases course with
  | stay => exact absurd ha moved
  | onward place =>
    rw [place] at ha
    exact absurd ha moved
  | fail place => exact .failed phase counts
  | reject place unfit =>
    rw [place] at ha
    cases ha
    exact .rejected unfit phase (uncounted rfl)
  | give place =>
    have wish : (w.phaseOf o).wish? = some a := by
      rw [place] at ha ⊢
      exact ha
    obtain ⟨x, there, attached⟩ := g.given m wish (by rw [phase]; rfl)
    rw [adv.brokerOf] at attached
    exact .gave phase there attached.listed counts
  | abandon => exact .dropped phase (uncounted rfl)
  | lone borrows =>
    rw [(Phase.borrower borrows).1] at ha
    cases ha
  | _ => simp_all [Phase.opens?]

/-! ### Moves of a call that waits -/

theorem step_waiter (hp : w.phaseOf c = .waiting a o) (actor : m.actor = some c) :
    w.step m = w ∨ w.step m = w.endWait c a o ∨
      m = .abandon c ∧ w.step m = w.setPhase c .abandoned := by
  unfold Move.actor at actor
  split at actor
  · cases actor
    by_cases ready : w.ready (.call c)
    · refine .inr (.inl ?_)
      simp only [step, turn, ready, if_true, hp, turnCall]
    · refine .inl ?_
      simp only [step, turn, ready, if_false, Bool.false_eq_true]
  · cases actor
    refine .inr (.inr ⟨rfl, ?_⟩)
    simp [step, abandon, hp, Phase.isSuspended]
  · cases actor
    refine .inl ?_
    simp only [step, provide, hp]
  · cases actor

theorem step_gone (past : (w.phaseOf c).isOver) (actor : m.actor = some c) : w.step m = w := by
  unfold Move.actor at actor
  split at actor
  · cases actor
    cases hp : w.phaseOf c <;> simp_all [step, turn, ready, phaseReady, Phase.isOver]
  · cases actor
    cases hp : w.phaseOf c <;> simp_all [step, abandon, Phase.isSuspended, Phase.isOver]
  · cases actor
    cases hp : w.phaseOf c <;> simp_all [step, provide, Phase.isOver]
  · cases actor

theorem onlyCalls_endWait (w : System) (c : CallId) (a : Acquisition) (o : CallId) :
    OnlyCalls w (w.endWait c a o) := by
  unfold endWait
  split
  · exact .setPhase w c _
  · split <;> exact ⟨rfl, rfl, rfl, rfl⟩

/-! ### An open that has failed -/

/-- What a call has come to, with some moves, that waits for the open of `o` when that has failed with
`e`. -/
inductive Inherits (w : System) (moves : List Move) (c : CallId) (a : Acquisition) (o : CallId)
    (e : StreamError) : Prop where
  /-- It can go on, and returns the error with its turn unless its token has fired. -/
  | waits (place : w.phaseOf c = .waiting a o) (ready : w.ready (.call c))
      (returns : w.hasFired a.cancel = false → w.step (.turn (.call c)) =
        (w.note (some c) (.joinedOpenFailed a.key e)).finish c (.failed e))
  | returned (place : w.phaseOf c = .finished (.failed e))
  | cancelled (place : w.phaseOf c = .finished (.failed (.cancelled a.key)))
      (fired : w.hasFired a.cancel)
  | dropped (place : w.phaseOf c = .abandoned) (move : .abandon c ∈ moves)

/-- The end of a wait for an open that has failed. -/
theorem endWait_of_failed (told : w.announcedBy o = some (.failed e)) : w.endWait c a o =
    if w.hasFired a.cancel then w.finish c (.failed (.cancelled a.key))
    else (w.note (some c) (.joinedOpenFailed a.key e)).finish c (.failed e) := by
  rw [announcedBy] at told
  rw [endWait, told]

/-- With its turn a call returns the error of the open that it has waited for. -/
theorem step_inherit (told : w.announcedBy o = some (.failed e)) (hp : w.phaseOf c = .waiting a o)
    (unfired : w.hasFired a.cancel = false) : w.step (.turn (.call c)) =
      (w.note (some c) (.joinedOpenFailed a.key e)).finish c (.failed e) := by
  have past : w.openOver o := openOver_iff.2 (.inl (by simp [told]))
  rw [step_waiting hp past, endWait_of_failed told, unfired]
  rfl

namespace Inherits

theorem of_told (told : w.announcedBy o = some (.failed e)) (hp : w.phaseOf c = .waiting a o)
    (moves : List Move) : w.Inherits moves c a o e :=
  .waits hp (ready_of_over hp (openOver_iff.2 (.inl (by simp [told])))) (step_inherit told hp)

theorem step {moves : List Move} (h : w.Inherits moves c a o e) (lt : c < w.calls.size)
    (i : w.Informed) (told : w.announcedBy o = some (.failed e)) (m : Move) :
    (w.step m).Inherits (moves ++ [m]) c a o e := by
  have stays : (w.phaseOf c).isOver → (w.step m).phaseOf c = w.phaseOf c := fun past =>
    step_over m past lt
  have ended : ∀ (v : System) p, v.calls.size = w.calls.size → (v.setPhase c p).phaseOf c = p := by
    intro v p same
    rw [phaseOf_setPhase, if_pos ⟨rfl, same ▸ lt⟩]
  cases h with
  | waits place =>
    by_cases actor : m.actor = some c
    · rcases step_waiter place actor with he | he | ⟨rfl, he⟩
      · rw [he]
        exact of_told told place _
      · rw [he, endWait_of_failed told]
        split
        · rename_i fired
          exact .cancelled (ended w _ rfl) fired
        · exact .returned (ended (w.note _ _) _ rfl)
      · rw [he]
        exact .dropped (ended w _ rfl) (List.mem_append_right _ (List.mem_singleton_self _))
    · exact of_told (i.announced_step m told) ((step_other lt actor).1.trans place) _
  | returned place => exact .returned ((stays (by rw [place]; rfl)).trans place)
  | cancelled place fired =>
    refine .cancelled ((stays (by rw [place]; rfl)).trans place) ?_
    cases hf : (w.step m).hasFired a.cancel with
    | true => rfl
    | false =>
      rw [hasFired_run [m] hf] at fired
      cases fired
  | dropped place move =>
    exact .dropped ((stays (by rw [place]; rfl)).trans place) (List.mem_append_left _ move)

theorem run (hp : w.phaseOf c = .waiting a o) (i : w.Informed) (g : w.Sound)
    (told : w.announcedBy o = some (.failed e)) (moves : List Move) :
    (w.run moves).Inherits moves c a o e := by
  have lt : c < w.calls.size := w.lt_of_phaseOf c (by simp [hp])
  induction moves using List.reverseRecOn with
  | nil => exact of_told told hp []
  | append_singleton moves m ih =>
    rw [run_concat]
    exact ih.step (run_keeps lt moves).1 (i.run g moves) (i.announced_run g moves told) m

/-- The moves of such a call ask nothing of any stream. -/
theorem onlyCalls {moves : List Move} (h : w.Inherits moves c a o e) (actor : m.actor = some c) :
    OnlyCalls w (w.step m) := by
  cases h with
  | waits place =>
    rcases step_waiter place actor with he | he | ⟨-, he⟩ <;> rw [he]
    · exact .refl w
    · exact onlyCalls_endWait w c a o
    · exact .setPhase w c _
  | returned place | cancelled place | dropped place =>
    rw [step_gone (by rw [place]; rfl) actor]
    exact .refl w

end Inherits

/-- A call that has announced an error counts nothing any more. -/
theorem Course.uncounted (h : Course m w c p ticks x) (hb : (w.phaseOf c).Bears e) : ticks = [] := by
  generalize hq : w.phaseOf c = q at hb
  cases hb with
  | failed | abandoned => exact (h.past (by rw [hq]; rfl)).2.1
  | rejecting s stage =>
    cases h with
    | stay | abandon | rejecting | rejected | lone => rfl
    | _ => simp_all

theorem countersOf_step_of_bears (hb : (w.phaseOf c).Bears e) (actor : m.actor = some c)
    (b : BrokerId) : (w.step m).countersOf b = w.countersOf b := by
  obtain ⟨p, ticks, x, course, adv⟩ := step_fares (w := w) actor
  rw [adv.counters, course.uncounted hb]
  exact ite_self _

/-- From `w` to `w'` the calls return the error, and nothing else happens. -/
structure Fails (w w' : System) (cs : List CallId) (e : StreamError) : Prop
    extends OnlyCalls w w' where
  fails : ∀ c ∈ cs, w'.phaseOf c = .finished (.failed e)

/-- Calls that wait for an open that has failed return its error one after another. -/
theorem fails_together (g : w.Sound) (i : w.Informed) (told : w.announcedBy o = some (.failed e))
    (nodup : cs.Nodup)
    (waits : ∀ c ∈ cs, w.phaseOf c = .waiting (wish c) o ∧ w.hasFired (wish c).cancel = false) :
    w.Fails (w.run (cs.map fun c => .turn (.call c))) cs e := by
  induction cs generalizing w with
  | nil => exact ⟨.refl w, by simp⟩
  | cons c cs ih =>
    obtain ⟨new, nodup⟩ := List.nodup_cons.1 nodup
    obtain ⟨place, unfired⟩ := waits c List.mem_cons_self
    have lt : c < w.calls.size := w.lt_of_phaseOf c (by simp [place])
    have back := step_inherit told place unfired
    have returned : (w.step (.turn (.call c))).phaseOf c = .finished (.failed e) := by
      rw [back, finish_eq, phaseOf_setPhase, if_pos ⟨rfl, lt⟩]
    have rest := ih (g.step _) (i.step g.flight _) (i.announced_step (.turn (.call c)) told) nodup
      fun d hd => by
        obtain ⟨place', unfired'⟩ := waits d (List.mem_cons_of_mem _ hd)
        have other : (Move.turn (.call c)).actor ≠ some d := by
          rintro ⟨⟩
          exact new hd
        have lt' : d < w.calls.size := w.lt_of_phaseOf d (by simp [place'])
        refine ⟨(step_other lt' other).1.trans place', ?_⟩
        rw [back]
        exact unfired'
    refine ⟨.trans (by rw [back]; exact ⟨rfl, rfl, rfl, rfl⟩) rest.toOnlyCalls, fun d hd => ?_⟩
    rcases List.mem_cons.1 hd with rfl | hd
    · rw [List.map_cons]
      exact (run_over _ (by rw [returned]; rfl) (step_keeps lt _).1).trans returned
    · exact rest.fails d hd

/-! ### An open that has not failed -/

/-- The calls go back to the slot in this order, each as soon as it has left its wait. -/
def resume (cs : List CallId) : List Move :=
  cs.flatMap fun c => [.turn (.call c), .turn (.call c)]

/-- The calls have waited for the open of `o` under the key, and can go back to the slot. -/
structure Roused (w : System) (o : CallId) (b : BrokerId) (k : SourceKey)
    (wish : CallId → Acquisition) (cs : List CallId) : Prop where
  past : w.openOver o
  unfailed : ∀ e, w.announcedBy o ≠ some (.failed e)
  opener : o < w.calls.size
  apart : o ∉ cs
  nodup : cs.Nodup
  waits : ∀ c ∈ cs, w.phaseOf c = .waiting (wish c) o
  unfired : ∀ c ∈ cs, w.hasFired (wish c).cancel = false
  place : ∀ c ∈ cs, w.brokerOf c = b ∧ (wish c).key = k

/-- A call that has waited for an open that did not fail goes where a new call starts. -/
theorem step_back (hp : w.phaseOf c = .waiting a o) (past : w.openOver o)
    (unfailed : ∀ e, w.announcedBy o ≠ some (.failed e)) (unfired : w.hasFired a.cancel = false) :
    w.step (.turn (.call c)) = w.setPhase c (Errand.acquire a).origin := by
  rw [step_waiting hp past, endWait, unfired]
  have silent : ∀ e, (w.calls.get? o).bind (·.announced) ≠ some (.failed e) := unfailed
  split
  · rename_i fired
    cases fired
  · split
    · exact absurd ‹_› (silent _)
    · rfl

/-- The calls that go back move no others. -/
theorem run_resume_other (hc : c < w.calls.size) (hn : c ∉ cs) :
    (w.run (resume cs)).phaseOf c = w.phaseOf c ∧
      (w.run (resume cs)).announcedBy c = w.announcedBy c := by
  refine run_other hc _ fun m hm => ?_
  obtain ⟨d, hd, hm⟩ := List.mem_flatMap.1 hm
  have turn : m = .turn (.call d) := by simpa using hm
  rw [turn]
  rintro ⟨⟩
  exact hn hd

theorem opens_resume (hc : c < w.calls.size) (hn : c ∉ cs) :
    (w.run (resume cs)).Opens c b k ↔ w.Opens c b k :=
  Flight.opens_congr (run_keeps hc _).2 (by rw [(run_resume_other hc hn).1])

theorem resume_cons (w : System) (c : CallId) (cs : List CallId) :
    w.run (resume (c :: cs)) = (w.run (resume [c])).run (resume cs) :=
  w.run_append (resume [c]) (resume cs)

/-- What a call that has left its wait is served with is there for it before. -/
theorem Served.before (hp : w.phaseOf c = .waiting a o)
    (h : (w.setPhase c (.seeking a)).Served w' b k wish cs first) :
    w.Served w' b k wish cs first := by
  have same : ∀ d b k, (w.setPhase c (.seeking a)).Opens d b k ↔ w.Opens d b k := by
    intro d b k
    refine Flight.opens_congr (w.brokerOf_setPhase c d _) ?_
    rcases w.setPhase_cases c d (.seeking a) with he | ⟨rfl, he⟩
    · rw [he]
    · rw [he, hp]
      rfl
  refine ⟨fun s offered => ?_, fun d opens => ?_, fun idle free => ?_⟩
  · have joins := h.joins s ⟨offered.listed, offered.sharing, offered.live⟩
    exact ⟨joins.gains, joins.stream, joins.counters, joins.slots, joins.connections⟩
  · have queues := h.queues d ((same d b k).2 opens)
    exact ⟨.trans (.setPhase w c _) queues.toOnlyCalls, queues.waits⟩
  · obtain ⟨starts, waits⟩ := h.starts
      (fun s offered => idle s ⟨offered.listed, offered.sharing, offered.live⟩)
      (fun d opens => free d ((same d b k).1 opens))
    exact ⟨⟨starts.opens, starts.mark, starts.listed, starts.counters, starts.connections⟩, waits⟩

namespace Roused

theorem lt (h : w.Roused o b k wish cs) (hc : c ∈ cs) : c < w.calls.size :=
  w.lt_of_phaseOf c (by simp [h.waits c hc])

theorem back (h : w.Roused o b k wish (c :: cs)) :
    w.step (.turn (.call c)) = w.setPhase c (.seeking (wish c)) :=
  have here := List.mem_cons_self
  step_back (h.waits c here) h.past h.unfailed (h.unfired c here)

theorem seeks (h : w.Roused o b k wish (c :: cs)) :
    (w.step (.turn (.call c))).phaseOf c = .seeking (wish c) := by
  rw [h.back, phaseOf_setPhase, if_pos ⟨rfl, h.lt List.mem_cons_self⟩]

theorem tail (h : w.Roused o b k wish (c :: cs)) :
    (w.run (resume [c])).Roused o b k wish cs := by
  obtain ⟨new, nodup⟩ := List.nodup_cons.1 h.nodup
  have apart : o ∉ [c] ∧ o ∉ cs := by simpa using h.apart
  have opener := run_resume_other h.opener apart.1
  have other : ∀ d ∈ cs, d ∉ [c] := by
    intro d hd hc
    rw [List.mem_singleton.1 hc] at hd
    exact new hd
  have fired : (w.run (resume [c])).fired = w.fired := by
    show ((w.step _).step (.turn (.call c))).fired = _
    rw [step_seeking h.seeks, (seek_keeps _ c _).2, h.back]
    rfl
  have mem : ∀ {d}, d ∈ cs → d ∈ c :: cs := List.mem_cons_of_mem c
  refine ⟨?_, ?_, (run_keeps h.opener _).1, apart.2, nodup, fun d hd => ?_, fun d hd => ?_,
    fun d hd => ?_⟩
  · rw [openOver_iff, opener.1, opener.2, ← openOver_iff]
    exact h.past
  · rw [opener.2]
    exact h.unfailed
  · exact (run_resume_other (h.lt (mem hd)) (other d hd)).1.trans (h.waits d (mem hd))
  · rw [show (w.run (resume [c])).hasFired = w.hasFired by unfold hasFired; rw [fired]]
    exact h.unfired d (mem hd)
  · rw [(run_keeps (h.lt (mem hd)) _).2]
    exact h.place d (mem hd)

/-- A call that goes back is served as one that starts just then. -/
theorem served_one (h : w.Roused o b k wish (c :: cs)) (g : w.Sound) (l : w.Ledger)
    (bound : ∀ s, w.attachments s < 2 ^ 32) : w.Served (w.run (resume [c])) b k wish [c] c := by
  have here := List.mem_cons_self (a := c) (l := cs)
  have small : ∀ s, (w.step (.turn (.call c))).attachments s < 2 ^ 32 := by
    rw [h.back]
    exact bound
  have served := served_seeking (g.step _) (l.step g _) small h.seeks
  rw [(step_keeps (h.lt here) _).2, (h.place c here).1, (h.place c here).2] at served
  refine .before (h.waits c here) ?_
  rw [← h.back]
  exact served

theorem small (bound : ∀ s, (w.run (resume cs)).attachments s < 2 ^ 32) (s : StreamId) :
    w.attachments s < 2 ^ 32 :=
  Nat.lt_of_le_of_lt (w.attachments_le_run _ s) (bound s)

theorem joins (h : w.Roused o b k wish cs) (g : w.Sound) (l : w.Ledger)
    (bound : ∀ s, (w.run (resume cs)).attachments s < 2 ^ 32) (offered : w.OnOffer b k s) :
    w.Joins (w.run (resume cs)) b s wish cs := by
  induction cs generalizing w with
  | nil => exact .nil w b s wish
  | cons c cs ih =>
    have one := (h.served_one g l (small bound)).joins s offered
    have gained := one.gains c (List.mem_singleton_self c)
    rw [resume_cons] at bound ⊢
    have l₁ := l.run g (resume [c])
    have g₁ := g.run (resume [c])
    have rest := ih h.tail g₁ l₁ bound (one.onOffer offered)
    refine one.cons rest ?_
    rw [gained]
    exact gains_run l₁ g₁ (resume cs) gained

theorem queues (h : w.Roused o b k wish cs) (g : w.Sound) (l : w.Ledger)
    (bound : ∀ s, (w.run (resume cs)).attachments s < 2 ^ 32) {d : CallId} (opens : w.Opens d b k) :
    w.Queues (w.run (resume cs)) d wish cs := by
  induction cs generalizing w with
  | nil => exact ⟨.refl w, by simp⟩
  | cons c cs ih =>
    obtain ⟨new, -⟩ := List.nodup_cons.1 h.nodup
    have one := (h.served_one g l (small bound)).queues d opens
    have apart : d ∉ [c] := by
      intro hd
      obtain ⟨-, a, ha, -⟩ := opens
      rw [List.mem_singleton.1 hd, h.waits c List.mem_cons_self] at ha
      cases ha
    rw [resume_cons] at bound ⊢
    have rest := ih h.tail (g.run _) (l.run g _) bound ((opens_resume opens.lt apart).2 opens)
    refine ⟨one.trans rest.toOnlyCalls, fun d hd => ?_⟩
    rcases List.mem_cons.1 hd with rfl | hd
    · have lt := (run_keeps (h.lt List.mem_cons_self) (resume [d])).1
      exact (run_resume_other lt new).1.trans (one.waits d (List.mem_singleton_self d))
    · exact rest.waits d hd

/-- However many go back and in whichever order, they are served like calls that start just then. -/
theorem served (h : w.Roused o b k wish (c :: cs)) (g : w.Sound) (l : w.Ledger)
    (bound : ∀ s, (w.run (resume (c :: cs))).attachments s < 2 ^ 32) :
    w.Served (w.run (resume (c :: cs))) b k wish (c :: cs) c where
  joins s offered := h.joins g l bound offered
  queues d opens := h.queues g l bound opens
  starts idle free := by
    obtain ⟨new, -⟩ := List.nodup_cons.1 h.nodup
    obtain ⟨one, -⟩ := (h.served_one g l (small bound)).starts idle free
    rw [resume_cons] at bound ⊢
    have rest := h.tail.queues (g.run _) (l.run g _) bound one.opens
    have lt := (run_keeps (h.lt List.mem_cons_self) (resume [c])).1
    refine ⟨⟨(opens_resume lt new).2 one.opens, ?_, fun b' k' => ?_, fun b' => ?_,
      rest.connections.trans one.connections⟩, fun d hd hn => ?_⟩
    · rw [rest.slot]
      exact one.mark
    · rw [listedAt, rest.slot]
      exact one.listed b' k'
    · rw [rest.toOnlyCalls.counters]
      exact one.counters b'
    · exact rest.waits d ((List.mem_cons.1 hd).resolve_left hn)

end Roused

/-! ### Every run -/

/-- What follows of the open of `o` that has failed with `e`, some moves later, for its call and those
that have waited for it. -/
structure SharesFailure (w : System) (moves : List Move) (o : CallId) (wish : CallId → Acquisition)
    (cs : List CallId) (e : StreamError) : Prop where
  opener : (w.phaseOf o).Bears e
  each : ∀ c ∈ cs, w.Inherits moves c (wish c) o e
  uncounted : ∀ m c, m.actor = some c → c = o ∨ c ∈ cs →
    ∀ b, (w.step m).countersOf b = w.countersOf b
  unasked : ∀ m, ∀ c ∈ cs, m.actor = some c → OnlyCalls w (w.step m)
  together : (∀ c ∈ cs, w.phaseOf c = .waiting (wish c) o ∧ w.hasFired (wish c).cancel = false) →
    ∀ order : List CallId, order.Perm cs → w.Fails (w.run (order.map fun c => .turn (.call c))) cs e

/-- What follows of the open of `o` that is over without having failed, for those that have waited for
it: each goes where a new call starts, whenever that is, and so do all of them in any order. -/
structure GoesBack (w : System) (o : CallId) (b : BrokerId) (k : SourceKey)
    (wish : CallId → Acquisition) (cs : List CallId) : Prop where
  each : ∀ c ∈ cs, w.phaseOf c = .waiting (wish c) o → w.hasFired (wish c).cancel = false →
    w.ready (.call c) ∧ w.step (.turn (.call c)) = w.setPhase c (Errand.acquire (wish c)).origin
  alone : ∀ c ∈ cs, w.phaseOf c = .seeking (wish c) → (∀ s, w.attachments s < 2 ^ 32) →
    w.Served (w.step (.turn (.call c))) b k wish [c] c
  together : (∀ c ∈ cs, w.phaseOf c = .waiting (wish c) o ∧ w.hasFired (wish c).cancel = false) →
    ∀ first rest, (first :: rest).Perm cs →
      (∀ s, (w.run (resume (first :: rest))).attachments s < 2 ^ 32) →
      w.Served (w.run (resume (first :: rest))) b k wish cs first

/-- A call waits for an open in flight at its broker, under the key it asks for. -/
theorem Informed.place (h : w.Informed) (opens : w.Opens o b k) (hp : w.phaseOf c = .waiting a o) :
    c ≠ o ∧ w.brokerOf c = b ∧ a.key = k := by
  obtain ⟨broker, a', ha, key⟩ := opens
  have silent : w.announcedBy o = none := h.silent (by rw [← Phase.opens?_isSome, ha]; rfl)
  refine ⟨?_, ?_⟩
  · rintro rfl
    rw [hp] at ha
    cases ha
  · obtain ⟨-, ⟨broker', a'', ha', key'⟩ | told | gone⟩ := h.tended c a o hp
    · rw [ha] at ha'
      cases ha'
      exact ⟨broker'.symm.trans broker, key'.symm.trans key⟩
    · exact absurd silent told
    · rw [gone] at ha
      cases ha

/-- A call that is over announces nothing more. -/
theorem announced_of_over (past : (w.phaseOf c).isOver) (lt : c < w.calls.size) (moves : List Move) :
    (w.run moves).announcedBy c = w.announcedBy c := by
  induction moves generalizing w with
  | nil => rfl
  | cons m moves ih =>
    have same : (w.step m).announcedBy c = w.announcedBy c := by
      by_cases actor : m.actor = some c
      · rw [step_gone past actor]
      · exact (step_other lt actor).2
    exact (ih (by rw [step_over m past lt]; exact past) (step_keeps lt m).1).trans same

/-- An open that is over stays so, with what it has announced. -/
theorem EndsOpen.lasts (h : w.EndsOpen w' o b k (w'.announcedBy o)) (i : w'.Informed) (g : w'.Sound)
    (lt : o < w'.calls.size) (moves : List Move) :
    (w'.run moves).announcedBy o = w'.announcedBy o ∧ (w'.run moves).openOver o := by
  cases hx : w'.announcedBy o with
  | some y =>
    have told := i.announced_run g moves hx
    exact ⟨told, openOver_iff.2 (.inl (by simp [told]))⟩
  | none =>
    rw [hx] at h
    cases h with
    | dropped ends =>
      have gone : (w'.phaseOf o).isOver := by
        rw [ends]
        rfl
      refine ⟨(announced_of_over gone lt moves).trans hx, openOver_iff.2 (.inr ?_)⟩
      rw [run_over moves gone lt, ends]
      rfl

theorem sharesFailure (g : w.Sound) (i : w.Informed) (told : w.announcedBy o = some (.failed e))
    (nodup : cs.Nodup) {moves : List Move} (each : ∀ c ∈ cs, w.Inherits moves c (wish c) o e) :
    w.SharesFailure moves o wish cs e where
  opener := i.failed o e told
  each := each
  uncounted m c actor hc b := by
    rcases hc with rfl | hc
    · exact countersOf_step_of_bears (i.failed c e told) actor b
    · exact ((each c hc).onlyCalls actor).counters b
  unasked m c hc actor := (each c hc).onlyCalls actor
  together waits order perm := by
    have fails := fails_together g i told (perm.nodup_iff.2 nodup) fun c hc =>
      waits c (perm.mem_iff.1 hc)
    exact ⟨fails.toOnlyCalls, fun c hc => fails.fails c (perm.mem_iff.2 hc)⟩

theorem goesBack (g : w.Sound) (l : w.Ledger) (past : w.openOver o)
    (unfailed : ∀ e, w.announcedBy o ≠ some (.failed e)) (opener : o < w.calls.size) (apart : o ∉ cs)
    (nodup : cs.Nodup) (place : ∀ c ∈ cs, w.brokerOf c = b ∧ (wish c).key = k) :
    w.GoesBack o b k wish cs where
  each c _ hp unfired := ⟨ready_of_over hp past, step_back hp past unfailed unfired⟩
  alone c hc hp bound := by
    have served := served_seeking g l bound hp
    rwa [(place c hc).1, (place c hc).2] at served
  together waits first rest perm bound := by
    have mem : ∀ {c}, c ∈ first :: rest → c ∈ cs := perm.mem_iff.1
    have roused : w.Roused o b k wish (first :: rest) :=
      ⟨past, unfailed, opener, fun hn => apart (mem hn), perm.nodup_iff.2 nodup,
        fun c hc => (waits c (mem hc)).1, fun c hc => (waits c (mem hc)).2,
        fun c hc => place c (mem hc)⟩
    exact (roused.served g l bound).perm perm

/-- In every run, when the open of a call for a key comes to its end, it fails, or gives a stream unfit
to be listed, or gives one that is listed, or its call was dropped; and so it turns out for the calls that
wait for it, whenever they go on. After an error, theirs is the same: their turns return it, nothing but
the opener's failure is counted, no stream or connection is touched, and in whichever order they go on
they all return it. Otherwise they get no error from it and go on as calls that start just then: where a
shared stream delivers they join that stream, unless they ask for other media; or else they wait for
the open in flight; and without either the first to go on opens and the others wait for that. -/
theorem waiters_share_outcome (configs : List BrokerConfig) (desk : AccessDesk)
    (terms : List TunerTerms) (moves : List Move) (m : Move) (o : CallId) (b : BrokerId)
    (k : SourceKey) (wish : CallId → Acquisition) (cs : List CallId) :
    let w := (fresh configs desk terms).run moves
    let w' := w.step m
    w.Opens o b k → ¬ w'.Opens o b k → cs.Nodup → (∀ c ∈ cs, w.phaseOf c = .waiting (wish c) o) →
    w.EndsOpen w' o b k (w'.announcedBy o) ∧
    ∀ later, let v := w'.run later
      (∀ e, w'.announcedBy o = some (.failed e) → v.SharesFailure later o wish cs e) ∧
      ((∀ e, w'.announcedBy o ≠ some (.failed e)) → v.GoesBack o b k wish cs) := by
  intro w w' opens ends nodup waits
  have g : w.Sound := (sound_fresh configs desk terms).run moves
  have l : w.Ledger := (ledger_fresh configs desk terms).run (sound_fresh configs desk terms) moves
  have i : w.Informed := (informed_fresh configs desk terms).run (sound_fresh configs desk terms) moves
  have g' : w'.Sound := g.step m
  have i' : w'.Informed := i.step g.flight m
  have ended := g.endsOpen i opens ends
  have opener : o < w'.calls.size := (step_keeps opens.lt m).1
  have there : ∀ c ∈ cs, c < w.calls.size := fun c hc => w.lt_of_phaseOf c (by simp [waits c hc])
  have there' : ∀ c ∈ cs, c < w'.calls.size := fun c hc => (step_keeps (there c hc) m).1
  have place : ∀ c ∈ cs, c ≠ o ∧ w.brokerOf c = b ∧ (wish c).key = k := fun c hc =>
    i.place opens (waits c hc)
  have still : ∀ c ∈ cs, w'.phaseOf c = .waiting (wish c) o := by
    intro c hc
    have other : m.actor ≠ some c := by
      rw [actor_of_ends opens ends]
      exact fun same => (place c hc).1 (Option.some.inj same).symm
    exact (step_other (there c hc) other).1.trans (waits c hc)
  refine ⟨ended, fun later => ?_⟩
  obtain ⟨same, past⟩ := ended.lasts i' g' opener later
  constructor
  · intro e told
    refine sharesFailure (g'.run later) (i'.run g' later) (same.trans told) nodup fun c hc => ?_
    exact Inherits.run (still c hc) i' g' told later
  · intro unfailed
    refine goesBack (g'.run later) ((l.step g m).run g' later) past ?_ (run_keeps opener later).1
      (fun hn => (place o hn).1 rfl) nodup fun c hc => ?_
    · rw [same]
      exact unfailed
    · rw [(run_keeps (there' c hc) later).2, (step_keeps (there c hc) m).2]
      exact (place c hc).2

/-- Two calls for the sample source, of which one waits for the other, and the tuner has been asked. -/
def oneWaitsForTuner : List Move := oneWaits ++ [.turn (.call 0)]

theorem waiters_share_outcome_oneWaitsForTuner :
    ((refusing.run oneWaitsForTuner).step (.turn (.call 0))).Fails
      (((refusing.run oneWaitsForTuner).step (.turn (.call 0))).run [.turn (.call 1)]) [1]
      (.connect sampleRequest.key "refused") ∧
    (((fresh [{}] {} []).run oneWaitsForTuner).step (.turn (.call 0))).Joins
      ((((fresh [{}] {} []).run oneWaitsForTuner).step (.turn (.call 0))).run (resume [1]))
      0 0 (fun _ => .ofRequest sampleRequest none {}) [1] := by
  obtain ⟨-, refused⟩ := waiters_share_outcome [{}] {} [{ failure := some "refused" }]
    oneWaitsForTuner (.turn (.call 0)) 0 0 sampleRequest.key
    (fun _ => .ofRequest sampleRequest none {}) [1] (by decide) (by decide) (by decide)
    (List.forall_mem_singleton.2 rfl)
  obtain ⟨-, given⟩ := waiters_share_outcome [{}] {} [] oneWaitsForTuner (.turn (.call 0)) 0 0
    sampleRequest.key (fun _ => .ofRequest sampleRequest none {}) [1] (by decide) (by decide)
    (by decide) (List.forall_mem_singleton.2 rfl)
  have failed : ((refusing.run oneWaitsForTuner).step (.turn (.call 0))).announcedBy 0 =
      some (.failed (.connect sampleRequest.key "refused")) := by decide
  have opened : (((fresh [{}] {} []).run oneWaitsForTuner).step (.turn (.call 0))).announcedBy 0 =
      some .opened := by decide
  have unfailed : ∀ e, (((fresh [{}] {} []).run oneWaitsForTuner).step
      (.turn (.call 0))).announcedBy 0 ≠ some (.failed e) := by
    rw [opened]
    rintro e ⟨⟩
  have offered : (((fresh [{}] {} []).run oneWaitsForTuner).step (.turn (.call 0))).OnOffer 0
      sampleRequest.key 0 := ⟨by decide, by decide, by decide⟩
  have small : ∀ s, ((((fresh [{}] {} []).run oneWaitsForTuner).step (.turn (.call 0))).run
      (resume [1])).attachments s < 2 ^ 32 := fun s => List.countP_le_length.trans_lt (by decide)
  have shares := (refused []).1 _ failed
  have back := (given []).2 unfailed
  exact ⟨shares.together (List.forall_mem_singleton.2 ⟨rfl, rfl⟩) [1] (List.Perm.refl [1]),
    (back.together (List.forall_mem_singleton.2 ⟨rfl, rfl⟩) 1 [] (List.Perm.refl [1]) small).joins
      0 offered⟩

end System

end TunerBroker
