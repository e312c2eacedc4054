import TunerBroker.Proofs.Sources.Owners
import TunerBroker.Proofs.Opens.SharedOutcome
import TunerBroker.Proofs.Invariants.Tidy

/-! Whom a fired token cancels. A call for the source of a request returns a cancellation because its own
token has fired, or because it has waited for the open of a call whose token had fired: that open is
announced as failed, and its error is returned by all that wait for it, whatever their own tokens. -/

namespace TunerBroker

/-- What a move makes a call for, if that is a consumer, and on which broker. -/
def Move.wish? : Move → Option (BrokerId × Acquisition)
  | start b _ errand => errand.wish?.map (b, ·)
  | _ => none

/-- An open by a single connect has that still to make, or waits for the tuner; either way it is under the
token of its call. -/
def Phase.Heeds : Phase → Prop
  | opening a _ moves wait => moves = [.connect a.cancel] ∧ wait = .nowhere ∨
    moves = [] ∧ ∃ d, wait = .dialing d ∧ d.token = a.cancel
  | _ => True

namespace System

/-- The broker that the call of a number is made on in the course of a run, and what it is made for. -/
def wishOf (c : CallId) (w : System) : List Move → Option (BrokerId × Acquisition)
  | [] => none
  | m :: moves => if c < (w.step m).calls.size then m.wish? else wishOf c (w.step m) moves

/-- What has a call return a cancellation, that was made on `b` for `a`. -/
inductive CancelledBy (w : System) (moves : List Move) (c : CallId) (b : BrokerId) (a : Acquisition) :
    Prop where
  /-- Its token has fired. -/
  | own (fired : (w.run moves).hasFired a.cancel)
  /-- Its token has not fired. It has waited for the open of another call, for the same source and on the
  same broker, whose token had fired and which returned the cancellation before. -/
  | opener {o : CallId} {a' : Acquisition} (waits : (w.run moves).phaseOf c = .waiting a o)
      (unfired : (w.run moves).hasFired a.cancel = false) (made : w.wishOf o moves = some (b, a'))
      (key : a'.key = a.key) (fired : (w.run moves).hasFired a'.cancel)
      (returned : (w.run moves).phaseOf o = .finished (.failed (.cancelled a.key)))
      (told : (w.run moves).announcedBy o = some (.failed (.cancelled a.key)))

/-- What holds along a run in which consumers are asked for on requests only. -/
structure Heedful (w : System) (moves : List Move) : Prop where
  made : ∀ c a, ((w.run moves).phaseOf c).wish? = some a →
    w.wishOf c moves = some ((w.run moves).brokerOf c, a) ∧ a.IsPlain
  heeds : ∀ c, ((w.run moves).phaseOf c).Heeds
  rejects : ∀ c s stage e, (w.run moves).phaseOf c = .rejecting s stage e → ∀ k, e ≠ .cancelled k
  joined : ∀ c a o, (w.run moves).phaseOf c = .waiting a o →
    ∃ a', w.wishOf o moves = some ((w.run moves).brokerOf c, a') ∧ a'.key = a.key
  told : ∀ o k, (w.run moves).announcedBy o = some (.failed (.cancelled k)) →
    (w.run moves).phaseOf o = .finished (.failed (.cancelled k)) ∧
      ∃ b a, w.wishOf o moves = some (b, a) ∧ a.key = k ∧ (w.run moves).hasFired a.cancel

/-- What a move does to an open by a single connect, which is under the token of its call. -/
inductive Dials (w : System) (a : Acquisition) (s : StreamId) : Phase → Prop where
  | asks (d : Dial) (token : d.token = a.cancel) : Dials w a s (.opening a s [] (.dialing d))
  | gives (i : ConsumerId) : Dials w a s (.finished (.attached i))
  | refuses (breach : Breach) : Dials w a s (.rejecting s none (.violation a.key breach))
  | cancelled (fired : w.hasFired a.cancel) :
      Dials w a s (.finished (.failed (.cancelled (w.stream s).key)))
  | fails (e : StreamError) (other : ∀ k, e ≠ .cancelled k) : Dials w a s (.finished (.failed e))
  | abandoned : Dials w a s .abandoned

variable {m : Move} {moves : List Move} {w w' w₀ : System} {a a' : Acquisition} {b : BrokerId}
  {k : SourceKey} {c o : CallId} {e : StreamError} {s : StreamId} {x : Option Announcement}
  {p : Phase} {ticks : List Tick} {l : List OpenMove} {wait : OpenWait}

/-! ### What a call was made for -/

theorem wishOf_concat (hc : w.calls.size ≤ c) (moves : List Move) (m : Move) :
    w.wishOf c (moves ++ [m]) = if c < (w.run moves).calls.size then w.wishOf c moves
      else if c < ((w.run moves).step m).calls.size then m.wish? else none := by
  induction moves generalizing w with
  | nil => exact (if_neg (show ¬ c < w.calls.size from Nat.not_lt.2 hc)).symm
  | cons m₀ moves ih =>
    simp only [List.cons_append, wishOf]
    split
    · rename_i lt
      exact (if_pos (run_keeps lt moves).1).symm
    · rename_i lt
      exact ih (Nat.le_of_not_lt lt)

/-- A call stays one that was made for the same. -/
theorem wishOf_keeps (hc : w.calls.size ≤ c) (lt : c < (w.run moves).calls.size) (m : Move) :
    w.wishOf c (moves ++ [m]) = w.wishOf c moves := by
  rw [wishOf_concat hc, if_pos lt]

theorem wishOf_eq (c : CallId) (w : System) (moves : List Move) :
    w.wishOf c moves = (w.errandOf c moves).bind fun x => x.2.wish?.map (x.1, ·) := by
  induction moves generalizing w with
  | nil => rfl
  | cons m moves ih =>
    simp only [wishOf, errandOf]
    split
    · cases m <;> rfl
    · exact ih _

/-- A call is made by one of the moves, if it is made at all. -/
theorem exists_start (hc : w.calls.size ≤ c) (made : w.wishOf c moves = some (b, a)) :
    ∃ before gated errand after, moves = before ++ .start b gated errand :: after ∧
      errand.wish? = some a ∧ errand.isAllowed (w.run before) b ∧ (w.run before).calls.size = c := by
  rw [wishOf_eq] at made
  obtain ⟨⟨b', errand⟩, begins, wants⟩ := Option.bind_eq_some_iff.1 made
  obtain ⟨a', wish, eq⟩ := Option.map_eq_some_iff.1 wants
  cases eq
  obtain ⟨before, gated, after, rfl, allowed, same⟩ := exists_errand hc begins
  exact ⟨before, gated, errand, after, rfl, wish, allowed, same⟩

/-- The move with which a call ends, of all that a run makes. -/
theorem exists_last_move (lt : c < w.calls.size) (pending : (w.phaseOf c).isOver = false)
    (past : ((w.run moves).phaseOf c).isOver) :
    ∃ early m late, moves = early ++ m :: late ∧ ((w.run early).phaseOf c).isOver = false ∧
      m.actor = some c ∧ ((w.run early).step m).phaseOf c = (w.run moves).phaseOf c := by
  induction moves generalizing w with
  | nil => simp [run, pending] at past
  | cons m moves ih =>
    have lt' := (step_keeps lt m).1
    by_cases ended : ((w.step m).phaseOf c).isOver
    · refine ⟨[], m, moves, rfl, pending, ?_, (run_over moves ended lt').symm⟩
      by_contra other
      rw [(step_other lt other).1, pending] at ended
      cases ended
    · obtain ⟨early, m', late, rfl, pending', actor, ends⟩ :=
        ih lt' (Bool.eq_false_of_not_eq_true ended) past
      exact ⟨m :: early, m', late, rfl, pending', actor, ends⟩

/-- The move with which a call ends that was made for `a`, and its place up to then. -/
theorem exists_end (hc : w.calls.size ≤ c) (made : w.wishOf c moves = some (b, a))
    (past : ((w.run moves).phaseOf c).isOver) :
    ∃ before m after, moves = before ++ m :: after ∧ ((w.run before).phaseOf c).Pursues a ∧
      (w.run before).brokerOf c = b ∧ ((w.run before).phaseOf c).isOver = false ∧
      m.actor = some c ∧ ((w.run before).step m).phaseOf c = (w.run moves).phaseOf c := by
  obtain ⟨first, gated, errand, rest, rfl, wish, allowed, rfl⟩ := exists_start hc made
  have begun : ∀ l, w.run (first ++ .start b gated errand :: l) =
      ((w.run first).begin b gated errand).run l := by
    intro l
    rw [run_append, ← show (w.run first).step (.start b gated errand) =
      (w.run first).begin b gated errand from if_pos allowed]
    rfl
  have lt : (w.run first).calls.size < ((w.run first).begin b gated errand).calls.size := by
    rw [calls_begin, calls_size_addCall]
    exact Nat.lt_succ_self _
  have pending : (((w.run first).begin b gated errand).phaseOf (w.run first).calls.size).isOver =
      false := by
    rw [phaseOf_begin, if_pos rfl]
    cases errand <;> rfl
  rw [begun] at past
  obtain ⟨early, m, late, rfl, pending', actor, ends⟩ := exists_last_move lt pending past
  refine ⟨first ++ .start b gated errand :: early, m, late, by simp, ?_⟩
  rw [begun, begun, (run_keeps lt early).2, brokerOf_begin, if_pos rfl]
  exact ⟨pursues_run lt (pursues_start wish) early, rfl, pending', actor, ends⟩

/-! ### Opens by a single connect -/

/-- An attempt begins under the token that it is given, and fails with a cancellation only if that has
fired. -/
theorem startOpen_cases (w : System) (c : CallId) (s : StreamId) (token : Option Token) :
    (∃ d, d.token = token ∧ (w.startOpen c s token).2 = .dialing d) ∨
    ∃ e, (w.startOpen c s token).2 = .finished (.error e) ∧
      ∀ k, e = .cancelled k → k = (w.stream s).key ∧ w.hasFired token := by
  simp only [startOpen]
  split
  · exact .inr ⟨_, rfl, by rintro k ⟨⟩⟩
  · split
    · rename_i fired
      refine .inr ⟨_, rfl, ?_⟩
      rintro k ⟨⟩
      exact ⟨rfl, fired⟩
    · exact .inl ⟨_, rfl, rfl⟩

/-- So it does when it comes out. -/
theorem error_finishOpen {d : Dial} (h : (w.finishOpen c s d).2 = .error e) :
    ∀ k, e = .cancelled k → k = (w.stream s).key ∧ w.hasFired d.token := by
  simp only [finishOpen] at h
  split at h
  · rename_i fired
    cases h
    rintro k ⟨⟩
    exact ⟨rfl, fired⟩
  · split at h
    · split at h
      · cases h
        rintro k ⟨⟩
      · cases h
    · cases h
      rintro k ⟨⟩

theorem dials_failOpen (hc : c < w'.calls.size)
    (he : ∀ k, e = .cancelled k → k = (w.stream s).key ∧ w.hasFired a.cancel) :
    w.Dials a s ((w'.failOpen c a s e).phaseOf c) := by
  have ended := ((Advance.of_hushed (.refl w') c).finish hc (.failed e)).hush
    ((Hushed.refl _).endOpen c a.key none)
  have announced := (((ended.reap s).record .openFailed).note (some c) (.openFailed a.key e)).announce hc
    (.failed e)
  have phase : (w'.failOpen c a s e).phaseOf c = .finished (.failed e) := by
    rw [System.failOpen, announced.phaseOf, if_pos rfl]
  rw [phase]
  by_cases cancelled : ∃ k, e = .cancelled k
  · obtain ⟨k, rfl⟩ := cancelled
    obtain ⟨rfl, fired⟩ := he k rfl
    exact .cancelled fired
  · exact .fails e fun k hk => cancelled ⟨k, hk⟩

theorem dials_concludeOpen (hc : c < w'.calls.size) :
    w.Dials a s ((w'.concludeOpen c a s).phaseOf c) := by
  rw [phaseOf_concludeOpen hc]
  split
  · exact .refuses _
  · exact .gives _

theorem dials_turnOpening (hp : w.phaseOf c = .opening a s l wait) (heeds : (w.phaseOf c).Heeds) :
    w.Dials a s ((w.turnOpening c a s l wait).phaseOf c) := by
  have hc : c < w.calls.size := w.lt_of_phaseOf c (by simp [hp])
  rw [hp] at heeds
  obtain ⟨rfl, rfl⟩ | ⟨rfl, d, rfl, token⟩ := heeds
  · have size := (hushed_startOpen w c s a.cancel).calls
    simp only [turnOpening, nextMove]
    rcases w.startOpen_cases c s a.cancel with ⟨d, token, h⟩ | ⟨e, h, he⟩
    all_goals generalize w.startOpen c s a.cancel = r at h size; obtain ⟨v, step⟩ := r; subst h
    · rw [phaseOf_setPhase, if_pos ⟨rfl, size ▸ hc⟩]
      exact .asks d token
    · exact dials_failOpen (size ▸ hc) he
  · have size := (calm_finishOpen w c s d).calls
    have failed : ∀ e, (w.finishOpen c s d).2 = .error e → ∀ k, e = .cancelled k →
        k = (w.stream s).key ∧ w.hasFired a.cancel := fun e h => token ▸ error_finishOpen h
    simp only [turnOpening]
    generalize w.finishOpen c s d = r at size failed
    obtain ⟨v, result⟩ := r
    cases result with
    | ok u => exact dials_concludeOpen (size ▸ hc)
    | error e => exact dials_failOpen (size ▸ hc) (failed e rfl)

/-- A move of the call leaves such an open where it is, or takes it on. -/
theorem dials_step (hp : w.phaseOf c = .opening a s l wait) (heeds : (w.phaseOf c).Heeds)
    (actor : m.actor = some c) :
    (w.step m).phaseOf c = w.phaseOf c ∨ w.Dials a s ((w.step m).phaseOf c) := by
  have hc : c < w.calls.size := w.lt_of_phaseOf c (by simp [hp])
  unfold Move.actor at actor
  split at actor
  · cases actor
    simp only [step, turn, hp, turnCall]
    split
    · exact .inr (dials_turnOpening hp heeds)
    · exact .inl hp
  · cases actor
    by_cases suspended : (w.phaseOf c).isSuspended
    · refine .inr ?_
      rw [step, (Advance.abandon hc suspended).phaseOf, if_pos rfl]
      exact .abandoned
    · simp [step, abandon, suspended]
  · cases actor
    refine .inl ?_
    rw [hp] at heeds
    obtain ⟨rfl, rfl⟩ | ⟨rfl, d, rfl, token⟩ := heeds <;> simp [step, provide, hp]
  · cases actor

/-- An open begins with all the moves that are planned for it, and with a stream of its own. -/
theorem Change.planned (hc : Change m w w') (idle : (w.phaseOf c).isOpening = false)
    (hp : w'.phaseOf c = .opening a s l wait) :
    l = a.plan.moves ∧ wait = (if a.plan.outside then .outside else .nowhere) ∧
      s = w.streams.size := by
  have unmoved : w'.phaseOf c ≠ w.phaseOf c := fun same => by
    rw [← same, hp] at idle
    cases idle
  have moved : ∀ {v : System} {d : CallId} {q : Phase},
      w'.phaseOf c = (v.setPhase d q).phaseOf c → v.phaseOf c = w.phaseOf c →
      c = d ∧ q = .opening a s l wait := by
    intro v d q hw hv
    rcases v.setPhase_cases d c q with h | ⟨rfl, h⟩
    · exact absurd (hw.trans (h.trans hv)) unmoved
    · exact ⟨rfl, h.symm.trans (hw.symm.trans hp)⟩
  have led : ∀ {q : Phase}, (w.phaseOf c).Leads q → q ≠ .opening a s l wait := by
    rintro q leads rfl
    rw [← Phase.opens?_isSome, ← leads.opens] at idle
    cases idle
  cases hc with
  | stay | make | letGo | drop => exact absurd rfl unmoved
  | begin =>
    rw [phaseOf_begin] at hp unmoved
    split at hp
    · rename_i errand _ _ _
      cases errand <;> cases hp
    · exact absurd (if_neg ‹_›) unmoved
  | go actor leads =>
    obtain ⟨rfl, hq⟩ := moved rfl rfl
    exact absurd hq (led leads)
  | work actor work held leads =>
    obtain ⟨rfl, hq⟩ := moved rfl (work.frame.phaseOf c)
    exact absurd hq (led leads)
  | provide place =>
    obtain ⟨rfl, -⟩ := moved rfl rfl
    rw [place] at idle
    cases idle
  | demote place | «open» place =>
    obtain ⟨-, hq⟩ := moved (v := System.addStream _ _) rfl rfl
    cases hq
    exact ⟨rfl, rfl, rfl⟩
  | register actor place work =>
    obtain ⟨-, hq⟩ := moved rfl (work.frame.phaseOf c)
    cases hq
  | giveUp actor place work exit =>
    obtain ⟨-, hq⟩ := moved rfl (work.frame.phaseOf c)
    subst hq
    cases exit
  | demoteJoin | reuse | miss | refuse | detach | last | sweep =>
    obtain ⟨-, hq⟩ := moved rfl rfl
    cases hq

/-! ### One step -/

/-- A token stays cancelled. -/
theorem hasFired_step {token : Option Token} (m : Move) (h : w.hasFired token) :
    (w.step m).hasFired token := by
  cases token with
  | none => cases h
  | some t => exact List.contains_iff_mem.2 (w.fired_step m (List.contains_iff_mem.1 h))

theorem planned_step (idle : (w.phaseOf c).isOpening = false)
    (hp : (w.step m).phaseOf c = .opening a s l wait) :
    l = a.plan.moves ∧ wait = (if a.plan.outside then .outside else .nowhere) ∧
      s = w.streams.size := by
  obtain ⟨w₁, w₂, h₁, hc, h₂⟩ := step_books w m
  rw [h₂.frame.phaseOf] at hp
  rw [← h₁.frame.streams]
  exact hc.planned (by rw [h₁.frame.phaseOf]; exact idle) hp

namespace Heedful

variable (h : w.Heedful moves) (empty : w.calls.size = 0)

include h empty

theorem made_step (plain : ∀ b gated errand, m = .start b gated errand → errand.IsPlain)
    (hw : (((w.run moves).step m).phaseOf c).wish? = some a) :
    w.wishOf c (moves ++ [m]) = some (((w.run moves).step m).brokerOf c, a) ∧ a.IsPlain := by
  have fresh : w.calls.size ≤ c := empty ▸ Nat.zero_le c
  by_cases lt : c < (w.run moves).calls.size
  · rw [wishOf_keeps fresh lt, (step_keeps lt m).2]
    rcases wish_step lt m with none | same
    · rw [none] at hw
      cases hw
    · exact h.made c a (same ▸ hw)
  · rcases (w.run moves).step_cases m c with ⟨same, -⟩ | ⟨-, lt'⟩ |
      ⟨b, gated, errand, hm, -, lt', phase, broker, -⟩
    · rw [same, phaseOf_of_size_le _ _ (Nat.le_of_not_lt lt)] at hw
      cases hw
    · exact absurd lt' lt
    · have begun := plain b gated errand hm
      rw [phase] at hw
      rw [wishOf_concat fresh, if_neg lt, if_pos lt', broker, hm]
      cases errand <;> cases hw <;> exact ⟨rfl, begun⟩

omit empty in
theorem heeds_step (c : CallId) (planned : ∀ a, (((w.run moves).step m).phaseOf c).wish? = some a → a.IsPlain) :
    (((w.run moves).step m).phaseOf c).Heeds := by
  cases ho : ((w.run moves).phaseOf c).isOpening with
  | true =>
    have hc := (w.run moves).lt_of_phaseOf c fun hn => by simp [hn, Phase.isOpening] at ho
    obtain ⟨a, s, l, wait, hp⟩ : ∃ a s l wait, (w.run moves).phaseOf c = .opening a s l wait := by
      cases hp : (w.run moves).phaseOf c <;> simp_all [Phase.isOpening]
    by_cases actor : m.actor = some c
    · rcases dials_step hp (h.heeds c) actor with same | dials
      · rw [same]
        exact h.heeds c
      · generalize ((w.run moves).step m).phaseOf c = q at dials
        cases dials with
        | asks d token => exact .inr ⟨rfl, d, rfl, token⟩
        | _ => trivial
    · rw [(step_other hc actor).1]
      exact h.heeds c
  | false =>
    cases hp : ((w.run moves).step m).phaseOf c with
    | opening a s l wait =>
      obtain ⟨rfl, rfl, -⟩ := planned_step ho hp
      obtain ⟨r, token, config, rfl⟩ := planned a (by rw [hp]; rfl)
      exact .inl ⟨rfl, rfl⟩
    | _ => trivial

omit empty in
theorem rejects_step {stage : Option CloseStage}
    (hp : ((w.run moves).step m).phaseOf c = .rejecting s stage e) (k : SourceKey) : e ≠ .cancelled k := by
  rcases (w.run moves).step_cases m c with ⟨same, -⟩ | ⟨actor, -⟩ | ⟨b, gated, errand, -, -, -, phase, -, -⟩
  · exact h.rejects c s stage e (same ▸ hp) k
  · obtain ⟨p, ticks, x, course, adv⟩ := step_fares (w := w.run moves) actor
    rw [adv.phaseOf, if_pos rfl] at hp
    generalize hq : Phase.rejecting s stage e = q at hp
    subst hp
    cases course with
    | stay => exact h.rejects c s stage e hq.symm k
    | reject place =>
      cases hq
      rintro ⟨⟩
    | rejecting place =>
      cases hq
      exact h.rejects c _ _ _ place k
    | lone borrows next =>
      subst hq
      rcases next with hn | ⟨hn, -⟩ <;> cases hn
    | _ => cases hq
  · rw [phase] at hp
    cases errand <;> cases hp

theorem joined_step (g : (w.run moves).Flight) (i : (w.run moves).Informed)
    (hp : ((w.run moves).step m).phaseOf c = .waiting a o) :
    ∃ a', w.wishOf o (moves ++ [m]) = some (((w.run moves).step m).brokerOf c, a') ∧
      a'.key = a.key := by
  have fresh : w.calls.size ≤ o := empty ▸ Nat.zero_le o
  by_cases waits : (w.run moves).phaseOf c = .waiting a o
  · obtain ⟨a', made, key⟩ := h.joined c a o waits
    have hc := (w.run moves).lt_of_phaseOf c (by simp [waits])
    rw [wishOf_keeps fresh (i.tended c a o waits).1, (step_keeps hc m).2]
    exact ⟨a', made, key⟩
  · rcases (w.run moves).step_cases m c with ⟨same, -⟩ | ⟨actor, hc⟩ |
      ⟨b, gated, errand, -, -, -, phase, -, -⟩
    · exact absurd (same ▸ hp) waits
    · obtain ⟨p, ticks, x, course, adv⟩ := step_fares (w := w.run moves) actor
      rw [adv.phaseOf, if_pos rfl] at hp
      subst hp
      have opens := (Informed.joins g course waits).2
      have ho := opens.lt
      obtain ⟨broker, a', ha', key⟩ := opens
      have wish : ((w.run moves).phaseOf o).wish? = some a' := by
        cases hq : (w.run moves).phaseOf o <;> simp_all [Phase.opens?, Phase.wish?]
      rw [wishOf_keeps fresh ho, (step_keeps hc m).2, ← broker]
      exact ⟨a', (h.made o a' wish).1, key⟩
    · rw [phase] at hp
      cases errand <;> cases hp

omit empty in
/-- An open that is cancelled was so by the token of its own call. -/
theorem cancelled_open {k : SourceKey} (faithful : (w.run moves).Faithful)
    (hp : (w.run moves).phaseOf c = .opening a s l wait) (actor : m.actor = some c)
    (ends : ((w.run moves).step m).phaseOf c = .finished (.failed (.cancelled k))) :
    k = a.key ∧ (w.run moves).hasFired a.cancel := by
  obtain ⟨r, token, config, rfl⟩ := (h.made c a (by rw [hp]; rfl)).2
  have key : ((w.run moves).stream s).key = r.key :=
    congrArg StreamRequest.key (faithful.opens hp rfl).2.2.request
  rcases dials_step hp (h.heeds c) actor with same | dials
  · rw [same, hp] at ends
    cases ends
  · rw [ends] at dials
    cases dials with
    | cancelled fired => exact ⟨key, fired⟩
    | fails e other => exact absurd rfl (other k)

theorem told_step (faithful : (w.run moves).Faithful) {k : SourceKey}
    (told : ((w.run moves).step m).announcedBy o = some (.failed (.cancelled k))) :
    ((w.run moves).step m).phaseOf o = .finished (.failed (.cancelled k)) ∧
      ∃ b a, w.wishOf o (moves ++ [m]) = some (b, a) ∧ a.key = k ∧
        ((w.run moves).step m).hasFired a.cancel := by
  have fresh : w.calls.size ≤ o := empty ▸ Nat.zero_le o
  have before : (w.run moves).announcedBy o = some (.failed (.cancelled k)) →
      ((w.run moves).step m).phaseOf o = .finished (.failed (.cancelled k)) ∧
        ∃ b a, w.wishOf o (moves ++ [m]) = some (b, a) ∧ a.key = k ∧
          ((w.run moves).step m).hasFired a.cancel := by
    intro told
    have ho := lt_of_announced told
    obtain ⟨ended, b, a, made, key, fired⟩ := h.told o k told
    refine ⟨(step_over m (by rw [ended]; rfl) ho).trans ended, b, a, ?_, key, hasFired_step m fired⟩
    rw [wishOf_keeps fresh ho, made]
  rcases (w.run moves).step_cases m o with ⟨-, same⟩ | ⟨actor, ho⟩ |
    ⟨b, gated, errand, -, -, -, -, -, silent⟩
  · exact before (same ▸ told)
  · obtain ⟨p, ticks, x, course, adv⟩ := step_fares (w := w.run moves) actor
    have phase : ((w.run moves).step m).phaseOf o = p := by rw [adv.phaseOf, if_pos rfl]
    rw [adv.announced, if_pos rfl] at told
    cases x with
    | none => exact before told
    | some y =>
      cases told
      cases course with
      | @fail a s l wait _ place =>
        obtain ⟨key, fired⟩ := h.cancelled_open faithful place actor phase
        refine ⟨phase, (w.run moves).brokerOf o, a, ?_, key.symm, hasFired_step m fired⟩
        rw [wishOf_keeps fresh ho, (h.made o a (by rw [place]; rfl)).1]
  · rw [silent] at told
    cases told

theorem step (g : (w.run moves).Flight) (i : (w.run moves).Informed)
    (faithful : (w.run moves).Faithful)
    (plain : ∀ b gated errand, m = .start b gated errand → errand.IsPlain) :
    w.Heedful (moves ++ [m]) := by
  have made := fun c a => h.made_step (c := c) (a := a) empty plain
  refine ⟨?_, ?_, ?_, ?_, ?_⟩ <;> rw [run_concat]
  · exact made
  · exact fun c => h.heeds_step c fun a ha => (made c a ha).2
  · exact fun c s stage e hp k => h.rejects_step hp k
  · exact fun c a o hp => h.joined_step empty g i hp
  · exact fun o k told => h.told_step empty faithful told

end Heedful

theorem heedful_fresh (configs : List BrokerConfig) (desk : AccessDesk) (terms : List TunerTerms)
    {moves : List Move} (plain : ∀ b gated errand, .start b gated errand ∈ moves → errand.IsPlain) :
    (fresh configs desk terms).Heedful moves := by
  induction moves using List.reverseRecOn with
  | nil =>
    refine ⟨?_, fun c => trivial, ?_, ?_, ?_⟩
    · rintro c a ⟨⟩
    · rintro c s stage e ⟨⟩
    · rintro c a o ⟨⟩
    · rintro o k ⟨⟩
  | append_singleton moves m ih =>
    have sound := sound_fresh configs desk terms
    refine (ih fun b gated errand hm => plain b gated errand (List.mem_append_left _ hm)).step rfl
      (sound.run moves).flight ((informed_fresh configs desk terms).run sound moves)
      ((faithful_fresh configs desk terms).run moves) fun b gated errand hm => ?_
    exact plain b gated errand (by simp [hm])

/-! ### The end of a call -/

/-- A call comes to a result with a turn of its own. -/
theorem turn_of_finished {out : Outcome} (pending : (w.phaseOf c).isOver = false)
    (actor : m.actor = some c) (ends : (w.step m).phaseOf c = .finished out) : m = .turn (.call c) := by
  have hc : c < w.calls.size := w.lt_of_phaseOf c fun hn => by simp [hn, Phase.isOver] at pending
  have unmoved : (w.step m).phaseOf c ≠ w.phaseOf c := fun same => by
    rw [← same, ends] at pending
    cases pending
  unfold Move.actor at actor
  split at actor
  · cases actor
    rfl
  · cases actor
    by_cases suspended : (w.phaseOf c).isSuspended
    · rw [step, (Advance.abandon hc suspended).phaseOf, if_pos rfl] at ends
      cases ends
    · exact absurd (by simp [step, abandon, suspended]) unmoved
  · cases actor
    simp only [step, provide] at ends unmoved
    split at ends
    · rw [phaseOf_setPhase, if_pos ⟨rfl, hc⟩] at ends
      cases ends
    · split at ends
      · rw [phaseOf_setPhase, if_pos ⟨rfl, hc⟩] at ends
        cases ends
      · rw [ends] at pending
        cases pending
    · rw [ends] at pending
      cases pending
  · cases actor

/-- A call that returns a cancellation does so for its own token, or hands on that of its opener. -/
theorem Heedful.cancels (h : w.Heedful moves) (faithful : (w.run moves).Faithful)
    (pursues : ((w.run moves).phaseOf c).Pursues a) (broker : (w.run moves).brokerOf c = b)
    (pending : ((w.run moves).phaseOf c).isOver = false) (actor : m.actor = some c)
    (ends : ((w.run moves).step m).phaseOf c = .finished (.failed (.cancelled k))) :
    k = a.key ∧ w.CancelledBy moves c b a := by
  obtain ⟨p, ticks, x, course, adv⟩ := step_fares (w := w.run moves) actor
  have phase : ((w.run moves).step m).phaseOf c = p := by rw [adv.phaseOf, if_pos rfl]
  generalize hq : Phase.finished (.failed (.cancelled k)) = q at ends
  obtain rfl : p = q := phase.symm.trans ends
  cases course with
  | stay =>
    rw [← hq] at pending
    cases pending
  | @cancel a' o place fired =>
    cases hq
    rw [place] at pursues
    obtain rfl := pursues.wish rfl
    exact ⟨rfl, .own fired⟩
  | @inherit a' o e place told =>
    cases hq
    have same : a' = a := pursues.wish (by rw [place]; rfl)
    subst same
    obtain ⟨returned, b', a₁, made, key, fired⟩ := h.told o k told
    obtain ⟨a₂, made', key'⟩ := h.joined c a' o place
    rw [made] at made'
    cases made'
    obtain rfl : k = a'.key := key.symm.trans key'
    cases unfired : (w.run moves).hasFired a'.cancel with
    | true => exact ⟨rfl, .own unfired⟩
    | false => exact ⟨rfl, .opener place unfired (broker ▸ made) key' fired returned told⟩
  | @fail a' s l wait e place =>
    have same : a' = a := pursues.wish (by rw [place]; rfl)
    subst same
    obtain ⟨key, fired⟩ := h.cancelled_open faithful place actor (ends.trans hq.symm)
    exact ⟨key, .own fired⟩
  | @rejected s stage e place =>
    cases hq
    exact absurd rfl (h.rejects c s stage _ place k)
  | torn result place =>
    rw [place] at pursues
    cases pursues with
    | past past => cases past
  | lone borrows =>
    generalize (w.run moves).phaseOf c = q at pursues borrows pending
    cases pursues with
    | past past => rw [past] at pending; cases pending
    | _ => cases borrows
  | _ => cases hq

/-- A call that still waits, with its token not fired, returns a cancellation with its next turn just if
its opener has announced that. -/
theorem cancels_waiter_iff (hp : w.phaseOf c = .waiting a o) (unfired : w.hasFired a.cancel = false) :
    (w.step (.turn (.call c))).phaseOf c = .finished (.failed (.cancelled k)) ↔
      w.announcedBy o = some (.failed (.cancelled k)) := by
  refine ⟨fun ends => ?_, fun told => step_waiting_told hp told unfired⟩
  have hc : c < w.calls.size := w.lt_of_phaseOf c (by simp [hp])
  by_cases past : w.openOver o
  · cases told : w.announcedBy o with
    | none =>
      rw [announcedBy] at told
      rw [step_waiting hp past, endWait, unfired, told] at ends
      simp [phaseOf_setPhase, hc] at ends
    | some y =>
      rw [step_waiting_told hp told unfired] at ends
      cases y <;> cases ends
      rfl
  · have waits : w.step (.turn (.call c)) = w := by
      simp [step, turn, ready, hp, phaseReady, unfired, past]
    rw [waits, hp] at ends
    cases ends

/-- In every run whose calls ask for the sources of requests, release consumers and sweep brokers, a call
that returns a cancellation does so with a turn at which its token has fired; or at which it waits, its
token not fired, for the open of a call whose token has, and has been told of that. A call that waits is
told so of no other opener. Thus where nobody is told, each call that returns a cancellation was
cancelled by the token it was given. -/
theorem cancelled_by_token (configs : List BrokerConfig) (desk : AccessDesk) (terms : List TunerTerms)
    (moves : List Move) (plain : ∀ b gated errand, .start b gated errand ∈ moves → errand.IsPlain) :
    let w₀ := fresh configs desk terms
    let w := w₀.run moves
    (∀ c b a k, w₀.wishOf c moves = some (b, a) →
      w.phaseOf c = .finished (.failed (.cancelled k)) → k = a.key ∧
        ∃ before after, moves = before ++ .turn (.call c) :: after ∧ w₀.CancelledBy before c b a) ∧
    (∀ c a o, w.phaseOf c = .waiting a o → w.hasFired a.cancel = false → ∀ k,
      ((w.step (.turn (.call c))).phaseOf c = .finished (.failed (.cancelled k)) ↔
        w.announcedBy o = some (.failed (.cancelled k)))) ∧
    ((∀ before after c a o, moves = before ++ .turn (.call c) :: after →
        (w₀.run before).phaseOf c = .waiting a o → (w₀.run before).hasFired a.cancel = false →
        ∀ k, (w₀.run before).announcedBy o ≠ some (.failed (.cancelled k))) →
      ∀ c b a k, w₀.wishOf c moves = some (b, a) →
        w.phaseOf c = .finished (.failed (.cancelled k)) → w.hasFired a.cancel) := by
  intro w₀ w
  have origin : ∀ c b a k, w₀.wishOf c moves = some (b, a) →
      w.phaseOf c = .finished (.failed (.cancelled k)) → k = a.key ∧
        ∃ before after, moves = before ++ .turn (.call c) :: after ∧ w₀.CancelledBy before c b a := by
    intro c b a k made ends
    obtain ⟨before, m, after, rfl, pursues, broker, pending, actor, same⟩ :=
      exists_end (Nat.zero_le c) made (by rw [ends]; rfl)
    have h : w₀.Heedful before := heedful_fresh configs desk terms fun b gated errand hm =>
      plain b gated errand (List.mem_append_left _ hm)
    have ends' := same.trans ends
    obtain ⟨key, why⟩ := h.cancels ((faithful_fresh configs desk terms).run before) pursues broker
      pending actor ends'
    obtain rfl := turn_of_finished pending actor ends'
    exact ⟨key, before, after, rfl, why⟩
  refine ⟨origin, fun c a o hp unfired k => cancels_waiter_iff hp unfired, ?_⟩
  intro untold c b a k made ends
  obtain ⟨-, before, after, split, why⟩ := origin c b a k made ends
  cases why with
  | own fired =>
    cases later : w.hasFired a.cancel with
    | true => rfl
    | false =>
      rw [show w = (w₀.run before).run (.turn (.call c) :: after) by
        rw [← run_append, ← split]] at later
      rw [hasFired_run _ later] at fired
      cases fired
  | opener waits unfired _ _ _ _ told => exact absurd told (untold before after c a _ split waits unfired _)

/-- Two calls for the sample source, one with a token; it opens and the other waits, and its token fires
while the tuner is asked. -/
def openerIsCancelled : List Move :=
  [.start 0 false (.acquire (.ofRequest sampleRequest (some 0) {})), .turn (.call 0),
    .start 0 false sampleErrand, .turn (.call 1), .turn (.call 0), .cancel 0, .turn (.call 0),
    .turn (.call 1)]

theorem plain_openerIsCancelled : ∀ b gated errand,
    Move.start b gated errand ∈ openerIsCancelled → errand.IsPlain := by
  intro b gated errand hm
  simp only [openerIsCancelled, sampleErrand, List.mem_cons, Move.start.injEq, reduceCtorEq, false_or,
    List.not_mem_nil, or_false] at hm
  rcases hm with ⟨-, -, rfl⟩ | ⟨-, -, rfl⟩ <;> exact ⟨_, _, _, rfl⟩

theorem cancelled_by_token_openerIsCancelled :
    (∀ b gated errand, .start b gated errand ∈ openerIsCancelled → errand.IsPlain) ∧
    ((fresh [{}] {} []).run openerIsCancelled).phaseOf 1 =
      .finished (.failed (.cancelled sampleRequest.key)) ∧
    ∃ before after, openerIsCancelled = before ++ .turn (.call 1) :: after ∧
      (fresh [{}] {} []).CancelledBy before 1 0 (.ofRequest sampleRequest none {}) := by
  obtain ⟨origin, -⟩ := cancelled_by_token [{}] {} [] openerIsCancelled plain_openerIsCancelled
  exact ⟨plain_openerIsCancelled, rfl, (origin 1 0 _ _ rfl rfl).2⟩

/-- The one that waits has no token, and returns a cancellation all the same. -/
theorem cancelled_without_token :
    ¬ ∀ moves : List Move, (∀ b gated errand, .start b gated errand ∈ moves → errand.IsPlain) →
      ∀ c b a k, (fresh [{}] {} []).wishOf c moves = some (b, a) →
        ((fresh [{}] {} []).run moves).phaseOf c = .finished (.failed (.cancelled k)) →
        ((fresh [{}] {} []).run moves).hasFired a.cancel := by
  intro claim
  have fired := claim openerIsCancelled plain_openerIsCancelled 1 0 (.ofRequest sampleRequest none {})
    sampleRequest.key rfl rfl
  cases fired

end System

end TunerBroker
