import TunerBroker.Proofs.Invariants.Flight

/-! What a call was made for stays with it: its broker, what it wants until it is over, and the request
of the stream it opens. -/

namespace TunerBroker

/-- Two streams were made alike: for one request, and both shareable or both exclusive. -/
structure Stream.MadeAlike (x y : Stream) : Prop where
  request : y.request = x.request
  sharing : y.sharing = x.sharing

theorem Stream.MadeAlike.trans {x y z : Stream} (h : MadeAlike x y) (g : MadeAlike y z) :
    MadeAlike x z := ⟨g.request.trans h.request, g.sharing.trans h.sharing⟩

theorem Stream.Kin.madeAlike {x y : Stream} (h : Kin x y) : MadeAlike x y := ⟨h.request, h.sharing⟩

/-- What an errand wants, if it is to be given a consumer. -/
def Errand.wish? : Errand → Option Acquisition
  | acquire a | enter _ a => some a
  | _ => none

namespace System

variable {m : Move} {w w' : System} {b : BrokerId} {c : CallId} {s : StreamId} {a : Acquisition}
  {f : Stream → Stream} {p : Phase}

theorem request_setStream (hf : ∀ x : Stream, (f x).request = x.request) (t : StreamId) :
    ((w.setStream s f).stream t).request = (w.stream t).request := by
  rw [stream_setStream]
  split
  · exact hf _
  · rfl

theorem madeAlike_setStream (hf : ∀ x : Stream, x.MadeAlike (f x)) (t : StreamId) :
    (w.stream t).MadeAlike ((w.setStream s f).stream t) := by
  rw [stream_setStream]
  split
  · exact hf _
  · exact ⟨rfl, rfl⟩

/-- Streams stay as they were made. -/
theorem Change.madeAlike (hc : Change m w w') (hs : s < w.streams.size) :
    (w.stream s).MadeAlike (w'.stream s) := by
  have counted : ∀ {v : System} {t : StreamId} (g : Stream → UInt32),
      (v.stream s).MadeAlike ((v.setStream t fun x => { x with consumers := g x }).stream s) :=
    fun g => madeAlike_setStream (by exact fun _ => ⟨rfl, rfl⟩) s
  cases hc with
  | stay | drop | go | miss | refuse | sweep | demoteJoin => exact ⟨rfl, rfl⟩
  | begin => rw [stream_begin]; exact ⟨rfl, rfl⟩
  | make => rw [stream_addStream, if_neg (Nat.ne_of_lt hs)]; exact ⟨rfl, rfl⟩
  | work actor work => exact (work.frame.kin s).madeAlike
  | giveUp actor place work => exact (work.frame.kin s).madeAlike
  | demote | «open» => rw [stream_beginOpen, if_neg (Nat.ne_of_lt hs)]; exact ⟨rfl, rfl⟩
  | letGo | provide => exact madeAlike_setStream (by exact fun _ => ⟨rfl, rfl⟩) s
  | reuse => exact counted fun x => x.consumers + 1
  | detach | last => exact counted (v := w) fun x => x.consumers - 1
  | register actor place work =>
    exact (work.frame.kin s).madeAlike.trans (counted fun x => x.consumers + 1)

theorem madeAlike_step (hs : s < w.streams.size) :
    (w.stream s).MadeAlike ((w.step m).stream s) := by
  obtain ⟨w₁, w₂, h₁, hc, h₂⟩ := step_books w m
  have hs₁ : s < w₁.streams.size := by rwa [h₁.frame.streams]
  exact ((h₁.frame.kin s).madeAlike.trans (hc.madeAlike hs₁)).trans (h₂.frame.kin s).madeAlike

/-- Streams keep the request they were made for. -/
theorem request_step (hs : s < w.streams.size) :
    ((w.step m).stream s).request = (w.stream s).request := (madeAlike_step hs).request

/-- Calls keep the broker they were made on. -/
theorem Change.brokerOf (hc : Change m w w') (hlt : c < w.calls.size) :
    w'.brokerOf c = w.brokerOf c := by
  cases hc with
  | stay | make | letGo | drop => rfl
  | begin => rw [brokerOf_begin, if_neg (Nat.ne_of_lt hlt)]
  | work actor work => rw [brokerOf_setPhase, work.frame.brokerOf]
  | giveUp actor place work =>
    rw [brokerOf_endOpen, brokerOf_setPhase, work.frame.brokerOf]
  | register actor place work =>
    rw [brokerOf_attach, brokerOf_endOpen, brokerOf_setStream, work.frame.brokerOf]
  | demote | «open» => rw [brokerOf_beginOpen]
  | reuse => rw [brokerOf_attach, brokerOf_setStream]
  | go | provide | demoteJoin | miss | refuse | detach | last => exact brokerOf_setPhase _ _ _ _
  | sweep => rw [brokerOf_sweep]

theorem Change.size (hc : Change m w w') : w.calls.size ≤ w'.calls.size := by
  cases hc with
  | stay | make | letGo | drop => exact Nat.le_refl _
  | begin =>
    rw [calls_begin, calls_size_addCall]
    exact Nat.le_succ _
  | work actor work => rw [calls_size_setPhase, work.frame.calls]
  | giveUp actor place work => rw [calls_endOpen, calls_size_setPhase, work.frame.calls]
  | register actor place work => rw [calls_size_attach, calls_endOpen, calls_setStream, work.frame.calls]
  | demote | «open» => rw [calls_size_beginOpen]
  | reuse => rw [calls_size_attach, calls_setStream]
  | go | provide | demoteJoin | miss | refuse | detach | last =>
    exact (calls_size_setPhase _ _ _).ge
  | sweep => exact (calls_size_setPhase _ _ _).ge

/-- No broker comes or goes. -/
theorem Change.brokers (hc : Change m w w') : w'.brokers.size = w.brokers.size := by
  cases hc with
  | stay | make | letGo | drop | go | provide | reuse | miss | refuse | detach => rfl
  | begin => rw [brokers_begin]
  | work actor work => exact work.frame.brokers
  | giveUp actor place work =>
    rw [brokers_size_endOpen]
    exact work.frame.brokers
  | register actor place work =>
    rw [brokers_attach, brokers_size_endOpen]
    exact work.frame.brokers
  | demote | «open» => rw [brokers_size_beginOpen]
  | demoteJoin => rw [brokers_setPhase, brokers_size_putSlot]
  | last => rw [brokers_setPhase, brokers_size_putSlot, brokers_setStream, brokers_setStanding]
  | sweep => rw [brokers_size_sweep]

theorem brokers_size_run (w : System) (moves : List Move) :
    (w.run moves).brokers.size = w.brokers.size := by
  induction moves generalizing w with
  | nil => rfl
  | cons m moves ih =>
    obtain ⟨w₁, w₂, h₁, hc, h₂⟩ := step_books w m
    exact (ih (w.step m)).trans (h₂.frame.brokers.trans (hc.brokers.trans h₁.frame.brokers))

/-- A call wants what it was made for until it is over. -/
theorem Change.wish (hc : Change m w w') (hlt : c < w.calls.size) :
    (w'.phaseOf c).wish? = none ∨ (w'.phaseOf c).wish? = (w.phaseOf c).wish? := by
  have moved : ∀ {v : System} {d : CallId} {p : Phase}, v.phaseOf c = w.phaseOf c →
      (c = d → p.wish? = none ∨ p.wish? = (w.phaseOf d).wish?) →
      ((v.setPhase d p).phaseOf c).wish? = none ∨
        ((v.setPhase d p).phaseOf c).wish? = (w.phaseOf c).wish? := by
    intro v d p hv hp
    rcases v.setPhase_cases d c p with h | ⟨rfl, h⟩ <;> rw [h]
    · exact .inr (by rw [hv])
    · exact hp rfl
  cases hc with
  | stay | make | letGo | drop => exact .inr rfl
  | begin =>
    rw [phaseOf_begin, if_neg (Nat.ne_of_lt hlt)]
    exact .inr rfl
  | go actor leads => exact moved rfl fun _ => leads.wish
  | work actor work held leads => exact moved (work.frame.phaseOf c) fun _ => leads.wish
  | provide place => exact moved rfl fun _ => .inr (by rw [place]; rfl)
  | demote place | «open» place => exact moved rfl fun _ => .inr (by rw [place]; rfl)
  | demoteJoin place => exact moved rfl fun _ => .inr (by rw [place]; rfl)
  | reuse | miss | refuse | detach | last | sweep => exact moved rfl fun _ => .inl rfl
  | register actor place work => exact moved (work.frame.phaseOf c) fun _ => .inl rfl
  | giveUp actor place work exit =>
    exact moved (work.frame.phaseOf c) fun _ => .inl (by cases exit <;> rfl)

theorem wish_step (hc : c < w.calls.size) (m : Move) :
    ((w.step m).phaseOf c).wish? = none ∨ ((w.step m).phaseOf c).wish? = (w.phaseOf c).wish? := by
  obtain ⟨w₁, w₂, h₁, hc', h₂⟩ := step_books w m
  rw [h₂.frame.phaseOf, ← h₁.frame.phaseOf c]
  exact hc'.wish (by rw [h₁.frame.calls]; exact hc)

/-- The call `c` was made on the broker `b` and still wants `a`, if it wants anything. -/
structure Wants (w : System) (c : CallId) (b : BrokerId) (a : Acquisition) : Prop where
  lt : c < w.calls.size
  broker : w.brokerOf c = b
  wish : ∀ x, (w.phaseOf c).wish? = some x → x = a

namespace Wants

theorem frame {S : Set StreamId} (h : w.Wants c b a) (g : Frame S w w') : w'.Wants c b a where
  lt := by rw [g.calls]; exact h.lt
  broker := by rw [g.brokerOf]; exact h.broker
  wish x hx := h.wish x (by rwa [g.phaseOf] at hx)

theorem change (h : w.Wants c b a) (hc : Change m w w') : w'.Wants c b a where
  lt := Nat.lt_of_lt_of_le h.lt hc.size
  broker := (hc.brokerOf h.lt).trans h.broker
  wish x hx := by
    rcases hc.wish h.lt with hn | he
    · rw [hn] at hx
      cases hx
    · exact h.wish x (he ▸ hx)

theorem step (h : w.Wants c b a) (m : Move) : (w.step m).Wants c b a := by
  obtain ⟨w₁, w₂, h₁, hc, h₂⟩ := step_books w m
  exact ((h.frame h₁.frame).change hc).frame h₂.frame

theorem run (h : w.Wants c b a) (moves : List Move) : (w.run moves).Wants c b a := by
  induction moves generalizing w with
  | nil => exact h
  | cons m moves ih => exact ih (h.step m)

end Wants

theorem wants_start {gated : Bool} {errand : Errand} (hb : b < w.brokers.size)
    (source : errand.wish? = some a) :
    (w.step (.start b gated errand)).Wants w.calls.size b a := by
  have allowed : errand.isAllowed w b := by
    cases errand <;> simp_all [Errand.wish?, Errand.isAllowed]
  simp only [System.step, start, allowed, if_true]
  refine ⟨by rw [calls_begin, calls_size_addCall]; exact Nat.lt_succ_self _,
    by rw [brokerOf_begin, if_pos rfl], fun x hx => ?_⟩
  rw [phaseOf_begin, if_pos rfl] at hx
  cases errand <;> simp_all [Errand.wish?, Errand.origin, Phase.wish?]

/-! ### Streams of opens -/

/-- An open that has no work of its own opens a stream made as it was planned. -/
structure Faithful (w : System) : Prop where
  opens : ∀ {c a s moves wait}, w.phaseOf c = .opening a s moves wait → a.plan.outside = false →
    wait ≠ .outside ∧ s < w.streams.size ∧
      (Stream.ofRequest a.plan.request a.plan.config).MadeAlike (w.stream s)

theorem faithful_fresh (configs : List BrokerConfig) (desk : AccessDesk) (terms : List TunerTerms) :
    (fresh configs desk terms).Faithful := ⟨by rintro _ _ _ _ _ ⟨⟩⟩

namespace Faithful

theorem frame {S : Set StreamId} (h : w.Faithful) (g : Frame S w w') : w'.Faithful where
  opens {c a s moves wait} hp ho := by
    rw [g.phaseOf] at hp
    rw [g.streams]
    obtain ⟨hw, hs, made⟩ := h.opens hp ho
    exact ⟨hw, hs, made.trans (g.kin s).madeAlike⟩

/-- One call goes on, and if it opens a stream, that is one it was opening or a new one. -/
theorem move (h : w.Faithful) (phase : ∀ c', w'.phaseOf c' = w.phaseOf c' ∨ c' = c ∧ w'.phaseOf c' = p)
    (size : w.streams.size ≤ w'.streams.size)
    (alike : ∀ s < w.streams.size, (w.stream s).MadeAlike (w'.stream s))
    (opening : ∀ {a s moves wait}, p = .opening a s moves wait → a.plan.outside = false →
      wait ≠ .outside ∧ ((∃ l v, w.phaseOf c = .opening a s l v) ∨ s < w'.streams.size ∧
        (Stream.ofRequest a.plan.request a.plan.config).MadeAlike (w'.stream s))) :
    w'.Faithful where
  opens {c' a s moves wait} hp ho := by
    rcases phase c' with he | ⟨rfl, he⟩ <;> rw [he] at hp
    · obtain ⟨hw, hs, made⟩ := h.opens hp ho
      exact ⟨hw, Nat.lt_of_lt_of_le hs size, made.trans (alike s hs)⟩
    · obtain ⟨hw, ⟨l, v, hl⟩ | ⟨hs, made⟩⟩ := opening hp ho
      · obtain ⟨-, hs, made⟩ := h.opens hl ho
        exact ⟨hw, Nat.lt_of_lt_of_le hs size, made.trans (alike s hs)⟩
      · exact ⟨hw, hs, made⟩

theorem leads {q : Phase} (h : (w.phaseOf c).Leads q) {moves : List OpenMove} {wait : OpenWait}
    (hq : q = .opening a s moves wait) : wait ≠ .outside ∧ ∃ l v, w.phaseOf c = .opening a s l v := by
  subst hq
  have opens := h.opens
  have owns := h.owns
  have outside := h.outside
  refine ⟨by rintro rfl; simp [Phase.isOutside] at outside, ?_⟩
  cases hp : w.phaseOf c <;> simp_all [Phase.opens?, Phase.owns]

theorem beginOpen {x : Slot} (h : w.Faithful) : (w.beginOpen c a x).Faithful := by
  refine h.move (c := c) (p := w.openingPhase a) (fun _ => setPhase_cases _ _ _ _) (by simp)
    (fun s hs => by rw [stream_beginOpen, if_neg (Nat.ne_of_lt hs)]; exact ⟨rfl, rfl⟩)
    fun hp ho => ?_
  obtain ⟨rfl, rfl, -, hw⟩ := Phase.opening.inj hp
  rw [ho] at hw
  refine ⟨by rw [← hw]; rintro ⟨⟩, .inr ⟨by simp, ?_⟩⟩
  rw [stream_beginOpen, if_pos rfl]
  exact ⟨rfl, rfl⟩

theorem change (h : w.Faithful) (hc : Change m w w') : w'.Faithful := by
  have alike : ∀ s < w.streams.size, (w.stream s).MadeAlike (w'.stream s) := fun s hs =>
    hc.madeAlike hs
  cases hc with
  | stay => exact h
  | @begin b gated errand allowed =>
    refine h.move (c := w.calls.size) (p := errand.origin) (fun c' => ?_) (by simp) alike
      (by cases errand <;> simp [Errand.origin])
    rw [phaseOf_begin]
    split
    · exact .inr ⟨‹_›, rfl⟩
    · exact .inl rfl
  | make | letGo | drop =>
    exact h.move (c := 0) (p := .abandoned) (fun _ => .inl rfl) (by simp) alike (by simp)
  | go actor leads =>
    refine h.move (fun _ => setPhase_cases _ _ _ _) (by simp) alike fun hp _ => ?_
    exact ⟨(Faithful.leads leads hp).1, .inl (Faithful.leads leads hp).2⟩
  | work actor work held leads =>
    rw [← work.frame.phaseOf] at leads
    refine (h.frame work.frame).move (fun _ => setPhase_cases _ _ _ _) (by simp) (fun _ _ => ⟨rfl, rfl⟩)
      fun hp _ => ?_
    exact ⟨(Faithful.leads leads hp).1, .inl (Faithful.leads leads hp).2⟩
  | @provide c a s t moves place free =>
    refine h.move (fun _ => setPhase_cases _ _ _ _) (by simp) alike fun hp ho => ?_
    obtain ⟨rfl, -⟩ := Phase.opening.inj hp
    exact absurd rfl (h.opens place ho).1
  | demote place | «open» place => exact h.beginOpen
  | demoteJoin | reuse | miss | refuse | detach | last | sweep =>
    exact h.move (fun _ => setPhase_cases _ _ _ _) (by simp) alike (by simp)
  | register actor place work =>
    exact (h.frame work.frame).move (fun _ => setPhase_cases _ _ _ _) (by simp)
      (fun s _ => madeAlike_setStream (by exact fun _ => ⟨rfl, rfl⟩) s) (by simp)
  | giveUp actor place work exit =>
    exact (h.frame work.frame).move (fun _ => setPhase_cases _ _ _ _) (by simp)
      (fun _ _ => ⟨rfl, rfl⟩) (by cases exit <;> simp)

theorem step (h : w.Faithful) (m : Move) : (w.step m).Faithful := by
  obtain ⟨w₁, w₂, h₁, hc, h₂⟩ := step_books w m
  exact ((h.frame h₁.frame).change hc).frame h₂.frame

theorem run (h : w.Faithful) (moves : List Move) : (w.run moves).Faithful := by
  induction moves generalizing w with
  | nil => exact h
  | cons m moves ih => exact ih (h.step m)

end Faithful

end System

end TunerBroker
