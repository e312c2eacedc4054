import TunerBroker.Proofs.Consumers.Attachment

/-! What is left of consumers that have been released or whose streams were swept. Such a consumer keeps
nothing on a list; a slot that lists nothing and has no open in flight is gone; and the stream that a
call has to itself has consumers of the broker of that call only. -/

namespace TunerBroker

/-- A consumer keeps its place, and stays released once it is. -/
structure Consumer.Follows (x y : Consumer) : Prop where
  broker : y.broker = x.broker
  stream : y.stream = x.stream
  key : y.key = x.key
  released : x.standing = .released → y.standing = .released

theorem Consumer.Follows.refl (x : Consumer) : Follows x x := ⟨rfl, rfl, rfl, id⟩

theorem Consumer.Follows.trans {x y z : Consumer} (h : Follows x y) (g : Follows y z) : Follows x z :=
  ⟨g.broker.trans h.broker, g.stream.trans h.stream, g.key.trans h.key,
    fun hx => g.released (h.released hx)⟩

namespace System

variable {m : Move} {w w' : System} {b : BrokerId} {k : SourceKey} {c : CallId} {s : StreamId}
  {i j : ConsumerId} {x y : Consumer} {q : Standing}

/-! ### Consumers stay on record -/

theorem follows_setStanding (hx : w.consumers.get? i = some x)
    (hq : i = j → x.standing = .released → q = .released) :
    ∃ y, (w.setStanding j q).consumers.get? i = some y ∧ x.Follows y := by
  rw [get?_setStanding]
  split
  · exact ⟨{ x with standing := q }, by rw [hx]; rfl, rfl, rfl, rfl, hq ‹_›⟩
  · exact ⟨x, hx, .refl x⟩

theorem Change.consumer (hc : Change m w w') (l : w.Ledger) (hx : w.consumers.get? i = some x) :
    ∃ y, w'.consumers.get? i = some y ∧ x.Follows y := by
  have same : ∀ {v : System}, v.consumers = w.consumers → ∃ y, v.consumers.get? i = some y ∧
      x.Follows y := fun hv => ⟨x, by rw [hv]; exact hx, .refl x⟩
  have attach : ∀ {v : System} {c : CallId} {t : StreamId}, v.consumers = w.consumers →
      ∃ y, (v.attach c t).consumers.get? i = some y ∧ x.Follows y := by
    intro v c t hv
    rw [Ledger.get?_attach, hv, if_neg (Nat.ne_of_lt (Table.lt_size_of_get? hx))]
    exact ⟨x, hx, .refl x⟩
  have handed : ∀ {c k}, w.phaseOf c = .releasing k → i = k → x.standing ≠ .released := by
    rintro c k hp rfl hr
    obtain ⟨y, hy, hst⟩ := l.handed (c := c) (i := i) (by rw [hp]; rfl)
    obtain rfl : x = y := Option.some.inj (hx.symm.trans hy)
    rw [hr] at hst
    cases hst
  cases hc with
  | stay | make | letGo | go | provide | demote | demoteJoin | «open» | miss | sweep => exact same rfl
  | @begin b gated errand allowed start =>
    cases errand with
    | release k =>
      refine follows_setStanding (w := w.addCall _) hx ?_
      rintro rfl hr
      simp [Errand.isAllowed, hx, hr] at allowed
    | _ => exact same rfl
  | drop there held =>
    refine follows_setStanding hx ?_
    rintro rfl hr
    obtain rfl := Option.some.inj (hx.symm.trans there)
    rw [hr] at held
    cases held
  | work actor work => exact same work.frame.consumers
  | giveUp actor place work => exact same work.frame.consumers
  | reuse => exact attach rfl
  | register actor place work => exact attach work.frame.consumers
  | refuse place => exact follows_setStanding hx fun he hr => absurd hr (handed place he)
  | detach | last => exact follows_setStanding hx fun _ _ => rfl

theorem consumer_step (l : w.Ledger) (g : w.Sound) (m : Move) (hx : w.consumers.get? i = some x) :
    ∃ y, (w.step m).consumers.get? i = some y ∧ x.Follows y := by
  obtain ⟨w₁, w₂, h₁, hc, h₂⟩ := step_books w m
  rw [← h₁.frame.consumers] at hx
  rw [h₂.frame.consumers]
  exact hc.consumer (l.frame g.custody h₁.frame) hx

theorem consumer_run (l : w.Ledger) (g : w.Sound) (moves : List Move)
    (hx : w.consumers.get? i = some x) : ∃ y, (w.run moves).consumers.get? i = some y ∧ x.Follows y := by
  induction moves generalizing w x with
  | nil => exact ⟨x, hx, .refl x⟩
  | cons m moves ih =>
    obtain ⟨y, hy, hxy⟩ := consumer_step l g m hx
    obtain ⟨z, hz, hyz⟩ := ih (l.step g m) (g.step m) hy
    exact ⟨z, hz, hxy.trans hyz⟩

/-! ### Consumers that are done with -/

/-- The call is about to release the consumer to its broker, or to sweep its stream off the list. -/
def Discharges (w : System) (c : CallId) (i : ConsumerId) : Prop :=
  ∃ x, w.consumers.get? i = some x ∧ w.brokerOf c = x.broker ∧
    (w.phaseOf c = .releasing i ∨ w.phaseOf c = .sweepStart ∧ ∃ k, x.stream ∈ w.listedAt x.broker k)

/-- In the course of the run the consumer is released to its broker or its stream is swept. -/
def IsDischarged (w : System) (moves : List Move) (i : ConsumerId) : Prop :=
  ∃ before c after, moves = before ++ .turn (.call c) :: after ∧ (w.run before).Discharges c i

theorem spent_of_unlisted (hx : w.consumers.get? i = some x)
    (unlisted : ∀ b k, x.stream ∉ (w.slot b k).streams) : w.Spent x.stream where
  used := Nat.pos_iff_ne_zero.1 (List.countP_pos_iff.2
    ⟨x, (Table.mem_entries_iff _ _).2 ⟨i, hx⟩, by simp⟩)
  unlisted := unlisted

theorem step_releasing (hp : w.phaseOf c = .releasing i) :
    w.step (.turn (.call c)) = w.release c i := by
  simp [step, System.turn, ready, phaseReady, turnCall, hp]

/-- A release of a consumer whose stream the broker lists is let through. -/
theorem released_of_listed (l : w.Ledger) (g : w.Sound) (bound : w.attachments x.stream < 2 ^ 32)
    (hp : w.phaseOf c = .releasing i) (hx : w.consumers.get? i = some x)
    (listed : x.stream ∈ (w.slot (w.brokerOf c) k).streams) :
    ∃ y, (w.step (.turn (.call c))).consumers.get? i = some y ∧ y.standing = .released := by
  have key : x.key = k := (l.placed hx).2.trans ((g.flight.order _ _).connected _ listed).2
  have held : w.isHeld x.stream := isHeld_of_listed listed
  have registered : (w.slot (w.brokerOf c) x.key).isRegistered x.stream :=
    (Slot.isRegistered_iff _ _).2 (key ▸ listed)
  have counted : (w.stream x.stream).consumers ≠ 0 := (l.counted listed).consumers_ne_zero bound
  have standing : (w.setStanding i .released).consumers.get? i =
      some { x with standing := .released } := by
    rw [get?_setStanding, if_pos rfl, hx]
    rfl
  refine ⟨{ x with standing := .released }, ?_, rfl⟩
  rw [step_releasing hp]
  simp only [release, hx, held, registered, counted, Bool.not_true, Bool.false_eq_true, if_false]
  split
  · exact standing
  · exact standing

/-- A stream that a sweep takes off its list has left for good. -/
theorem spent_of_sweep (l : w.Ledger) (g : w.Sound) (hp : w.phaseOf c = .sweepStart)
    (listed : s ∈ (w.slot (w.brokerOf c) k).streams) : (w.step (.turn (.call c))).Spent s := by
  have turn : w.step (.turn (.call c)) = w.sweep c := by
    simp [System.step, System.turn, ready, phaseReady, turnCall, hp]
  refine spent_of_delisted l g (b := w.brokerOf c) (k := k) listed ?_
  rw [turn, listedAt, slot_sweep, if_pos rfl]
  simp [Slot.streams]

/-- The turn that discharges a consumer releases it, or leaves its stream unlisted for good. -/
theorem Discharges.step (h : w.Discharges c i) (l : w.Ledger) (g : w.Sound)
    (bound : ∀ s, w.attachments s < 2 ^ 32) : ∃ y, (w.step (.turn (.call c))).consumers.get? i = some y ∧
      (y.standing = .released ∨ (w.step (.turn (.call c))).Spent y.stream) := by
  obtain ⟨x, hx, hb, hd⟩ := h
  obtain ⟨y, hy, follows⟩ := consumer_step l g (.turn (.call c)) hx
  refine ⟨y, hy, ?_⟩
  by_cases listed : ∃ b k, x.stream ∈ (w.slot b k).streams
  · obtain ⟨b, k, listed⟩ := listed
    obtain rfl : w.brokerOf c = b := hb.trans (l.home hx listed)
    rcases hd with hp | ⟨hp, -⟩
    · obtain ⟨z, hz, released⟩ := released_of_listed l g (bound _) hp hx listed
      obtain rfl : y = z := Option.some.inj (hy.symm.trans hz)
      exact .inl released
    · exact .inr (follows.stream ▸ spent_of_sweep l g hp listed)
  · have spent := spent_of_unlisted hx fun b k hs => listed ⟨b, k, hs⟩
    exact .inr (follows.stream ▸ (spent.step l g _).1)

/-- A consumer that was discharged in the course of a run keeps nothing on a list. -/
theorem IsDischarged.done {moves : List Move} (h : w.IsDischarged moves i) (l : w.Ledger) (g : w.Sound)
    (bound : ∀ s, (w.run moves).attachments s < 2 ^ 32) :
    ∃ y, (w.run moves).consumers.get? i = some y ∧
      (y.standing = .released ∨ ∀ b k, y.stream ∉ (w.run moves).listedAt b k) := by
  obtain ⟨before, c, after, rfl, hd⟩ := h
  have l₁ := l.run g before
  have g₁ := g.run before
  have split : w.run (before ++ .turn (.call c) :: after) =
      ((w.run before).step (.turn (.call c))).run after :=
    w.run_append before _
  rw [split] at bound ⊢
  obtain ⟨y, hy, done⟩ := hd.step l₁ g₁ fun s => Nat.lt_of_le_of_lt
    (((w.run before).attachments_le_step _ s).trans (attachments_le_run _ after s)) (bound s)
  obtain ⟨z, hz, follows⟩ := consumer_run (l₁.step g₁ _) (g₁.step _) after hy
  refine ⟨z, hz, done.imp follows.released fun spent => ?_⟩
  rw [follows.stream]
  exact (spent.run (l₁.step g₁ _) (g₁.step _) after).1.unlisted

/-! ### Slots that are kept -/

/-- No slot is kept that is empty. -/
def Trim (w : System) : Prop :=
  ∀ b k x, (w.broker b).slots.get? k = some x → x.isEmpty = false

namespace Trim

theorem putSlot {x : Slot} (h : w.Trim) : (w.putSlot b k x).Trim := by
  intro b' k' y hy
  rw [System.putSlot, slots_setSlots] at hy
  split at hy
  · split at hy
    · rw [Keyed.get?_erase] at hy
      split at hy
      · cases hy
      · exact h b' k' y hy
    · rename_i full
      rw [Keyed.get?_put] at hy
      split at hy
      · obtain rfl := Option.some.inj hy
        exact Bool.eq_false_of_not_eq_true full
      · exact h b' k' y hy
  · exact h b' k' y hy

theorem congr (h : w.Trim) (same : ∀ b, (w'.broker b).slots = (w.broker b).slots) : w'.Trim :=
  fun b k x hx => h b k x (by rwa [same] at hx)

theorem change (h : w.Trim) (hc : Change m w w') : w'.Trim := by
  cases hc with
  | stay | make | letGo | drop | go | provide | reuse | miss | refuse | detach =>
    exact h.congr fun _ => rfl
  | begin => exact h.congr fun b => by simp [System.broker]
  | work actor work => exact h.congr work.frame.slots
  | demote | demoteJoin | «open» => exact h.putSlot
  | @register w₁ c a s moves wait actor place work =>
    exact putSlot (w := w₁.setStream _ _) (h.congr work.frame.slots)
  | @giveUp w₁ c a s moves wait p actor place work =>
    exact putSlot (w := w₁.setPhase _ _) (h.congr work.frame.slots)
  | last => exact putSlot (w := (w.setStanding _ _).setStream _ _) h
  | @sweep c turn place =>
    intro b k x hx
    rw [System.sweep, broker_setPhase, slots_setSlots] at hx
    split at hx
    · rw [Keyed.get?_filterMap, Option.bind_eq_some_iff] at hx
      obtain ⟨y, -, hy⟩ := hx
      split at hy
      · rename_i marked
        obtain rfl := Option.some.inj hy
        simp [Slot.isEmpty, Slot.takeStreams, marked]
      · cases hy
    · exact h b k x hx

theorem step (h : w.Trim) (m : Move) : (w.step m).Trim := by
  obtain ⟨w₁, w₂, h₁, hc, h₂⟩ := step_books w m
  exact ((h.congr h₁.frame.slots).change hc).congr h₂.frame.slots

theorem run (h : w.Trim) (moves : List Move) : (w.run moves).Trim := by
  induction moves generalizing w with
  | nil => exact h
  | cons m moves ih => exact ih (h.step m)

/-- A broker that lists nothing and opens nothing keeps no slot. -/
theorem pairs_eq_nil (h : w.Trim) (g : w.Sound) (unlisted : ∀ k, w.listedAt b k = [])
    (past : ∀ c, w.brokerOf c = b → (w.phaseOf c).isOver) : (w.broker b).slots.pairs = [] := by
  rw [List.eq_nil_iff_forall_not_mem]
  rintro ⟨k, x⟩ hp
  rw [Keyed.mem_pairs] at hp
  have slot : w.slot b k = x := by simp [System.slot, hp]
  have full := h b k x hp
  have none : x.hasStreams = false := Bool.eq_false_of_not_eq_true fun hs =>
    (Slot.hasStreams_iff x).1 hs (slot ▸ unlisted k)
  cases ho : x.opening with
  | none => simp [Slot.isEmpty, none, ho] at full
  | some c =>
    obtain ⟨hb, a, ha, -⟩ := (g.flight.marks b k c).1 (slot ▸ ho)
    have := past c hb
    cases hp : w.phaseOf c <;> simp_all [Phase.opens?, Phase.isOver]

end Trim

theorem trim_fresh (configs : List BrokerConfig) (desk : AccessDesk) (terms : List TunerTerms) :
    (fresh configs desk terms).Trim := by
  intro b k x hx
  have none : ((fresh configs desk terms).broker b).slots = {} := by
    simp only [System.broker, fresh, Table.get?, List.getElem?_map]
    cases configs[b]? <;> rfl
  rw [none] at hx
  cases hx

/-! ### Streams that calls have to themselves -/

/-- Consumers of a stream that a call has to itself are of the broker of that call. -/
structure Tended (w : System) : Prop where
  broker : ∀ {c i x}, x.stream ∈ (w.phaseOf c).owns → w.consumers.get? i = some x →
    x.broker = w.brokerOf c

namespace Tended

theorem frame {S : Set StreamId} (h : w.Tended) (g : Frame S w w') : w'.Tended where
  broker {c i x} hs hx := by
    rw [g.phaseOf] at hs
    rw [g.consumers] at hx
    rw [g.brokerOf]
    exact h.broker hs hx

/-- The consumer has come to `w'` from `w`, or no call has its stream to itself. -/
def Carried (w w' : System) (i : ConsumerId) (x : Consumer) : Prop :=
  (∃ y, w.consumers.get? i = some y ∧ y.stream = x.stream ∧ y.broker = x.broker) ∨
    ∀ c, x.stream ∉ (w'.phaseOf c).owns

theorem carried_of_same {v : System} (h : v.consumers = w.consumers) (hx : v.consumers.get? i = some x) :
    Carried w v i x := .inl ⟨x, h ▸ hx, rfl, rfl⟩

theorem carried_of_standing {v : System} (h : v.consumers = (w.setStanding j q).consumers)
    (hx : v.consumers.get? i = some x) : Carried w v i x := by
  rw [h, get?_setStanding] at hx
  split at hx
  · obtain ⟨y, hy, rfl⟩ := Option.map_eq_some_iff.1 hx
    exact .inl ⟨y, hy, rfl, rfl⟩
  · exact .inl ⟨x, hx, rfl, rfl⟩

theorem carried_of_attach {v : System} (h : v.consumers = w.consumers) (g : (v.attach c s).Sound)
    (listed : s ∈ (v.slot b k).streams) (hx : (v.attach c s).consumers.get? i = some x) :
    Carried w (v.attach c s) i x := by
  rw [Ledger.get?_attach] at hx
  split at hx
  · obtain rfl := Option.some.inj hx
    refine .inr fun c' ho => ?_
    cases g.custody.unique (o := .call c') ho (q := .slot b k) (s := s) listed
  · exact .inl ⟨x, h ▸ hx, rfl, rfl⟩

/-- One call goes on to `p`, and its new streams have consumers of its own broker only. -/
theorem move {p : Phase} (h : w.Tended)
    (phase : ∀ c', w'.phaseOf c' = w.phaseOf c' ∨ c' = c ∧ w'.phaseOf c' = p)
    (broker : ∀ c' < w.calls.size, w'.brokerOf c' = w.brokerOf c') (hc : p.owns ≠ [] → c < w.calls.size)
    (consumers : ∀ {i x}, w'.consumers.get? i = some x → Carried w w' i x)
    (owns : ∀ s ∈ p.owns, s ∈ (w.phaseOf c).owns ∨
      ∀ {i x}, w.consumers.get? i = some x → x.stream = s → x.broker = w.brokerOf c) : w'.Tended where
  broker {c' i x} hs hx := by
    rcases consumers hx with ⟨y, hy, hys, hyb⟩ | hn
    · rw [← hys] at hs
      rw [← hyb]
      rcases phase c' with hp | ⟨rfl, hp⟩ <;> rw [hp] at hs
      · rw [broker c' (w.lt_of_phaseOf _ fun he => by simp [he, Phase.owns] at hs)]
        exact h.broker hs hy
      · rw [broker c' (hc (List.ne_nil_of_mem hs))]
        rcases owns _ hs with ho | ho
        · exact h.broker ho hy
        · exact ho hy rfl
    · exact absurd hs (hn c')

/-- One call at most goes on, to a place where it has no stream to itself. -/
theorem rest {p : Phase} (h : w.Tended)
    (phase : ∀ c', w'.phaseOf c' = w.phaseOf c' ∨ c' = c ∧ w'.phaseOf c' = p)
    (broker : ∀ c' < w.calls.size, w'.brokerOf c' = w.brokerOf c') (none : p.owns = [])
    (consumers : ∀ {i x}, w'.consumers.get? i = some x → Carried w w' i x) : w'.Tended :=
  h.move phase broker (absurd none ·) consumers (by simp [none])

theorem change (h : w.Tended) (g : w.Sound) (l : w.Ledger) (hc : Change m w w') : w'.Tended := by
  have g' := g.change hc
  have broker : ∀ c < w.calls.size, w'.brokerOf c = w.brokerOf c := fun c => hc.brokerOf
  have lt : ∀ {c p}, w.phaseOf c = p → p ≠ .abandoned → c < w.calls.size := fun hp hn =>
    w.lt_of_phaseOf _ (hp ▸ hn)
  -- Nobody has been attached to a stream that is fresh, or that was never made.
  have fresh : ∀ {s i x}, w.attachments s = 0 → w.consumers.get? i = some x → x.stream ≠ s := by
    rintro s i x ha hx rfl
    have := List.countP_eq_zero.1 ha x ((Table.mem_entries_iff _ _).2 ⟨i, hx⟩)
    simp at this
  have begun : ∀ {c a x}, w.phaseOf c = .seeking a →
      (∀ c < w.calls.size, (w.beginOpen c a x).brokerOf c = w.brokerOf c) →
      (w.beginOpen c a x).Tended := by
    intro c a x hp broker
    refine h.move (c := c) (p := w.openingPhase a) (fun _ => setPhase_cases _ _ _ _) (by simp)
      (fun _ => lt hp (by rintro ⟨⟩)) (carried_of_same rfl) fun s hs => .inr fun {i y} hy hys => ?_
    obtain rfl := List.mem_singleton.1 hs
    exact absurd hys (Nat.ne_of_lt (l.placed hy).1)
  cases hc with
  | stay => exact h
  | @begin b gated errand allowed start =>
    refine h.rest (c := w.calls.size) (p := errand.origin) (fun c' => ?_) broker
      (by cases errand <;> rfl) ?_
    · rw [phaseOf_begin]
      split
      · exact .inr ⟨‹_›, rfl⟩
      · exact .inl rfl
    · cases errand with
      | release k => exact carried_of_standing (j := k) (q := .handedOver) rfl
      | _ => exact carried_of_same rfl
  | make | letGo =>
    exact h.rest (c := 0) (p := .abandoned) (fun _ => .inl rfl) broker rfl (carried_of_same rfl)
  | drop =>
    exact h.rest (c := 0) (p := .abandoned) (fun _ => .inl rfl) broker rfl (carried_of_standing rfl)
  | @go c p actor leads =>
    refine h.move (fun _ => setPhase_cases _ _ _ _) broker (fun hp => ?_) (carried_of_same rfl)
      fun s hs => .inl (leads.owns.subset hs)
    exact w.lt_of_phaseOf _ fun he => hp (by simpa [he, Phase.owns] using leads.owns)
  | @work w₁ c s p i j actor work held leads =>
    refine h.move (c := c) (p := p) (fun c' => ?_) broker
      (fun _ => w.lt_of_phaseOf _ fun he => by simp [he, Phase.holds] at held)
      (carried_of_same work.frame.consumers) fun s hs => .inl (leads.owns.subset hs)
    rw [← work.frame.phaseOf]
    exact setPhase_cases _ _ _ _
  | @provide c a s t moves place free =>
    refine h.move (fun _ => setPhase_cases _ _ _ _) broker (fun _ => lt place (by rintro ⟨⟩))
      (carried_of_same rfl) fun s hs => .inr fun {i y} hy hys => ?_
    obtain rfl := List.mem_singleton.1 hs
    exact absurd hys (fresh (l.fresh (.inl ((w.isFree_iff _).1 free).1)).2 hy)
  | demote place => exact begun place fun c _ => brokerOf_beginOpen _ _ _ _ _
  | «open» place => exact begun place fun c _ => brokerOf_beginOpen _ _ _ _ _
  | demoteJoin | miss =>
    exact h.rest (fun _ => setPhase_cases _ _ _ _) broker rfl (carried_of_same rfl)
  | refuse | detach =>
    exact h.rest (fun _ => setPhase_cases _ _ _ _) broker rfl (carried_of_standing rfl)
  | @reuse c a s place shared =>
    exact h.rest (fun _ => setPhase_cases _ _ _ _) broker rfl (carried_of_attach (v := w.setStream s _)
      (b := w.brokerOf c) (k := a.key) rfl g' ((Slot.mem_streams _ _).2 (.inl shared)))
  | @register w₁ c a s moves wait actor place work =>
    refine h.rest (c := c) (p := .finished (.attached w₁.consumers.size)) (fun c' => ?_) broker rfl
      (carried_of_attach (v := (w₁.setStream s _).endOpen c a.key (some s)) (b := w₁.brokerOf c)
        (k := a.key) work.frame.consumers g' ?_)
    · rw [← work.frame.phaseOf]
      exact setPhase_cases _ _ _ _
    · refine mem_streams_endOpen (w₁.setStream s _) a.key c s ?_
      rw [brokerOf_setStream, brokers_setStream, work.frame.brokerOf, work.frame.brokers]
      exact g.flight.seated c (by rw [place]; rfl)
  | @giveUp w₁ c a s moves wait p actor place work exit =>
    refine h.move (c := c) (p := p) (fun c' => ?_) broker (fun _ => lt place (by rintro ⟨⟩))
      (carried_of_same work.frame.consumers) fun t ht => .inl ?_
    · rw [← work.frame.phaseOf]
      exact setPhase_cases _ _ _ _
    · rw [exit.holds ((Phase.mem_holds _ _).2 (.inl ht)), place]
      exact List.mem_singleton_self s
  | @last c k x turn place there listed =>
    refine h.move (fun _ => setPhase_cases _ _ _ _) broker (fun _ => lt place (by rintro ⟨⟩))
      (carried_of_standing rfl) fun s hs => .inr fun {i y} hy hys => ?_
    obtain rfl := List.mem_singleton.1 hs
    exact l.home hy (hys ▸ (Slot.isRegistered_iff _ _).1 listed)
  | @sweep c turn place =>
    refine h.move (fun _ => setPhase_cases _ _ _ _) broker (fun _ => lt place (by rintro ⟨⟩))
      (carried_of_same rfl) fun s hs => .inr fun {i y} hy hys => ?_
    obtain ⟨k, hk⟩ := (w.mem_listed _ s).1 hs
    exact l.home hy (hys ▸ hk)

theorem step (h : w.Tended) (g : w.Sound) (l : w.Ledger) (m : Move) : (w.step m).Tended := by
  obtain ⟨w₁, w₂, h₁, hc, h₂⟩ := step_books w m
  exact (change (h.frame h₁.frame) (g.frame h₁.frame) (l.frame g.custody h₁.frame) hc).frame h₂.frame

theorem run (h : w.Tended) (g : w.Sound) (l : w.Ledger) (moves : List Move) : (w.run moves).Tended := by
  induction moves generalizing w with
  | nil => exact h
  | cons m moves ih => exact ih (h.step g l m) (g.step m) (l.step g m)

end Tended

theorem tended_fresh (configs : List BrokerConfig) (desk : AccessDesk) (terms : List TunerTerms) :
    (fresh configs desk terms).Tended := ⟨by rintro _ _ _ ⟨⟩⟩

end System

end TunerBroker
