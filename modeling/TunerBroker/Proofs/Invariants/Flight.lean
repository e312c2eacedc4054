import TunerBroker.Proofs.Invariants.Custody

/-! The mark of a slot and the streams it lists. The mark is that of the one call that is opening a
stream for the key, and while it is there nothing is on offer. Listed streams are connected, and those
kept beside the shared one are exclusive or have ended. -/

namespace TunerBroker

/-- A stream stays in its place in life and opens no feed. -/
structure Stream.Steady (x y : Stream) : Prop where
  request : y.request = x.request
  sharing : y.sharing = x.sharing
  lifecycle : y.lifecycle = x.lifecycle
  feed : y.feed → x.feed

theorem Stream.Steady.refl (x : Stream) : Steady x x := ⟨rfl, rfl, rfl, id⟩

namespace System

/-- A slot of a key is in order: nothing is on offer during an open, what is listed is connected under
the key, what is on offer may be shared, and what is not has ended or may not. -/
structure InOrder (w : System) (k : SourceKey) (x : Slot) : Prop where
  vacant : ∀ c, x.opening = some c → x.shared = none
  connected : ∀ s ∈ x.streams, (w.stream s).lifecycle = .connected ∧ (w.stream s).key = k
  sharing : ∀ s, x.shared = some s → (w.stream s).sharing
  spent : ∀ s ∈ x.unshared, (w.stream s).sharing → (w.stream s).feed = false

/-- The call is opening a stream for this key of this broker. -/
def Opens (w : System) (c : CallId) (b : BrokerId) (k : SourceKey) : Prop :=
  w.brokerOf c = b ∧ ∃ a, (w.phaseOf c).opens? = some a ∧ a.key = k

/-- The marks are those of the calls in flight, every slot is in order, and a call that has still to
look at a slot has a broker. -/
structure Flight (w : System) : Prop where
  marks : ∀ b k c, (w.slot b k).opening = some c ↔ w.Opens c b k
  order : ∀ b k, w.InOrder k (w.slot b k)
  seated : ∀ c, (w.phaseOf c).isSeated → w.brokerOf c < w.brokers.size

variable {m : Move} {w w' : System} {c : CallId} {a : Acquisition} {b : BrokerId}
  {k : SourceKey} {s : StreamId} {p : Phase} {f : Stream → Stream} {x y : Slot}

theorem Opens.lt (opens : w.Opens c b k) : c < w.calls.size := by
  obtain ⟨-, a, ha, -⟩ := opens
  refine w.lt_of_phaseOf c fun hn => ?_
  rw [hn] at ha
  cases ha

/-! ### One slot -/

namespace InOrder

theorem steady (h : w.InOrder k x) (hs : ∀ s ∈ x.streams, (w.stream s).Steady (w'.stream s)) :
    w'.InOrder k x where
  vacant := h.vacant
  connected s hm := by
    obtain ⟨h₁, h₂⟩ := h.connected s hm
    exact ⟨(hs s hm).lifecycle.trans h₁, by rw [Stream.key, (hs s hm).request]; exact h₂⟩
  sharing s hm := by
    rw [(hs s ((Slot.mem_streams _ _).2 (.inl hm))).sharing]
    exact h.sharing s hm
  spent s hm hsh := by
    have hs := hs s ((Slot.mem_streams _ _).2 (.inr hm))
    rw [hs.sharing] at hsh
    exact Bool.eq_false_of_not_eq_true fun hf => by simpa [h.spent s hm hsh] using hs.feed hf

/-- A slot that has nothing on offer may get a mark, or lose the one it has. -/
theorem mark (h : w.InOrder k x) (hx : x.shared = none) (o : Option CallId) :
    w.InOrder k { x with opening := o } :=
  ⟨fun _ _ => hx, h.connected, h.sharing, h.spent⟩

theorem demote (h : w.InOrder k x) (hs : x.shared = some s) (he : (w.stream s).isLive = false) :
    w.InOrder k x.demote where
  vacant _ _ := x.shared_demote
  connected t ht := h.connected t ((Slot.mem_streams_demote _ _).1 ht)
  sharing t ht := by simp at ht
  spent t ht hsh := by
    rcases (Slot.mem_unshared_demote _ _).1 ht with ht | ht
    · -- the stream is connected, so that it can only have ended
      obtain rfl : s = t := Option.some.inj (hs.symm.trans ht)
      have hc := (h.connected s ((Slot.mem_streams _ _).2 (.inl hs))).1
      cases hf : (w.stream s).feed with
      | false => rfl
      | true => simp [Stream.isLive, Stream.state, hc, hf, Lifecycle.state] at he
    · exact h.spent t ht hsh

theorem deregister (h : w.InOrder k x) : w.InOrder k (x.deregister s) := by
  have connected := fun t ht => h.connected t (Slot.mem_of_mem_deregister x s t ht)
  by_cases hs : x.shared = some s
  · rw [Slot.deregister, if_pos hs] at connected ⊢
    exact ⟨fun _ _ => rfl, connected, by rintro _ ⟨⟩, h.spent⟩
  · rw [Slot.deregister, if_neg hs] at connected ⊢
    exact ⟨h.vacant, connected, h.sharing, fun t ht => h.spent t (List.mem_filter.1 ht).1⟩

/-- A stream newly listed is on offer if it may be shared, as nothing else is. -/
theorem register (h : w.InOrder k x) (hx : x.shared = none) (ho : x.opening = none)
    (hc : (w.stream s).lifecycle = .connected) (hk : (w.stream s).key = k) :
    w.InOrder k (x.register s (w.stream s).sharing) where
  vacant c hm := by simp [ho] at hm
  connected t ht := by
    rcases (Slot.mem_streams_register _ _ _ _).1 ht with ht | rfl
    · exact h.connected t ht
    · exact ⟨hc, hk⟩
  sharing t ht := by
    rw [Slot.shared_register _ _ _ hx] at ht
    split at ht
    · exact Option.some.inj ht ▸ ‹_›
    · cases ht
  spent t ht hsh := by
    cases hs : (w.stream s).sharing with
    | false =>
      simp only [Slot.register, hs, Slot.keep, Bool.false_and, Bool.false_eq_true, if_false] at ht
      split at ht
      · exact h.spent t ht hsh
      · rcases List.mem_append.1 ht with ht | ht
        · exact h.spent t ht hsh
        · rw [List.mem_singleton.1 ht, hs] at hsh
          cases hsh
    | true =>
      simp only [Slot.register, hs, hx, Option.isNone_none, Bool.and_self, if_true] at ht
      exact h.spent t ht hsh

end InOrder

/-! ### All slots -/

namespace Flight

/-- Only an open in flight has its mark in a slot. -/
theorem opening_filter (h : w.Flight) (b : BrokerId) (k : SourceKey) :
    (w.slot b k).opening.filter w.inFlight = (w.slot b k).opening := by
  cases ho : (w.slot b k).opening with
  | none => rfl
  | some c =>
    obtain ⟨-, a, ha, -⟩ := (h.marks b k c).1 ho
    have : w.inFlight c := by simp [inFlight, ← Phase.opens?_isSome, ha]
    simp [this]

/-- The slots stay in order when each stays, the calls keep their opens and the listed streams stay in
their places. -/
theorem stay (h : w.Flight) (slots : ∀ b k, w'.slot b k = w.slot b k)
    (opens : ∀ c b k, w'.Opens c b k ↔ w.Opens c b k)
    (streams : ∀ b k, ∀ s ∈ (w.slot b k).streams, (w.stream s).Steady (w'.stream s))
    (seated : ∀ c, (w'.phaseOf c).isSeated → w'.brokerOf c < w'.brokers.size) : w'.Flight where
  marks b k c := by rw [slots, opens, h.marks]
  order b k := by
    rw [slots]
    exact (h.order b k).steady (streams b k)
  seated := seated

/-- The slots stay in order when one becomes `x` and the opens of calls change accordingly. -/
theorem relist (h : w.Flight) (b₀ : BrokerId) (k₀ : SourceKey)
    (slots : ∀ b k, w'.slot b k = if b = b₀ ∧ k = k₀ then x else w.slot b k)
    (opens : ∀ c b k, ¬(b = b₀ ∧ k = k₀) → (w'.Opens c b k ↔ w.Opens c b k))
    (marks : ∀ c, x.opening = some c ↔ w'.Opens c b₀ k₀) (order : w'.InOrder k₀ x)
    (streams : ∀ b k, ¬(b = b₀ ∧ k = k₀) → ∀ s ∈ (w.slot b k).streams,
      (w.stream s).Steady (w'.stream s))
    (seated : ∀ c, (w'.phaseOf c).isSeated → w'.brokerOf c < w'.brokers.size) : w'.Flight where
  marks b k c := by
    rw [slots]
    split
    · rename_i he
      rw [he.1, he.2]
      exact marks c
    · rw [opens c b k ‹_›, h.marks]
  order b k := by
    rw [slots]
    split
    · rename_i he
      rw [he.2]
      exact order
    · exact (h.order b k).steady (streams b k ‹_›)
  seated := seated

/-! ### The changes one by one -/

theorem opens_congr (hb : w'.brokerOf c = w.brokerOf c)
    (hp : (w'.phaseOf c).opens? = (w.phaseOf c).opens?) : w'.Opens c b k ↔ w.Opens c b k := by
  rw [Opens, Opens, hb, hp]

/-- One call goes on and keeps its open, if it has one. -/
theorem move (h : w.Flight) (slots : ∀ b k, w'.slot b k = w.slot b k)
    (hp : ∀ c', w'.phaseOf c' = w.phaseOf c' ∨ c' = c ∧ w'.phaseOf c' = p)
    (brokers : ∀ c, w'.brokerOf c = w.brokerOf c) (size : w'.brokers.size = w.brokers.size)
    (opens : p.opens? = (w.phaseOf c).opens?) (seated : p.isSeated → (w.phaseOf c).isSeated)
    (streams : ∀ b k, ∀ s ∈ (w.slot b k).streams, (w.stream s).Steady (w'.stream s)) :
    w'.Flight := by
  refine h.stay slots (fun c' b k => opens_congr (brokers c') ?_) streams fun c' hs => ?_
  · rcases hp c' with hq | ⟨rfl, hq⟩
    · rw [hq]
    · rw [hq, opens]
  · rw [brokers, size]
    rcases hp c' with hq | ⟨rfl, hq⟩ <;> rw [hq] at hs
    · exact h.seated c' hs
    · exact h.seated c' (seated hs)

theorem frame {S : Set StreamId} (h : w.Flight) (g : Frame S w w')
    (hS : ∀ s ∈ S, ∀ b k, s ∉ (w.slot b k).streams) : w'.Flight := by
  refine h.stay g.slot (fun c b k => opens_congr (g.brokerOf c) (by rw [g.phaseOf]))
    (fun b k s hs => ?_) fun c hs => ?_
  · have hn : s ∉ S := fun hm => hS s hm b k hs
    exact ⟨(g.kin s).request, (g.kin s).sharing, g.lifecycle s hn, g.feed s hn⟩
  · rw [g.brokerOf, g.brokers]
    exact h.seated c (by rwa [g.phaseOf] at hs)

theorem steady_setStream (hf : ∀ x : Stream, x.Steady (f x)) (t : StreamId) :
    (w.stream t).Steady ((w.setStream s f).stream t) := by
  rw [stream_setStream]
  split
  · exact hf _
  · exact .refl _

theorem begin {gated : Bool} {errand : Errand} (h : w.Flight) (allowed : errand.isAllowed w b) :
    (w.begin b gated errand).Flight := by
  have new : w.phaseOf w.calls.size = .abandoned := w.phaseOf_of_size_le _ (Nat.le_refl _)
  have none : errand.origin.opens? = none := by cases errand <;> rfl
  refine h.stay (by simp) (fun c b' k => ?_) (fun b' k s _ => by rw [stream_begin]; exact .refl _)
    fun c hs => ?_
  · by_cases hc : c = w.calls.size
    · subst hc
      rw [Opens, Opens, phaseOf_begin, if_pos rfl, none, new]
      simp [Phase.opens?]
    · exact opens_congr (by rw [brokerOf_begin, if_neg hc]) (by rw [phaseOf_begin, if_neg hc])
  · rw [phaseOf_begin] at hs
    rw [brokerOf_begin, brokers_begin]
    split at hs
    · cases errand <;> simp_all [Errand.origin, Phase.isSeated, Errand.isAllowed]
    · rw [if_neg ‹_›]
      exact h.seated c hs

/-- An open begins where nothing is on offer. -/
theorem beginOpen (h : w.Flight) (g : w.Custody) (hp : w.phaseOf c = .seeking a)
    (hv : (w.slot (w.brokerOf c) a.key).opening = none) (hx : x.shared = none)
    (hs : x.streams ⊆ (w.slot (w.brokerOf c) a.key).streams) (ho : w.InOrder a.key x) :
    (w.beginOpen c a x).Flight := by
  have hc : c < w.calls.size := w.lt_of_phaseOf _ (by simp [hp])
  have hb : w.brokerOf c < w.brokers.size := h.seated c (by simp [hp, Phase.isSeated])
  have phase : ∀ c', (w.beginOpen c a x).phaseOf c' =
      if c' = c then w.openingPhase a else w.phaseOf c' := by simp [phaseOf_beginOpen, hc]
  have steady : ∀ b k s, s ∈ (w.slot b k).streams →
      (w.stream s).Steady ((w.beginOpen c a x).stream s) := by
    intro b k s hs
    rw [stream_beginOpen, if_neg (Nat.ne_of_lt (g.made (o := .slot b k) hs))]
    exact .refl _
  refine h.relist (w.brokerOf c) a.key (x := { x with opening := some c })
    (fun b k => by simp [slot_beginOpen, hb]) (fun c' b k hn => ?_) (fun c' => ?_)
    ((ho.steady fun s hm => steady _ _ s (hs hm)).mark hx _) (fun b k _ => steady b k)
    fun c' hs => ?_
  · by_cases he : c' = c
    · subst he
      have : ¬(w.brokerOf c' = b ∧ a.key = k) := fun e => hn ⟨e.1.symm, e.2.symm⟩
      simpa [Opens, phase, hp, Phase.opens?, openingPhase] using this
    · exact opens_congr (by simp) (by rw [phase, if_neg he])
  · by_cases he : c' = c
    · subst he
      simp [Opens, phase, Phase.opens?, openingPhase]
    · have : ¬ w.Opens c' (w.brokerOf c) a.key := by simp [← h.marks, hv]
      rw [opens_congr (w := w) (by simp) (by rw [phase, if_neg he])]
      simpa [eq_comm, this] using he
  · rw [brokerOf_beginOpen, brokers_size_beginOpen]
    rw [phase] at hs
    split at hs
    · subst c'
      exact hb
    · exact h.seated c' hs

/-- What an open in flight finds in its slot. -/
theorem own_slot (h : w.Flight) (ho : (w.phaseOf c).opens? = some a) :
    (w.slot (w.brokerOf c) a.key).opening = some c ∧ (w.slot (w.brokerOf c) a.key).shared = none := by
  have hm := (h.marks (w.brokerOf c) a.key c).2 ⟨rfl, a, ho, rfl⟩
  exact ⟨hm, (h.order _ _).vacant c hm⟩

/-- An open ends, and the slot of its key becomes `x`. -/
theorem endOpen (h : w.Flight) (ho : (w.phaseOf c).opens? = some a)
    (slots : ∀ b k, w'.slot b k = if b = w.brokerOf c ∧ k = a.key then x else w.slot b k)
    (phase : ∀ c', w'.phaseOf c' = if c' = c then p else w.phaseOf c')
    (brokers : ∀ c, w'.brokerOf c = w.brokerOf c) (size : w'.brokers.size = w.brokers.size)
    (opens : p.opens? = none) (seated : p.isSeated = false) (hx : x.opening = none)
    (order : w'.InOrder a.key x)
    (streams : ∀ b k, ∀ s ∈ (w.slot b k).streams, (w.stream s).Steady (w'.stream s)) :
    w'.Flight := by
  have gone : ∀ b k, ¬ w'.Opens c b k := by
    rintro b k ⟨-, a', ha', -⟩
    simp [phase, opens] at ha'
  refine h.relist _ _ slots (fun c' b k hn => ?_) (fun c' => ?_) order (fun b k _ => streams b k)
    fun c' hs => ?_
  · by_cases he : c' = c
    · subst he
      refine iff_of_false (gone b k) ?_
      rintro ⟨hb, a', ha', hk⟩
      obtain rfl : a = a' := Option.some.inj (ho.symm.trans ha')
      exact hn ⟨hb.symm, hk.symm⟩
    · exact opens_congr (brokers c') (by rw [phase, if_neg he])
  · rw [hx]
    refine iff_of_false (by simp) ?_
    by_cases he : c' = c
    · exact he ▸ gone _ _
    · rw [opens_congr (brokers c') (by rw [phase, if_neg he]), ← h.marks, (h.own_slot ho).1]
      simpa [eq_comm] using he
  · rw [brokers, size]
    rw [phase] at hs
    split at hs
    · simp [seated] at hs
    · exact h.seated c' hs

theorem steady_count (g : Stream → UInt32) (s t : StreamId) : (w.stream t).Steady
    ((w.setStream s fun x => { x with consumers := g x }).stream t) := by
  refine steady_setStream (fun x => ?_) t
  exact ⟨rfl, rfl, rfl, id⟩

theorem giveUp {moves : List OpenMove} {wait : OpenWait} (h : w.Flight)
    (hp : w.phaseOf c = .opening a s moves wait) (exit : p.Exit s) :
    ((w.setPhase c p).endOpen c a.key none).Flight := by
  have hc : c < w.calls.size := w.lt_of_phaseOf _ (by simp [hp])
  have hb : w.brokerOf c < w.brokers.size := h.seated c (by simp [hp, Phase.isSeated])
  obtain ⟨hm, hv⟩ := h.own_slot (c := c) (a := a) (by rw [hp]; rfl)
  refine h.endOpen (c := c) (a := a) (p := p)
    (x := { w.slot (w.brokerOf c) a.key with opening := none }) (by rw [hp]; rfl) (fun b k => ?_)
    (fun c' => by simp [phaseOf_setPhase, hc]) (by simp) (by simp) (by cases exit <;> rfl)
    (by cases exit <;> rfl) rfl (((h.order _ _).mark hv none).steady fun _ _ => .refl _)
    fun _ _ _ _ => .refl _
  simp only [slot_endOpen, slot_setPhase, brokerOf_setPhase, brokers_setPhase, hb, and_true]
  split
  · rename_i he
    simp [he.1, he.2, endedSlot, hm]
  · rfl

theorem register {moves : List OpenMove} {wait : OpenWait} (h : w.Flight)
    (hp : w.phaseOf c = .opening a s moves wait) (key : (w.stream s).key = a.key)
    (connected : (w.stream s).lifecycle = .connected) :
    (((w.setStream s fun x => { x with consumers := x.consumers + 1 }).endOpen c a.key
      (some s)).attach c s).Flight := by
  have hc : c < w.calls.size := w.lt_of_phaseOf _ (by simp [hp])
  have hb : w.brokerOf c < w.brokers.size := h.seated c (by simp [hp, Phase.isSeated])
  obtain ⟨hm, hv⟩ := h.own_slot (c := c) (a := a) (by rw [hp]; rfl)
  have steady := steady_count (w := w) (fun x => x.consumers + 1) s
  refine h.endOpen (c := c) (a := a) (p := .finished (.attached w.consumers.size))
    (x := Slot.register { w.slot (w.brokerOf c) a.key with opening := none } s (w.stream s).sharing)
    (by rw [hp]; rfl) (fun b k => ?_) (fun c' => by simp [phaseOf_attach, hc]) (by simp) (by simp)
    rfl rfl (by simp) ?_ fun _ _ t _ => steady t
  · simp only [slot_attach, slot_endOpen, slot_setStream, brokerOf_setStream, brokers_setStream, hb,
      and_true]
    split
    · rename_i he
      simp [he.1, he.2, endedSlot, hm, (steady s).sharing]
    · rfl
  · exact (((h.order _ _).mark hv none).register hv rfl connected key).steady fun t _ => steady t

theorem last {k : ConsumerId} {x : Consumer} (h : w.Flight) (hp : w.phaseOf c = .releasing k) :
    ((((w.setStanding k .released).setStream x.stream fun y =>
      { y with consumers := y.consumers - 1 }).putSlot (w.brokerOf c) x.key
        ((w.slot (w.brokerOf c) x.key).deregister x.stream)).setPhase c
          (.tearing x.stream none)).Flight := by
  have hc : c < w.calls.size := w.lt_of_phaseOf _ (by simp [hp])
  have hb : w.brokerOf c < w.brokers.size := h.seated c (by simp [hp, Phase.isSeated])
  have opens : ∀ c' b k', ((((w.setStanding k .released).setStream x.stream fun y =>
      { y with consumers := y.consumers - 1 }).putSlot (w.brokerOf c) x.key
        ((w.slot (w.brokerOf c) x.key).deregister x.stream)).setPhase c
          (.tearing x.stream none)).Opens c' b k' ↔ w.Opens c' b k' := by
    intro c' b k'
    refine opens_congr (by simp) ?_
    rw [phaseOf_setPhase]
    split
    · rename_i he
      simp [he.1, hp, Phase.opens?]
    · rfl
  refine h.relist (w.brokerOf c) x.key
    (x := (w.slot (w.brokerOf c) x.key).deregister x.stream) (fun b k' => ?_)
    (fun c' b k' _ => opens c' b k') (fun c' => by rw [opens, Slot.opening_deregister, h.marks]) ?_
    (fun _ _ _ t _ => steady_count (w := w) (fun y => y.consumers - 1) x.stream t) fun c' hs => ?_
  · simp [slot_putSlot, hb]
  · exact (h.order _ _).deregister.steady fun t _ =>
      steady_count (w := w) (fun y => y.consumers - 1) x.stream t
  · simp only [brokerOf_setPhase, brokerOf_putSlot, brokerOf_setStream, brokerOf_setStanding,
      brokers_setPhase, brokers_size_putSlot, brokers_setStream, brokers_setStanding]
    rw [phaseOf_setPhase] at hs
    split at hs
    · rename_i he
      exact he.1 ▸ hb
    · exact h.seated c' hs

theorem sweep (h : w.Flight) (hp : w.phaseOf c = .sweepStart) : (w.sweep c).Flight where
  marks b k c' := by
    have : (w.sweep c).Opens c' b k ↔ w.Opens c' b k := by
      refine opens_congr (by simp) ?_
      rw [phaseOf_sweep]
      split
      · rename_i he
        simp [he.1, hp, Phase.opens?]
      · rfl
    rw [this, ← h.marks, slot_sweep]
    split <;> rfl
  order b k := by
    rw [slot_sweep]
    split
    · exact ⟨fun _ _ => rfl, by simp [Slot.streams], by rintro _ ⟨⟩, by simp⟩
    · exact (h.order b k).steady fun _ _ => .refl _
  seated c' hs := by
    rw [phaseOf_sweep] at hs
    rw [brokerOf_sweep, brokers_size_sweep]
    split at hs
    · simp [Phase.isSeated] at hs
    · exact h.seated c' hs

theorem change (h : w.Flight) (g : w.Custody) (hc : Change m w w') : w'.Flight := by
  cases hc with
  | stay => exact h
  | begin allowed => exact h.begin allowed
  | make =>
    refine h.stay (fun _ _ => rfl) (fun _ _ _ => .rfl) (fun b k s hs => ?_) h.seated
    rw [stream_addStream, if_neg (Nat.ne_of_lt (g.made (o := .slot b k) hs))]
    exact .refl _
  | letGo =>
    refine h.stay (fun _ _ => rfl) (fun _ _ _ => .rfl) (fun _ _ t _ => ?_) h.seated
    refine steady_setStream (fun x => ?_) t
    exact ⟨rfl, rfl, rfl, id⟩
  | drop there held =>
    exact h.stay (fun _ _ => rfl) (fun _ _ _ => .rfl) (fun _ _ _ _ => .refl _) h.seated
  | go actor leads idle free =>
    exact h.move (fun _ _ => rfl) (fun _ => setPhase_cases _ _ _ _) (by simp) (by simp) leads.opens
      leads.seated fun _ _ _ _ => .refl _
  | @work w₁ c s p i j actor work held leads before after =>
    have h₁ : w₁.Flight := h.frame work.frame fun t ht =>
      g.unlisted (c := c) (Set.mem_singleton_iff.1 ht ▸ held)
    rw [← work.frame.phaseOf] at leads
    exact h₁.move (fun _ _ => rfl) (fun _ => setPhase_cases _ _ _ _) (by simp) (by simp) leads.opens
      leads.seated fun _ _ _ _ => .refl _
  | provide place free =>
    refine h.move (fun _ _ => rfl) (fun _ => setPhase_cases _ _ _ _) (by simp) (by simp)
      (by rw [place]; rfl) (by rw [place]; exact id) (fun _ _ t _ => ?_)
    refine steady_setStream (fun x => ?_) t
    exact ⟨rfl, rfl, rfl, id⟩
  | demote place shared ended vacant =>
    rw [h.opening_filter] at vacant
    exact h.beginOpen g place vacant (Slot.shared_demote _) Slot.within_demote.subset
      ((h.order _ _).demote shared ended)
  | demoteJoin place shared ended taken =>
    rw [h.opening_filter] at taken
    simp [(h.order _ _).vacant _ taken] at shared
  | «open» place shared vacant =>
    rw [h.opening_filter] at vacant
    exact h.beginOpen g place vacant shared (fun _ => id) (h.order _ _)
  | @reuse c a s place shared counted live media =>
    exact h.move (c := c) (p := .finished (.attached w.consumers.size)) (fun _ _ => rfl)
      (fun _ => setPhase_cases _ _ _ _) (by simp) (by simp) (by rw [place]; rfl) (by rintro ⟨⟩)
      fun _ _ t _ => steady_count (w := w) (fun x => x.consumers + 1) s t
  | @register w₁ c a s moves wait actor place work key connected inside =>
    have h₁ : w₁.Flight := h.frame work.frame fun t ht => g.unlisted (c := c) (by
      simp [place, Phase.holds, Set.mem_singleton_iff.1 ht])
    exact h₁.register ((work.frame.phaseOf _).trans place) key connected
  | @giveUp w₁ c a s moves wait p actor place work exit =>
    have h₁ : w₁.Flight := h.frame work.frame fun t ht => g.unlisted (c := c) (by
      simp [place, Phase.holds, Set.mem_singleton_iff.1 ht])
    exact h₁.giveUp ((work.frame.phaseOf _).trans place) exit
  | miss place missing =>
    exact h.move (p := .finished _) (fun _ _ => rfl) (fun _ => setPhase_cases _ _ _ _) (by simp)
      (by simp) (by rw [place]; rfl) (by rintro ⟨⟩) fun _ _ _ _ => .refl _
  | refuse place there unfit =>
    exact h.move (p := .finished _) (fun _ _ => rfl) (fun _ => setPhase_cases _ _ _ _) (by simp)
      (by simp) (by rw [place]; rfl) (by rintro ⟨⟩) fun _ _ _ _ => .refl _
  | @detach c k x turn place there listed others =>
    exact h.move (p := .finished _) (fun _ _ => rfl) (fun _ => setPhase_cases _ _ _ _) (by simp)
      (by simp) (by rw [place]; rfl) (by rintro ⟨⟩)
      fun _ _ t _ => steady_count (w := w) (fun y => y.consumers - 1) x.stream t
  | last turn place there listed alone => exact h.last place
  | sweep turn place => exact h.sweep place

end Flight

/-! ### Every run -/

/-- What holds of the streams and slots of every run. -/
structure Sound (w : System) : Prop where
  custody : w.Custody
  flight : w.Flight

theorem sound_fresh (configs : List BrokerConfig) (desk : AccessDesk) (terms : List TunerTerms) :
    (fresh configs desk terms).Sound := by
  have slot := slot_fresh configs desk terms
  have phase : ∀ c, (fresh configs desk terms).phaseOf c = .abandoned := fun _ => rfl
  have kept : ∀ o, (fresh configs desk terms).kept o = [] := by
    intro o
    cases o with
    | slot b k => simp [System.kept, slot, Slot.streams]
    | call c => rfl
  refine ⟨⟨?_, ?_, ?_, ?_, ?_, ?_⟩, ⟨?_, ?_, ?_⟩⟩
  · simp [kept]
  · simp [kept]
  · simp [kept]
  · simp [kept]
  · simp [kept]
  · simp [phase, Phase.borrows]
  · simp [slot, Opens, phase, Phase.opens?]
  · intro b k
    rw [slot]
    exact ⟨fun _ _ => rfl, by simp [Slot.streams], by rintro _ ⟨⟩, by simp⟩
  · simp [phase, Phase.isSeated]

namespace Sound

theorem frame (h : w.Sound) (g : Frame ∅ w w') : w'.Sound :=
  ⟨h.custody.frame g, h.flight.frame g fun _ hs => hs.elim⟩

theorem change (h : w.Sound) (hc : Change m w w') : w'.Sound :=
  ⟨h.custody.change hc, h.flight.change h.custody hc⟩

theorem step (h : w.Sound) (m : Move) : (w.step m).Sound := by
  obtain ⟨w₁, w₂, h₁, hc, h₂⟩ := step_books w m
  exact ((h.frame h₁.frame).change hc).frame h₂.frame

theorem run (h : w.Sound) (moves : List Move) : (w.run moves).Sound := by
  induction moves generalizing w with
  | nil => exact h
  | cons m moves ih => exact ih (h.step m)

end Sound

end System

end TunerBroker
