import TunerBroker.Proofs.Consumers.Spent
import TunerBroker.Proofs.Invariants.Wishes
import TunerBroker.Proofs.Invariants.WiringRuns

/-! What a consumer can rely on. The stream it is attached to is the one asked for, and stays listed and
connected until the consumer is released or the broker swept; a stream that has left the list is never
given to anybody again. -/

namespace TunerBroker

namespace System

variable {m : Move} {w w' : System} {b : BrokerId} {k : SourceKey} {c : CallId} {s : StreamId}
  {i j : ConsumerId} {x y : Consumer}

/-! ### Streams that are kept -/

/-- The move releases the consumer to the broker, or sweeps the broker. -/
def disturbs (w : System) (b : BrokerId) (i : ConsumerId) : Move → Bool
  | .turn (.call c) =>
    w.brokerOf c = b &&
      match w.phaseOf c with
      | .releasing j => j = i
      | .sweepStart => true
      | _ => false
  | _ => false

/-- No move of the run releases the consumer to the broker or sweeps the broker. -/
def spares (b : BrokerId) (i : ConsumerId) (w : System) : List Move → Bool
  | [] => true
  | m :: moves => !w.disturbs b i m && spares b i (w.step m) moves

/-- The consumer is one of the stream's, and has not been counted out. -/
def Counts (w : System) (i : ConsumerId) (s : StreamId) : Prop :=
  ∃ x, w.consumers.get? i = some x ∧ x.stream = s ∧ x.standing ≠ .released

/-- The consumer is attached to a stream that its broker lists. -/
structure Attached (w : System) (i : ConsumerId) (b : BrokerId) (k : SourceKey) (s : StreamId) :
    Prop where
  counts : w.Counts i s
  listed : s ∈ (w.slot b k).streams

namespace Counts

theorem congr (h : w.Counts i s) (same : w'.consumers = w.consumers) : w'.Counts i s := by
  rwa [Counts, same]

theorem setStanding {q : Standing} (h : w.Counts i s) (hq : j = i → q ≠ .released) :
    (w.setStanding j q).Counts i s := by
  obtain ⟨x, hx, hs, hst⟩ := h
  rw [Counts, get?_setStanding]
  split
  · exact ⟨{ x with standing := q }, by rw [hx]; rfl, hs, hq (‹i = j›).symm⟩
  · exact ⟨x, hx, hs, hst⟩

theorem attach {t : StreamId} (h : w.Counts i s) : (w.attach c t).Counts i s := by
  obtain ⟨x, hx, hs, hst⟩ := h
  refine ⟨x, ?_, hs, hst⟩
  rw [Ledger.get?_attach, if_neg (Nat.ne_of_lt (Table.lt_size_of_get? hx)), hx]

/-- Two consumers that a stream still counts are counted as two. -/
theorem two_le (h : w.Counts i s) (h' : w.Counts j s) (hij : i ≠ j) : 2 ≤ w.unreleased s := by
  obtain ⟨y, hy, hys, hyst⟩ := h'
  have hi : (w.setStanding j .released).Counts i s := h.setStanding fun he => absurd he.symm hij
  obtain ⟨x, hx, hs, hst⟩ := hi
  have one : 0 < (w.setStanding j .released).unreleased s :=
    List.countP_pos_iff.2 ⟨x, (Table.mem_entries_iff _ _).2 ⟨i, hx⟩, by simp [hs, hst]⟩
  have := unreleased_setStanding (s := s) (q := .released) hy hyst
  simp only [hys, and_self, if_true] at this
  omega

end Counts

namespace Attached

variable (h : w.Attached i b k s)

include h

theorem frame {S : Set StreamId} (g : Frame S w w') : w'.Attached i b k s :=
  ⟨h.counts.congr g.consumers, by rw [g.slot]; exact h.listed⟩

/-- A release that disturbs nobody is of another consumer. -/
theorem other (g : w.Sound) (quiet : w.disturbs b i m = false) (turn : m = .turn (.call c))
    (place : w.phaseOf c = .releasing j) (there : w.consumers.get? j = some x)
    (listed : (w.slot (w.brokerOf c) x.key).isRegistered x.stream) : j ≠ i := by
  rintro rfl
  obtain ⟨y, hy, rfl, -⟩ := h.counts
  obtain rfl : x = y := Option.some.inj (there.symm.trans hy)
  obtain ⟨rfl, rfl⟩ := Keeper.slot.inj (g.custody.unique (o := .slot b k) h.listed
    (q := .slot (w.brokerOf c) x.key) ((Slot.isRegistered_iff _ _).1 listed))
  simp [disturbs, turn, place] at quiet

/-- The last consumer of a stream is not another one's. -/
theorem not_last (l : w.Ledger) (bound : w.attachments s < 2 ^ 32)
    (place : w.phaseOf c = .releasing j) (there : w.consumers.get? j = some x) (hij : j ≠ i)
    (alone : (w.stream x.stream).consumers ≠ 0 ∧ (w.stream x.stream).consumers - 1 = 0) :
    x.stream ≠ s := by
  rintro rfl
  obtain ⟨y, hy, hst⟩ := l.handed (c := c) (i := j) (by rw [place]; rfl)
  obtain rfl : x = y := Option.some.inj (there.symm.trans hy)
  have two := h.counts.two_le ⟨x, there, rfl, by simp [hst]⟩ hij.symm
  have count := (l.counted h.listed).toNat_consumers bound
  have one := Ledger.toNat_sub_one alone.1
  rw [alone.2, count] at one
  have : (0 : UInt32).toNat = 0 := rfl
  omega

theorem change (g : w.Sound) (l : w.Ledger) (bound : w.attachments s < 2 ^ 32)
    (quiet : w.disturbs b i m = false) (hc : Change m w w') : w'.Attached i b k s := by
  obtain ⟨counts, listed⟩ := h
  have put : ∀ {b' k' y}, (s ∈ (w.slot b' k').streams → s ∈ y.streams) →
      s ∈ ((w.putSlot b' k' y).slot b k).streams := by
    intro b' k' y hy
    rw [slot_putSlot]
    split
    · rename_i he
      exact hy (he.1 ▸ he.2.1 ▸ listed)
    · exact listed
  cases hc with
  | stay | make | letGo | go | provide | miss => exact ⟨counts, listed⟩
  | @begin b' gated errand =>
    refine ⟨?_, by rwa [slot_begin]⟩
    cases errand with
    | release j => exact Counts.setStanding (w := w.addCall _) counts (by rintro _ ⟨⟩)
    | _ => exact counts
  | drop => exact ⟨counts.setStanding (by rintro _ ⟨⟩), listed⟩
  | work actor work =>
    exact ⟨counts.congr work.frame.consumers, by rwa [slot_setPhase, work.frame.slot]⟩
  | demote => exact ⟨counts, put (Slot.mem_streams_demote _ _).2⟩
  | demoteJoin => exact ⟨counts, put (Slot.mem_streams_demote _ _).2⟩
  | «open» => exact ⟨counts, put id⟩
  | reuse => exact ⟨Counts.attach (w := w.setStream _ _) counts, listed⟩
  | @register w₁ c a t moves wait actor place work =>
    refine ⟨.attach (w := (w₁.setStream _ _).endOpen _ _ _) (counts.congr work.frame.consumers), ?_⟩
    rw [slot_attach, slot_endOpen, slot_setStream, work.frame.slot]
    split
    · exact (mem_streams_endedSlot _ _ _ _ _).2 (.inl listed)
    · exact listed
  | giveUp actor place work =>
    refine ⟨counts.congr work.frame.consumers, ?_⟩
    rw [slot_endOpen, slot_setPhase, work.frame.slot]
    split
    · exact (mem_streams_endedSlot _ _ _ _ _).2 (.inl listed)
    · exact listed
  | refuse => exact ⟨counts.setStanding (by rintro _ ⟨⟩), listed⟩
  | @detach c j x turn place there reg =>
    have hij := Attached.other ⟨counts, listed⟩ g quiet turn place there reg
    exact ⟨counts.setStanding fun e => absurd e hij, listed⟩
  | @last c j x turn place there reg alone =>
    have hij := Attached.other ⟨counts, listed⟩ g quiet turn place there reg
    have hs := Attached.not_last ⟨counts, listed⟩ l bound place there hij alone
    refine ⟨counts.setStanding fun e => absurd e hij, put fun ht => ?_⟩
    rw [Slot.streams_deregister _ _ (g.custody.nodup (.slot (w.brokerOf c) x.key))]
    exact List.mem_filter.2 ⟨ht, decide_eq_true hs.symm⟩
  | @sweep c turn place =>
    refine ⟨counts, ?_⟩
    rw [slot_sweep, if_neg]
    · exact listed
    · rintro rfl
      simp [disturbs, turn, place] at quiet

theorem step (g : w.Sound) (l : w.Ledger) (m : Move) (bound : w.attachments s < 2 ^ 32)
    (quiet : w.disturbs b i m = false) : (w.step m).Attached i b k s := by
  obtain ⟨w₁, w₂, h₁, hc, h₂⟩ := step_books w m
  refine .frame (.change (h.frame h₁.frame) (g.frame h₁.frame) (l.frame g.custody h₁.frame) ?_ ?_ hc)
    h₂.frame
  · rwa [attachments_congr h₁.frame.consumers]
  · rw [← quiet]
    simp only [disturbs, h₁.frame.brokerOf, h₁.frame.phaseOf]

theorem run (g : w.Sound) (l : w.Ledger) (moves : List Move)
    (bound : (w.run moves).attachments s < 2 ^ 32) (quiet : w.spares b i moves) :
    (w.run moves).Attached i b k s := by
  induction moves generalizing w with
  | nil => exact h
  | cons m moves ih =>
    simp only [spares, Bool.and_eq_true, Bool.not_eq_true'] at quiet
    have le := (w.attachments_le_step m s).trans ((w.step m).attachments_le_run moves s)
    exact ih (h.step g l m (le.trans_lt bound) quiet.1) (g.step m) (l.step g m) bound quiet.2

/-- A listed stream is connected, under its own key. -/
theorem connected (g : w.Sound) : (w.stream s).lifecycle = .connected ∧ (w.stream s).key = k :=
  (g.flight.order b k).connected s h.listed

/-- A consumer finds its stream closed to readers only if the source has ended by itself. -/
theorem reader (g : w.Sound) (wired : w.Wired w.jobs) {e : StreamError}
    (closed : w.readerOf i = .error e) : (w.stream s).state = .ended ∧
      (w.stream s).stopping = false ∧ ∃ n, (w.stream s).pump = .stopped n := by
  obtain ⟨x, hx, rfl, -⟩ := h.counts
  have held : w.isHeld x.stream := isHeld_of_listed h.listed
  obtain ⟨hl, -⟩ := h.connected g
  have whole := wired.whole held hl
  have fit := wired.fit x.stream
  have feed : (w.stream x.stream).feed = false := by
    simp only [readerOf, hx, held, if_true, subscribe] at closed
    split at closed
    · cases closed
    · exact Bool.eq_false_of_not_eq_true ‹_›
  refine ⟨by simp [Stream.state, hl, feed], ?_⟩
  cases hp : (w.stream x.stream).pump <;> simp_all [Stream.IsFit]

end Attached

/-- Nothing has happened to the stream of the consumer that the consumer did not ask for: it is listed
and connected, its shutdown has not begun, and it is closed to readers only once its source has
ended. -/
structure Kept (w : System) (i : ConsumerId) (b : BrokerId) (k : SourceKey) (s : StreamId) :
    Prop where
  listed : s ∈ w.listedAt b k
  connected : (w.stream s).lifecycle = .connected
  untouched : ∀ n, (w.stream s).pump.connection? = some n → w.shutdownsOf n = 0
  open_or_ended : ∀ e, w.readerOf i = .error e → (w.stream s).state = .ended ∧
    (w.stream s).stopping = false ∧ ∃ n, (w.stream s).pump = .stopped n

theorem Attached.kept (h : w.Attached i b k s) (g : w.Sound) (wired : w.Wired w.jobs) :
    w.Kept i b k s where
  listed := h.listed
  connected := (h.connected g).1
  untouched n hn := by
    have hl := (h.connected g).1
    have fit := wired.fit s
    have whole := wired.whole (isHeld_of_listed h.listed) hl
    have quiet : ∃ l : LinkState, (w.stream s).link? = some (n, l) ∧ l.shutdowns = 0 := by
      cases hp : (w.stream s).pump <;>
        simp_all [Stream.IsFit, Stream.link?, Pump.connection?, LinkState.shutdowns]
    obtain ⟨l, link, zero⟩ := quiet
    obtain ⟨-, -, -, seen⟩ := wired.own link
    exact seen.1.trans zero
  open_or_ended _ closed := h.reader g wired closed

/-! ### New consumers -/

/-- What a call is given that set out for a source. -/
structure Given (w : System) (i : ConsumerId) (b : BrokerId) (r : StreamRequest) (x : Consumer) :
    Prop where
  there : w.consumers.get? i = some x
  broker : x.broker = b
  key : x.key = r.key
  media : (w.stream x.stream).request.media = r.media
  attached : w.Attached i b r.key x.stream

theorem Given.frame {S : Set StreamId} {r : StreamRequest} (h : w.Given i b r x) (g : Frame S w w') :
    w'.Given i b r x where
  there := by rw [g.consumers]; exact h.there
  broker := h.broker
  key := h.key
  media := by rw [(g.kin _).request]; exact h.media
  attached := h.attached.frame g

theorem given_attach {r : StreamRequest} (hi : i = w.consumers.size) (broker : w.brokerOf c = b)
    (key : (w.stream s).key = r.key) (media : (w.stream s).request.media = r.media)
    (listed : s ∈ (w.slot b r.key).streams) :
    (w.attach c s).Given i b r (Ledger.consumerOf w c s) where
  there := by rw [Ledger.get?_attach, if_pos hi]
  broker := broker
  key := key
  media := media
  attached := ⟨⟨_, by rw [Ledger.get?_attach, if_pos hi], rfl, by rintro ⟨⟩⟩, listed⟩

/-- Only the call that goes on can be given a consumer. -/
theorem attached_setPhase {v : System} {d : CallId} {p : Phase} (same : v.phaseOf c = w.phaseOf c)
    (hi : ((v.setPhase d p).phaseOf c).attached? = some i) :
    (w.phaseOf c).attached? = some i ∨ c = d ∧ p.attached? = some i := by
  rcases v.setPhase_cases d c p with he | ⟨rfl, he⟩ <;> rw [he] at hi
  · exact .inl (same ▸ hi)
  · exact .inr ⟨rfl, hi⟩

/-- A call that set out for a source is given a consumer of a stream of that source. -/
theorem Change.given {r : StreamRequest} {token : Option Token} {config : BrokerConfig}
    (hc : Change m w w') (g : w.Sound) (faithful : w.Faithful)
    (wants : w.Wants c b (.ofRequest r token config)) (hn : (w.phaseOf c).attached? = none)
    (hi : (w'.phaseOf c).attached? = some i) : ∃ x, w'.Given i b r x := by
  have moved : ∀ {v : System} {d : CallId} {p : Phase}, v.phaseOf c = w.phaseOf c →
      ((v.setPhase d p).phaseOf c).attached? = some i → c = d ∧ p.attached? = some i := by
    intro v d p hv ha
    exact (attached_setPhase hv ha).resolve_left (by simp [hn])
  have size : ∀ {n : ConsumerId}, (Phase.finished (.attached n)).attached? = some i → i = n :=
    fun h => (Option.some.inj h).symm
  cases hc with
  | stay | make | letGo | drop => simp [hn] at hi
  | @begin b' gated errand =>
    rw [phaseOf_begin, if_neg (Nat.ne_of_lt wants.lt), hn] at hi
    cases hi
  | go actor leads => exact absurd (moved rfl hi).2 (by simp [leads.attached.2])
  | work actor work held leads =>
    exact absurd (moved (work.frame.phaseOf c) hi).2 (by simp [leads.attached.2])
  | provide | demoteJoin | miss | refuse | detach | last | sweep => cases (moved rfl hi).2
  | demote | «open» => cases (moved rfl hi).2
  | giveUp actor place work exit => cases exit <;> cases (moved (work.frame.phaseOf c) hi).2
  | @reuse d a s place shared counted live media =>
    obtain ⟨rfl, hs⟩ := moved (v := (w.setStream s _).addConsumer _) rfl hi
    obtain rfl := wants.wish a (by rw [place]; rfl)
    obtain rfl := wants.broker
    have listed : s ∈ (w.slot (w.brokerOf c) r.key).streams := (Slot.mem_streams _ _).2 (.inl shared)
    refine ⟨_, given_attach (size hs) rfl ?_ ?_ listed⟩
    · rw [Ledger.key_setConsumers]
      exact ((g.flight.order _ _).connected s listed).2
    · rw [request_setStream (by exact fun _ => rfl)]
      exact media r.media rfl
  | @register w₁ d a s moves wait actor place work key connected inside =>
    obtain ⟨rfl, hs⟩ := moved (v := ((w₁.setStream s _).endOpen d a.key (some s)).addConsumer _)
      (work.frame.phaseOf c) hi
    obtain rfl := wants.wish a (by rw [place]; rfl)
    obtain rfl := wants.broker
    have request := (faithful.opens place rfl).2.2.request
    have seated : w.brokerOf c < w.brokers.size :=
      g.flight.seated c (by rw [place]; rfl)
    refine ⟨_, given_attach (size hs) (work.frame.brokerOf c) ?_ ?_ ?_⟩
    · rw [stream_endOpen, Ledger.key_setConsumers]
      exact key
    · rw [stream_endOpen, request_setStream (by exact fun _ => rfl), (work.frame.kin s).request, request]
      rfl
    · rw [← work.frame.brokerOf c]
      refine mem_streams_endOpen (w₁.setStream s _) r.key c s ?_
      rwa [brokerOf_setStream, brokers_setStream, work.frame.brokerOf, work.frame.brokers]

theorem given_step {r : StreamRequest} {token : Option Token} {config : BrokerConfig} (g : w.Sound)
    (faithful : w.Faithful) (wants : w.Wants c b (.ofRequest r token config))
    (hn : (w.phaseOf c).attached? = none) (hi : ((w.step m).phaseOf c).attached? = some i) :
    ∃ x, (w.step m).Given i b r x := by
  obtain ⟨w₁, w₂, h₁, hc, h₂⟩ := step_books w m
  rw [h₂.frame.phaseOf] at hi
  rw [← h₁.frame.phaseOf] at hn
  obtain ⟨x, hx⟩ := hc.given (g.frame h₁.frame) (faithful.frame h₁.frame) (wants.frame h₁.frame) hn hi
  exact ⟨x, hx.frame h₂.frame⟩

/-! ### Every run -/

/-- In every run, a call that set out for the source of a request and is given a consumer is given one
of a connected stream that delivers the media asked for and is listed under the key asked for, and
nowhere else; and however the run goes on, as long as fewer than 2³² consumers are attached to the
stream and until that consumer is released to the broker or the broker swept, the stream is kept.
A stream that a step takes off its list is never listed again, and no consumer is attached to it any
more. -/
theorem kept_until_released (configs : List BrokerConfig) (desk : AccessDesk)
    (terms : List TunerTerms) :
    (∀ before between b gated errand r token config m i,
      let w₀ := (fresh configs desk terms).run before
      let w₁ := (w₀.step (.start b gated errand)).run between
      let w := w₁.step m
      b < configs.length → errand.wish? = some (.ofRequest r token config) →
      (w₁.phaseOf w₀.calls.size).attached? = none →
      (w.phaseOf w₀.calls.size).attached? = some i →
      ∃ x, w.consumers.get? i = some x ∧ x.broker = b ∧ x.key = r.key ∧
        (∀ b' k, x.stream ∈ w.listedAt b' k ↔ b' = b ∧ k = r.key) ∧
        (w.stream x.stream).request.media = r.media ∧ w.Kept i b r.key x.stream ∧
        ∀ after, (w.run after).attachments x.stream < 2 ^ 32 → w.spares b i after →
          (w.run after).Kept i b r.key x.stream) ∧
    ∀ moves m b k s after,
      let w₁ := (fresh configs desk terms).run moves
      let w := w₁.step m
      s ∈ w₁.listedAt b k → s ∉ w.listedAt b k →
        (w.run after).attachments s = w.attachments s ∧ ∀ b' k', s ∉ (w.run after).listedAt b' k' := by
  have g₀ := sound_fresh configs desk terms
  have l₀ := ledger_fresh configs desk terms
  constructor
  · intro before between b gated errand r token config m i w₀ w₁ w hb source hn hi
    have g : w₁.Sound := ((g₀.run before).step _).run between
    have l : w₁.Ledger := ((l₀.run g₀ before).step (g₀.run before) _).run ((g₀.run before).step _) between
    have wired : w₁.Wired w₁.jobs := (((wired_fresh configs desk terms).run before).step _).run between
    have faithful : w₁.Faithful := (((faithful_fresh configs desk terms).run before).step _).run between
    have hb' : b < w₀.brokers.size := by
      rw [brokers_size_run]
      simpa [fresh, Table.size] using hb
    have wants : w₁.Wants w₀.calls.size b (.ofRequest r token config) :=
      (wants_start hb' source).run between
    obtain ⟨x, given⟩ := given_step g faithful wants hn hi
    refine ⟨x, given.there, given.broker, given.key, fun b' k => ⟨fun hk => ?_, ?_⟩, given.media,
      given.attached.kept (g.step m) (wired.step m), fun after bound quiet => ?_⟩
    · obtain ⟨rfl, rfl⟩ := Keeper.slot.inj ((g.step m).custody.unique (o := .slot b' k) hk
        (q := .slot b r.key) given.attached.listed)
      exact ⟨rfl, rfl⟩
    · rintro ⟨rfl, rfl⟩
      exact given.attached.listed
    · exact (given.attached.run (g.step m) (l.step g m) after bound quiet).kept ((g.step m).run after)
        ((wired.step m).run after)
  · intro moves m b k s after w₁ w hs hn
    have g : w₁.Sound := g₀.run moves
    have l : w₁.Ledger := l₀.run g₀ moves
    obtain ⟨spent, same⟩ := (spent_of_delisted l g hs hn).run (l.step g m) (g.step m) after
    exact ⟨same, spent.unlisted⟩

/-- A request whose stream several consumers may read. -/
def sampleRequest : StreamRequest :=
  ⟨⟨"host", "channel"⟩, ⟨"media", "", none⟩, ⟨"host", "", "", true⟩⟩

/-- The errand of a call for the source of the sample request. -/
def sampleErrand : Errand := .acquire (.ofRequest sampleRequest none {})

/-- A call for that source, up to the turn that gives it a consumer. -/
def oneComes : List Move :=
  [.start 0 false sampleErrand, .turn (.call 0), .turn (.call 0), .turn (.call 0)]

/-- A second consumer comes to the stream and goes again. -/
def anotherComesAndGoes : List Move :=
  [.start 0 false sampleErrand, .turn (.call 1), .start 0 false (.release 1), .turn (.call 2)]

/-- Both consumers come, the second goes, and the first is about to. -/
def lastIsToGo : List Move := oneComes ++ anotherComesAndGoes ++ [.start 0 false (.release 0)]

theorem kept_until_released_anotherComesAndGoes :
    ((fresh [{}] {} []).run oneComes).spares 0 0 anotherComesAndGoes ∧
      (∃ x, ((fresh [{}] {} []).run oneComes).consumers.get? 0 = some x ∧
        (((fresh [{}] {} []).run oneComes).run anotherComesAndGoes).Kept 0 0 sampleRequest.key
          x.stream) ∧
      0 ∈ ((fresh [{}] {} []).run lastIsToGo).listedAt 0 sampleRequest.key ∧
      0 ∉ (((fresh [{}] {} []).run lastIsToGo).step (.turn (.call 3))).listedAt 0 sampleRequest.key ∧
      ((((fresh [{}] {} []).run lastIsToGo).step (.turn (.call 3))).run
        [.start 0 false sampleErrand, .turn (.call 4)]).attachments 0 =
          (((fresh [{}] {} []).run lastIsToGo).step (.turn (.call 3))).attachments 0 := by
  obtain ⟨onward, backward⟩ := kept_until_released [{}] {} []
  refine ⟨by decide, ?_, by decide, by decide, (backward lastIsToGo (.turn (.call 3)) 0
    sampleRequest.key 0 _ (by decide) (by decide)).1⟩
  obtain ⟨x, there, -, -, -, -, -, kept⟩ := onward [] [.turn (.call 0), .turn (.call 0)] 0 false
    sampleErrand sampleRequest none {} (.turn (.call 0)) 0 (by decide) rfl (by decide) (by decide)
  obtain rfl : x = ⟨0, 0, sampleRequest.key, .held⟩ := Option.some.inj (there.symm.trans rfl)
  exact ⟨_, there, kept anotherComesAndGoes (by decide) (by decide)⟩

end System

end TunerBroker
