import TunerBroker.Proofs.Invariants.Aging
import TunerBroker.Proofs.Closes.Release

/-! Exclusive streams. A stream that may not be shared is never on offer, so that it has one consumer over
its whole life: the one it was opened for. Where all that is asked for under a key is exclusive, every
consumer of that key has a stream and a connection to itself, whatever becomes of the others. -/

namespace TunerBroker

/-- The connection of a pump is that of its stream, and was given by the tuner. -/
theorem Stream.exists_link? {x : Stream} {n : ConnectionId} (h : x.pump.connection? = some n) :
    ∃ l, x.link? = some (n, l) ∧ l.isEstablished := by
  unfold Stream.link?
  cases hp : x.pump with
  | idle => simp [hp, Pump.connection?] at h
  | reading n' | stopped n' | crashed n' =>
    obtain rfl : n' = n := by simpa [hp, Pump.connection?] using h
    exact ⟨_, rfl, rfl⟩
  | collected n' =>
    obtain rfl : n' = n := by simpa [hp, Pump.connection?] using h
    refine ⟨_, rfl, ?_⟩
    split
    · rfl
    · split <;> rfl

namespace System

variable {m : Move} {w w' : System} {b : BrokerId} {k : SourceKey} {c : CallId} {s : StreamId}
  {i j : ConsumerId} {x y : Consumer}

/-! ### Streams that are not shared -/

/-- A stream that may not be shared has had one consumer at most. -/
def Exclusive (w : System) : Prop := ∀ s, (w.stream s).sharing = false → w.attachments s ≤ 1

namespace Exclusive

/-- Only what is on offer is given to one more consumer, and an exclusive stream is not. -/
theorem step (h : w.Exclusive) (l : w.Ledger) (g : w.Sound) (m : Move) : (w.step m).Exclusive := by
  intro s own
  rcases attachments_step w m s with same | ⟨one, ⟨b, k, shared, -⟩ | fresh⟩
  · rw [same]
    by_cases used : w.attachments s = 0
    · omega
    · exact h s (by rwa [← (madeAlike_step (l.made used)).sharing])
  · have hs : s < w.streams.size :=
      g.custody.made (o := .slot b k) ((Slot.mem_streams _ _).2 (.inl shared))
    rw [(madeAlike_step hs).sharing, (g.flight.order b k).sharing s shared] at own
    cases own
  · rw [one, (l.fresh fresh).2]

theorem run (h : w.Exclusive) (l : w.Ledger) (g : w.Sound) (moves : List Move) :
    (w.run moves).Exclusive := by
  induction moves generalizing w with
  | nil => exact h
  | cons m moves ih => exact ih (h.step l g m) (l.step g m) (g.step m)

/-- Two consumers of one exclusive stream are one. -/
theorem sole (h : w.Exclusive) (own : (w.stream s).sharing = false)
    (hx : w.consumers.get? i = some x) (hy : w.consumers.get? j = some y) (place : x.stream = s)
    (place' : y.stream = s) : i = j := by
  have one := h s own
  have two : ∀ {i j : ConsumerId} {x y : Consumer}, i < j → w.consumers.get? i = some x →
      w.consumers.get? j = some y → x.stream = s → y.stream = s → 2 ≤ w.attachments s :=
    fun lt hx hy ex ey => two_le_countP hx hy lt (decide_eq_true ex) (decide_eq_true ey)
  rcases Nat.lt_trichotomy i j with lt | same | lt
  · have := two lt hx hy place place'
    omega
  · exact same
  · have := two lt hy hx place' place
    omega

end Exclusive

theorem exclusive_fresh (configs : List BrokerConfig) (desk : AccessDesk) (terms : List TunerTerms) :
    (fresh configs desk terms).Exclusive := fun _ _ => Nat.zero_le 1

/-- The stream has had consumers, and its source has come to an end. -/
structure RunDry (w : System) (s : StreamId) : Prop where
  used : w.attachments s ≠ 0
  pump : (w.stream s).pump ≠ .idle
  feed : (w.stream s).feed = false

namespace RunDry

theorem not_live (h : w.RunDry s) : (w.stream s).isLive = false := by
  have feed := h.feed
  cases hl : (w.stream s).lifecycle <;> simp [Stream.isLive, Stream.state, hl, feed, Lifecycle.state]

/-- A stream whose source has ended delivers no more, and is given to nobody any more. -/
theorem step (h : w.RunDry s) (l : w.Ledger) (wired : w.Wired w.jobs) (m : Move) :
    (w.step m).RunDry s ∧ (w.step m).attachments s = w.attachments s := by
  have ages := (wired.ages_step m).streams s (lt_of_pump h.pump)
  have same : (w.step m).attachments s = w.attachments s := by
    rcases attachments_step w m s with same | ⟨-, ⟨b, k, -, live⟩ | fresh⟩
    · exact same
    · rw [h.not_live] at live
      cases live
    · exact absurd (l.fresh fresh).2 h.used
  exact ⟨⟨same ▸ h.used, ages.ne_idle h.pump,
    Bool.eq_false_of_not_eq_true fun fed => by simpa [h.feed] using ages.feed h.pump fed⟩, same⟩

theorem run (h : w.RunDry s) (l : w.Ledger) (g : w.Sound) (wired : w.Wired w.jobs)
    (moves : List Move) :
    (w.run moves).RunDry s ∧ (w.run moves).attachments s = w.attachments s := by
  induction moves generalizing w with
  | nil => exact ⟨h, rfl⟩
  | cons m moves ih =>
    obtain ⟨h', same⟩ := h.step l wired m
    obtain ⟨h'', same'⟩ := ih h' (l.step g m) (g.step m) (wired.step m)
    exact ⟨h'', same'.trans same⟩

end RunDry

/-- A stream that may be shared but is not on offer has run dry. -/
theorem Sound.runDry (g : w.Sound) (l : w.Ledger) (wired : w.Wired w.jobs)
    (hs : s ∈ (w.slot b k).unshared) (sharing : (w.stream s).sharing = true) : w.RunDry s where
  used := by
    have listed := (Slot.mem_streams _ _).2 (.inr hs)
    exact Nat.pos_iff_ne_zero.1 ((l.counted listed).some.trans_le (w.unreleased_le s))
  pump := wired.pump_ne_idle ((g.flight.order b k).connected s ((Slot.mem_streams _ _).2 (.inr hs))).1
  feed := (g.flight.order b k).spent s hs sharing

/-! ### Keys under which all is exclusive -/

/-- All that is asked for under the key at the broker is the source of some request, and exclusive: the
broker has no stream shared, or the host of the request does not. -/
def AsksApart (w₀ : System) (moves : List Move) (b : BrokerId) (k : SourceKey) : Prop :=
  ∀ gated errand a, .start b gated errand ∈ moves → errand.wish? = some a → a.key = k →
    ∃ r token, a = .ofRequest r token (w₀.broker b).config ∧
      ((w₀.broker b).config.sharing = false ∨ r.host.allowSharing = false)

variable {w₀ : System} {moves : List Move}

/-- What a call wants was asked for by the move it began with. -/
theorem asked (empty : w₀.calls.size = 0) {a : Acquisition}
    (wish : ((w₀.run moves).phaseOf c).wish? = some a) :
    ∃ gated errand, .start ((w₀.run moves).brokerOf c) gated errand ∈ moves ∧
      errand.wish? = some a := by
  induction moves using List.reverseRecOn with
  | nil =>
    rw [phaseOf_of_size_le _ _ (empty ▸ Nat.zero_le c)] at wish
    cases wish
  | append_singleton moves m ih =>
    rw [run_concat] at wish ⊢
    by_cases lt : c < (w₀.run moves).calls.size
    · rcases wish_step lt m with none | same
      · rw [none] at wish
        cases wish
      · obtain ⟨gated, errand, began, asks⟩ := ih (same ▸ wish)
        rw [(step_keeps lt m).2]
        exact ⟨gated, errand, List.mem_append_left _ began, asks⟩
    · rcases (w₀.run moves).step_cases m c with ⟨same, -⟩ | ⟨-, lt'⟩ |
        ⟨b, gated, errand, rfl, -, -, phase, broker, -⟩
      · rw [same, phaseOf_of_size_le _ _ (Nat.le_of_not_lt lt)] at wish
        cases wish
      · exact absurd lt' lt
      · rw [phase] at wish
        rw [broker]
        refine ⟨gated, errand, by simp, ?_⟩
        cases errand <;> simp_all [Errand.origin, Errand.wish?, Phase.wish?]

theorem AsksApart.of_append {later : List Move} (h : w₀.AsksApart (moves ++ later) b k) :
    w₀.AsksApart moves b k := fun gated errand a began =>
  h gated errand a (List.mem_append_left _ began)

/-- Under such a key every stream listed is exclusive: it was opened for a call that asked for it. -/
theorem AsksApart.listed (h : w₀.AsksApart moves b k) (empty : w₀.calls.size = 0) (g₀ : w₀.Sound)
    (faithful : w₀.Faithful) (bare : (w₀.slot b k).streams = [])
    (hs : s ∈ ((w₀.run moves).slot b k).streams) : ((w₀.run moves).stream s).sharing = false := by
  induction moves using List.reverseRecOn with
  | nil =>
    rw [show w₀.run [] = w₀ from rfl, bare] at hs
    cases hs
  | append_singleton moves m ih =>
    rw [run_concat] at hs ⊢
    have g := g₀.run moves
    rcases listed_step g hs with old | ⟨c, broker, a, l, wait, place, key⟩
    · rw [(madeAlike_step (g.custody.made (o := .slot b k) old)).sharing]
      exact ih h.of_append old
    · obtain ⟨gated, errand, began, asks⟩ := asked (c := c) (a := a) empty (by rw [place]; rfl)
      obtain ⟨r, token, rfl, apart⟩ := h.of_append gated errand a (broker ▸ began) asks key
      obtain ⟨-, made, alike⟩ := (faithful.run moves).opens place rfl
      rw [(madeAlike_step made).sharing, alike.sharing]
      rcases apart with off | off <;> simp [Stream.ofRequest, Acquisition.ofRequest, off]

/-- Under such a key nothing is ever on offer. -/
theorem AsksApart.vacant (h : w₀.AsksApart moves b k) (empty : w₀.calls.size = 0) (g₀ : w₀.Sound)
    (faithful : w₀.Faithful) (bare : (w₀.slot b k).streams = []) :
    ((w₀.run moves).slot b k).shared = none := by
  refine Option.eq_none_iff_forall_not_mem.2 fun s shared => ?_
  have listed := (Slot.mem_streams ((w₀.run moves).slot b k) s).2 (.inl shared)
  have own := h.listed empty g₀ faithful bare listed
  rw [((g₀.run moves).flight.order b k).sharing s shared] at own
  cases own

/-! ### Reuses -/

theorem reuses_recordAll {ticks : List Tick} (x : Counters) (h : .reused ∉ ticks) :
    (x.recordAll ticks).reuses = x.reuses := by
  induction ticks generalizing x with
  | nil => rfl
  | cons t ticks ih =>
    simp only [List.mem_cons, not_or] at h
    rw [Counters.recordAll, List.foldl_cons, ← Counters.recordAll, ih (x.record t) h.2]
    cases t with
    | reused => exact absurd rfl h.1
    | _ => rfl

/-- A reuse is counted only where a call finds a stream on offer. -/
theorem Course.offered {p : Phase} {ticks : List Tick} {e : Option Announcement}
    (h : Course m w c p ticks e) (reused : .reused ∈ ticks) :
    ∃ a s, w.phaseOf c = .seeking a ∧ (w.slot (w.brokerOf c) a.key).shared = some s := by
  have close : ∀ result, Tick.reused ∉ closeTicks result := by
    intro result
    cases result with
    | ok => simp [closeTicks]
    | error e => simp only [closeTicks]; split <;> simp
  cases h with
  | reuse place shared => exact ⟨_, _, place, shared⟩
  | torn result | swept result => exact absurd reused (close result)
  | _ => simp at reused

/-- A move whose call finds nothing on offer counts no reuse. -/
theorem reuses_step (bare : ∀ c a, m.actor = some c → w.brokerOf c = b → w.phaseOf c = .seeking a →
    (w.slot b a.key).shared = none) :
    ((w.step m).countersOf b).reuses = (w.countersOf b).reuses := by
  rcases w.step_course m with ⟨c, actor, p, ticks, e, course, adv⟩ |
    ⟨b', gated, errand, -, -, he⟩ | ⟨-, h⟩
  · rw [adv.counters]
    split
    · rename_i here
      refine reuses_recordAll _ fun reused => ?_
      obtain ⟨a, s, place, shared⟩ := course.offered reused
      rw [← here.1, bare c a actor here.1.symm place] at shared
      cases shared
    · rfl
  · rw [he, countersOf_begin]
  · rw [h.counters]

/-- A broker at which all is exclusive under every key counts no reuse. -/
theorem AsksApart.unreused (h : ∀ k, w₀.AsksApart moves b k) (empty : w₀.calls.size = 0)
    (g₀ : w₀.Sound) (faithful : w₀.Faithful) (bare : ∀ k, (w₀.slot b k).streams = []) :
    ((w₀.run moves).countersOf b).reuses = (w₀.countersOf b).reuses := by
  induction moves using List.reverseRecOn with
  | nil => rfl
  | append_singleton moves m ih =>
    have earlier : ∀ k, w₀.AsksApart moves b k := fun k => (h k).of_append
    rw [run_concat, reuses_step, ih earlier]
    exact fun c a _ _ _ => (earlier a.key).vacant empty g₀ faithful (bare a.key)

/-! ### Every run -/

/-- A consumer is given to one call. -/
theorem Ledger.one_receipt (l : w.Ledger) {d : CallId} (hc : (w.phaseOf c).attached? = some i)
    (hd : (w.phaseOf d).attached? = some i) : c = d := by
  have distinct : w.receipts.Nodup := l.receipts.nodup_iff.2 List.nodup_range
  rw [receipts, List.Nodup, List.pairwise_filterMap, List.pairwise_iff_getElem] at distinct
  have lt : ∀ {c : CallId}, (w.phaseOf c).attached? = some i → c < w.calls.size := fun h =>
    w.lt_of_phaseOf _ fun gone => by simp [gone, Phase.attached?] at h
  have apart : ∀ {c d : CallId}, c < d → (w.phaseOf c).attached? = some i →
      (w.phaseOf d).attached? ≠ some i := fun {c d} order hc hd =>
    distinct c d (by simpa using lt hc) (by simpa using lt hd) order i (by simpa using hc) i
      (by simpa using hd) rfl
  rcases Nat.lt_trichotomy c d with order | same | order
  · exact absurd hd (apart order hc)
  · exact same
  · exact absurd hc (apart order hd)

/-- The pump of a stream that has a consumer has been started. -/
theorem begun (g₀ : w₀.Sound) (l₀ : w₀.Ledger) (wired : w₀.Wired w₀.jobs)
    (empty : w₀.consumers.size = 0) (hx : (w₀.run moves).consumers.get? i = some x) :
    ((w₀.run moves).stream x.stream).pump ≠ .idle := by
  refine stream_of_consumer g₀ l₀ empty
    (P := fun moves _ _ s => ((w₀.run moves).stream s).pump ≠ .idle) (fun {moves m _ _ _ _} h => ?_)
    (fun {moves m _ _ s} made started => ?_) moves hx
  · exact (wired.run _).pump_ne_idle (h.connected (g₀.run _)).1
  · rw [run_concat]
    exact (((wired.run moves).ages_step m).streams s made).ne_idle started

/-- Under a key where all is exclusive every consumer has an exclusive stream. -/
theorem AsksApart.given (h : w₀.AsksApart moves b k) (g₀ : w₀.Sound) (l₀ : w₀.Ledger)
    (faithful : w₀.Faithful) (empty : w₀.calls.size = 0) (none : w₀.consumers.size = 0)
    (bare : (w₀.slot b k).streams = []) (hx : (w₀.run moves).consumers.get? i = some x)
    (broker : x.broker = b) (key : x.key = k) :
    ((w₀.run moves).stream x.stream).sharing = false := by
  refine stream_of_consumer g₀ l₀ none (P := fun moves b' k' s => b' = b → k' = k →
    w₀.AsksApart moves b k → ((w₀.run moves).stream s).sharing = false) ?_ ?_ moves hx broker key h
  · rintro moves m i b k s attached rfl rfl h
    exact h.listed empty g₀ faithful bare attached.listed
  · rintro moves m b k s made ih rfl rfl h
    rw [run_concat, (madeAlike_step made).sharing]
    exact ih rfl rfl h.of_append

/-- The stream has a connection that the tuner has given it, the only one it was ever given, and no other
stream has that connection. -/
def OwnsConnection (w : System) (s : StreamId) : Prop :=
  ∃ n, (w.stream s).pump.connection? = some n ∧
    (∃ x, w.connections.get? n = some x ∧ x.stream = s ∧ x.state.isEstablished) ∧
    (∀ n' x, w.connections.get? n' = some x → x.stream = s → x.state.isEstablished → n' = n) ∧
    ∀ t, (w.stream t).pump.connection? = some n → t = s

theorem Wired.ownsConnection (h : w.Wired w.jobs) (begun : (w.stream s).pump ≠ .idle) :
    w.OwnsConnection s := by
  obtain ⟨n, hn⟩ := Option.ne_none_iff_exists'.1 fun hn => begun (Pump.connection?_eq_none.1 hn)
  obtain ⟨l, link, established⟩ := Stream.exists_link? hn
  obtain ⟨x, hx, place, state⟩ := h.linked link
  refine ⟨n, hn, ⟨x, hx, place, state ▸ established⟩, fun n' x' hx' place' there => ?_, fun t ht => ?_⟩
  · have link' := h.pumped hx' there
    rw [place', link] at link'
    exact (congrArg Prod.fst (Option.some.inj link')).symm
  · obtain ⟨l', link', -⟩ := Stream.exists_link? ht
    obtain ⟨x', hx', place', -⟩ := h.linked link'
    obtain rfl : x = x' := Option.some.inj (hx.symm.trans hx')
    exact place'.symm.trans place

/-- In every run, at every moment: what is on offer may be shared, and what is listed beside it may not,
or has run dry; and an exclusive stream has had one consumer at most. Where all that a broker is asked
for under a key is exclusive, nothing is ever on offer there and no call for it counts a reuse; a call that
has been given a consumer of the key has been given a stream of its own, with a connection of its own.
Until the consumer is released to the broker, unless a sweep takes the stream off the list, the stream
stays listed and counts that one consumer; and its release takes the stream off the list and closes it,
and touches no other stream. -/
theorem exclusive_streams_stay_apart (configs : List BrokerConfig) (desk : AccessDesk)
    (terms : List TunerTerms) (moves : List Move) :
    let w₀ := fresh configs desk terms
    let w := w₀.run moves
    (∀ b k s, (w.slot b k).shared = some s → (w.stream s).sharing = true) ∧
    (∀ b k, ∀ s ∈ (w.slot b k).unshared, (w.stream s).sharing = false ∨
      (w.stream s).state = .ended ∧ ∀ later, ((w.run later).stream s).isLive = false ∧
        (w.run later).attachments s = w.attachments s) ∧
    (∀ s, (w.stream s).sharing = false → w.attachments s ≤ 1) ∧
    (∀ b, (∀ k, w₀.AsksApart moves b k) → (w.countersOf b).reuses = 0) ∧
    ∀ b k, w₀.AsksApart moves b k →
      (w.slot b k).shared = none ∧
      (∀ m c a, m.actor = some c → w.brokerOf c = b → (w.phaseOf c).wish? = some a → a.key = k →
        ((w.step m).countersOf b).reuses = (w.countersOf b).reuses) ∧
      ∀ c i x, w.phaseOf c = .finished (.attached i) → w.brokerOf c = b →
        w.consumers.get? i = some x → x.key = k →
        (∀ d j y, d ≠ c → w.phaseOf d = .finished (.attached j) → w.consumers.get? j = some y →
          y.stream ≠ x.stream) ∧
        w.OwnsConnection x.stream ∧
        (x.standing ≠ .released →
          w.Attached i b k x.stream ∧ (w.stream x.stream).consumers = 1 ∨
            w₀.IsSwept moves b x.stream) ∧
        ∀ d, w.phaseOf d = .releasing i → w.brokerOf d = b → ¬w₀.IsSwept moves b x.stream →
          let w' := w.step (.turn (.call d))
          w.CountsOut w' i x ∧ w.Delists w' b k x.stream ∧ w'.phaseOf d = .tearing x.stream none ∧
            ∀ later, .abandon d ∉ later → (w'.run later).Tears d x.stream := by
  intro w₀ w
  have g₀ : w₀.Sound := sound_fresh configs desk terms
  have l₀ : w₀.Ledger := ledger_fresh configs desk terms
  have wired₀ : w₀.Wired w₀.jobs := wired_fresh configs desk terms
  have faithful : w₀.Faithful := faithful_fresh configs desk terms
  have bare : ∀ b k, (w₀.slot b k).streams = [] := fun b k => by rw [slot_fresh]; rfl
  have g : w.Sound := g₀.run moves
  have l : w.Ledger := l₀.run g₀ moves
  have wired : w.Wired w.jobs := wired₀.run moves
  have exclusive : w.Exclusive := (exclusive_fresh configs desk terms).run l₀ g₀ moves
  refine ⟨fun b k => (g.flight.order b k).sharing, fun b k s hs => ?_, exclusive, fun b apart => ?_,
    fun b k apart => ?_⟩
  · cases sharing : (w.stream s).sharing with
    | false => exact .inl rfl
    | true =>
      have dry := g.runDry l wired hs sharing
      have connected := ((g.flight.order b k).connected s ((Slot.mem_streams _ _).2 (.inr hs))).1
      refine .inr ⟨by simp [Stream.state, connected, dry.feed], fun later => ?_⟩
      obtain ⟨dry, same⟩ := dry.run l g wired later
      exact ⟨dry.not_live, same⟩
  · rw [AsksApart.unreused apart rfl g₀ faithful (bare b), countersOf, (broker_fresh _ _ _ b).2]
  have vacant := apart.vacant rfl g₀ faithful (bare b k)
  refine ⟨vacant, fun m c a actor broker wish key => ?_, fun c i x place broker hx key => ?_⟩
  · refine reuses_step fun c' a' actor' _ place => ?_
    obtain rfl : c' = c := Option.some.inj (actor'.symm.trans actor)
    obtain rfl : a' = a := by simpa [place, Phase.wish?] using wish
    rwa [key]
  obtain ⟨x', hx', broker'⟩ := (credited_fresh configs desk terms).run l₀ g₀ moves c i (by rw [place]; rfl)
  obtain rfl : x' = x := Option.some.inj (hx'.symm.trans hx)
  replace broker : x'.broker = b := broker'.trans broker
  have own := apart.given g₀ l₀ faithful rfl rfl (bare b k) hx broker key
  have one := exclusive x'.stream own
  have bound : w.attachments x'.stream < 2 ^ 32 := by omega
  have counts : x'.stream ∈ (w.slot b k).streams → w.unreleased x'.stream = 1 := fun listed => by
    have some := (l.counted listed).some
    have le := w.unreleased_le x'.stream
    omega
  have stays : x'.standing ≠ .released →
      w.Attached i b k x'.stream ∨ w₀.IsSwept moves b x'.stream := by
    have := attached_or_swept configs desk terms moves bound hx
    rwa [broker, key] at this
  refine ⟨fun d j y other place' hy same => ?_, wired.ownsConnection (begun g₀ l₀ wired₀ rfl hx),
    fun unreleased => (stays unreleased).imp_left fun attached => ⟨attached, ?_⟩,
    fun d releasing here unswept => ?_⟩
  · obtain rfl : i = j := exclusive.sole own hx hy rfl same
    exact other (l.one_receipt (by rw [place']; rfl) (by rw [place]; rfl))
  · have count := (l.counted attached.listed).toNat_consumers bound
    rw [counts attached.listed] at count
    exact UInt32.toNat_inj.1 count
  · have unreleased : x'.standing ≠ .released := by
      obtain ⟨y, hy, standing⟩ := l.handed (c := d) (i := i) (by rw [releasing]; rfl)
      obtain rfl : x' = y := Option.some.inj (hx.symm.trans hy)
      simp [standing]
    have listed : x'.stream ∈ (w.slot b k).streams :=
      ((stays unreleased).resolve_right unswept).listed
    have alone := counts listed
    rw [← here, ← key] at listed ⊢
    obtain ⟨out, delists, tearing, -⟩ := step_last releasing hx l bound listed g alone
    exact ⟨out, delists, tearing, fun later kept =>
      tears_of_last releasing hx l bound listed g wired alone kept⟩

/-- Settings under which no stream is shared. -/
def unsharing : BrokerConfig := BrokerConfig.withoutSharing {}

/-- The errand of a call for the source of the sample request, from a broker that shares nothing. -/
def apartErrand : Errand := .acquire (.ofRequest sampleRequest none unsharing)

/-- Two calls come for one source, the second while the first opens; each opens a stream of its own, and
the first is about to release it. -/
def twoComeApart : List Move :=
  [.start 0 false apartErrand, .start 0 false apartErrand, .turn (.call 0), .turn (.call 1),
    .turn (.call 0), .turn (.call 0), .turn (.call 1), .turn (.call 1), .turn (.call 1),
    .turn (.call 1), .start 0 false (.release 0)]

theorem exclusive_streams_stay_apart_twoComeApart :
    (∀ k, (fresh [unsharing] {} []).AsksApart twoComeApart 0 k) ∧
    (((fresh [unsharing] {} []).run twoComeApart).countersOf 0).reuses = 0 ∧
    ∃ x y, ((fresh [unsharing] {} []).run twoComeApart).consumers.get? 0 = some x ∧
      ((fresh [unsharing] {} []).run twoComeApart).consumers.get? 1 = some y ∧
      y.stream ≠ x.stream ∧ ((fresh [unsharing] {} []).run twoComeApart).OwnsConnection y.stream ∧
      (((fresh [unsharing] {} []).run twoComeApart).stream y.stream).consumers = 1 ∧
      ((fresh [unsharing] {} []).run twoComeApart).Delists
        (((fresh [unsharing] {} []).run twoComeApart).step (.turn (.call 2))) 0 sampleRequest.key
        x.stream := by
  have apart : ∀ k, (fresh [unsharing] {} []).AsksApart twoComeApart 0 k := by
    intro k gated errand a began asks _
    have asked : errand = apartErrand ∨ errand = .release 0 := by
      simp [twoComeApart] at began
      grind
    rcases asked with rfl | rfl
    · obtain rfl := Option.some.inj asks
      exact ⟨sampleRequest, none, rfl, .inl rfl⟩
    · cases asks
  obtain ⟨-, -, -, unreused, alone⟩ := exclusive_streams_stay_apart [unsharing] {} [] twoComeApart
  obtain ⟨-, -, given⟩ := alone 0 sampleRequest.key (apart _)
  obtain ⟨differ, -, -, releases⟩ := given 0 0 ⟨0, 0, sampleRequest.key, .handedOver⟩ rfl rfl rfl rfl
  obtain ⟨-, owns, stays, -⟩ := given 1 1 ⟨0, 1, sampleRequest.key, .held⟩ rfl rfl rfl rfl
  -- A stream that is still listed was not swept.
  have unswept : ∀ s, s ∈ ((fresh [unsharing] {} []).run twoComeApart).listedAt 0 sampleRequest.key →
      ¬(fresh [unsharing] {} []).IsSwept twoComeApart 0 s := fun s listed swept =>
    swept.unlisted (ledger_fresh ..) (sound_fresh ..) 0 sampleRequest.key listed
  have one := (stays (by rintro ⟨⟩)).resolve_right (unswept 1 (by decide))
  obtain ⟨-, delists, -⟩ := releases 2 rfl rfl (unswept 0 (by decide))
  exact ⟨apart, unreused 0 apart, _, _, rfl, rfl, differ 1 1 _ (by decide) rfl rfl, owns, one.2, delists⟩

end System

end TunerBroker
