import TunerBroker.Proofs.Closes.Teardown
import TunerBroker.Proofs.Consumers.Tenure

/-! Releases. A release is refused by a broker that is not that of the consumer, and where a sweep has
taken the stream of the consumer off the list; then nothing changes. Any other is let through: the stream
counts out that one consumer, and if it was the last the stream leaves the list and is closed. -/

namespace TunerBroker

namespace System

variable {w w' : System} {b : BrokerId} {k : SourceKey} {c : CallId} {i : ConsumerId} {x : Consumer}

/-! ### What a release does -/

/-- The stream of a consumer counts it out. -/
def countOut (w : System) (i : ConsumerId) (x : Consumer) : System :=
  (w.setStanding i .released).setStream x.stream fun y => { y with consumers := y.consumers - 1 }

/-- A consumer whose stream the broker does not list is not released. -/
theorem release_of_unlisted (there : w.consumers.get? i = some x)
    (unlisted : x.stream ∉ (w.slot (w.brokerOf c) x.key).streams) :
    ∃ e breach, w.release c i = w.refuseRelease c i e x.key breach := by
  have unregistered : (w.slot (w.brokerOf c) x.key).isRegistered x.stream = false :=
    Bool.eq_false_of_not_eq_true fun h => unlisted ((Slot.isRegistered_iff _ _).1 h)
  simp only [release, there, unregistered, Bool.not_false, if_true]
  split
  · exact ⟨_, _, rfl⟩
  · exact ⟨_, _, rfl⟩

/-- A consumer whose stream the broker lists is counted out. -/
theorem release_of_listed (there : w.consumers.get? i = some x)
    (listed : x.stream ∈ (w.slot (w.brokerOf c) x.key).streams)
    (counted : (w.stream x.stream).consumers ≠ 0) : ∃ e, w.release c i =
      if (w.stream x.stream).consumers - 1 ≠ 0 then ((w.countOut i x).finish c .done).note c e
      else (((w.countOut i x).putSlot (w.brokerOf c) x.key
        ((w.slot (w.brokerOf c) x.key).deregister x.stream)).setPhase c
          (.tearing x.stream none)).note c e := by
  have held : w.isHeld x.stream := isHeld_of_listed listed
  have registered : (w.slot (w.brokerOf c) x.key).isRegistered x.stream :=
    (Slot.isRegistered_iff _ _).2 listed
  have made : x.stream < w.streams.size := by
    by_contra hn
    rw [w.stream_of_size_le _ (Nat.le_of_not_lt hn)] at counted
    exact counted rfl
  have remaining : ((w.countOut i x).stream x.stream).consumers =
      (w.stream x.stream).consumers - 1 := by
    rw [countOut, stream_setStream_self _ _ _ (by exact made)]
    rfl
  simp only [release, there, held, registered, counted, Bool.not_true, Bool.false_eq_true, if_false]
  rw [← countOut, remaining]
  split
  · exact ⟨_, rfl⟩
  · exact ⟨_, rfl⟩

/-- The release has come out as a breach, and brokers, streams and connections are as they were. -/
structure Refuses (w w' : System) (c : CallId) : Prop where
  outcome : ∃ k breach, w'.phaseOf c = .finished (.failed (.violation k breach))
  brokers : w'.brokers = w.brokers
  streams : w'.streams = w.streams
  connections : w'.connections = w.connections

/-- One consumer is released and its stream has one less; no other consumer or stream, no connection
and no counter is touched. -/
structure CountsOut (w w' : System) (i : ConsumerId) (x : Consumer) : Prop where
  standing : ∀ j, w'.consumers.get? j =
    if j = i then some { x with standing := .released } else w.consumers.get? j
  stream : w'.stream x.stream =
    { w.stream x.stream with consumers := (w.stream x.stream).consumers - 1 }
  others : ∀ t ≠ x.stream, w'.stream t = w.stream t
  connections : w'.connections = w.connections
  counters : ∀ b, w'.countersOf b = w.countersOf b

/-- The stream is off the list of its slot, and the key is gone if nothing is left there; all other
slots are as they were. -/
structure Delists (w w' : System) (b : BrokerId) (k : SourceKey) (s : StreamId) : Prop where
  slot : w'.slot b k = (w.slot b k).deregister s
  listed : w'.listedAt b k = (w.listedAt b k).filter (· ≠ s)
  gone : (w'.broker b).slots.get? k = none ↔ w'.listedAt b k = [] ∧ (w.slot b k).opening = none
  others : ∀ b' k', b' ≠ b ∨ k' ≠ k →
    (w'.broker b').slots.get? k' = (w.broker b').slots.get? k'

theorem countsOut_countOut (there : w.consumers.get? i = some x) (made : x.stream < w.streams.size) :
    w.CountsOut (w.countOut i x) i x where
  standing j := by
    show (w.setStanding i .released).consumers.get? j = _
    rw [get?_setStanding]
    split
    · rename_i hj
      rw [hj, there]
      rfl
    · rfl
  stream := stream_setStream_self _ _ _ made
  others t ht := stream_setStream_ne _ _ _ _ ht
  connections := rfl
  counters _ := rfl

theorem delists_putSlot {s : StreamId} (nodup : (w.slot b k).streams.Nodup)
    (listed : s ∈ (w.slot b k).streams) :
    w.Delists (w.putSlot b k ((w.slot b k).deregister s)) b k s := by
  have hb : b < w.brokers.size := w.lt_of_slot b k fun he => by simp [he, Slot.streams] at listed
  have slot : (w.putSlot b k ((w.slot b k).deregister s)).slot b k = (w.slot b k).deregister s := by
    rw [slot_putSlot, if_pos ⟨rfl, rfl, hb⟩]
  refine ⟨slot, ?_, ?_, fun b' k' other => ?_⟩
  · rw [listedAt, slot, Slot.streams_deregister _ _ nodup]
    rfl
  · rw [listedAt, slot, ← Slot.opening_deregister (w.slot b k) s, putSlot, slots_setSlots,
      if_pos ⟨rfl, hb⟩]
    rw [← Slot.isEmpty_iff]
    split
    · simp [*]
    · simp [*]
  · rw [putSlot, slots_setSlots]
    split
    · rename_i he
      obtain hk : k' ≠ k := other.resolve_left fun hn => hn he.1
      split
      · rw [Keyed.get?_erase, if_neg hk]
      · rw [Keyed.get?_put, if_neg hk]
    · rfl

/-! ### The turn of a release -/

section Turn

variable (hp : w.phaseOf c = .releasing i) (there : w.consumers.get? i = some x)

include hp there

theorem refuses_of_unlisted (unlisted : x.stream ∉ (w.slot (w.brokerOf c) x.key).streams) :
    w.Refuses (w.step (.turn (.call c))) c := by
  have hc : c < w.calls.size := w.lt_of_phaseOf c (by simp [hp])
  obtain ⟨e, breach, he⟩ := release_of_unlisted there unlisted
  rw [step_releasing hp, he]
  refine ⟨⟨x.key, breach, ?_⟩, rfl, rfl, rfl⟩
  show ((w.setStanding i .refused).finish c _).phaseOf c = _
  rw [finish_eq, phaseOf_setPhase, if_pos ⟨rfl, hc⟩]

section Listed

variable (l : w.Ledger) (bound : w.attachments x.stream < 2 ^ 32)
  (listed : x.stream ∈ (w.slot (w.brokerOf c) x.key).streams)

include l bound listed

/-- A consumer that is not the last leaves the stream to the others. -/
theorem step_detach (others : w.unreleased x.stream ≠ 1) :
    w.CountsOut (w.step (.turn (.call c))) i x ∧
      (w.step (.turn (.call c))).phaseOf c = .finished .done ∧
      (w.step (.turn (.call c))).brokers = w.brokers := by
  have hc : c < w.calls.size := w.lt_of_phaseOf c (by simp [hp])
  have tallied := l.counted listed
  have counted := tallied.consumers_ne_zero bound
  obtain ⟨e, he⟩ := release_of_listed there listed counted
  have more : (w.stream x.stream).consumers - 1 ≠ 0 := by
    intro hz
    have one := Ledger.toNat_sub_one counted
    have some := tallied.some
    rw [hz, tallied.toNat_consumers bound] at one
    have : (0 : UInt32).toNat = 0 := rfl
    omega
  rw [if_pos more] at he
  rw [step_releasing hp, he]
  have out := countsOut_countOut there (l.placed there).1
  refine ⟨{ out with }, ?_, rfl⟩
  show ((w.countOut i x).finish c .done).phaseOf c = _
  rw [finish_eq, phaseOf_setPhase, if_pos ⟨rfl, hc⟩]

/-- The last consumer takes the stream off the list, and the release has it to close alone. -/
theorem step_last (g : w.Sound) (alone : w.unreleased x.stream = 1) :
    w.CountsOut (w.step (.turn (.call c))) i x ∧
      w.Delists (w.step (.turn (.call c))) (w.brokerOf c) x.key x.stream ∧
      (w.step (.turn (.call c))).phaseOf c = .tearing x.stream none ∧
      (w.step (.turn (.call c))).Closes c x.stream ∧
      (w.step (.turn (.call c))).Sealed c x.stream := by
  have hc : c < w.calls.size := w.lt_of_phaseOf c (by simp [hp])
  have tallied := l.counted listed
  have counted := tallied.consumers_ne_zero bound
  obtain ⟨e, he⟩ := release_of_listed there listed counted
  have none : (w.stream x.stream).consumers - 1 = 0 := by
    have one := Ledger.toNat_sub_one counted
    rw [tallied.toNat_consumers bound, alone] at one
    exact UInt32.toNat_inj.1 one
  rw [if_neg (by simp [none]), ← step_releasing hp] at he
  have nodup : (w.slot (w.brokerOf c) x.key).streams.Nodup := g.custody.nodup (.slot _ _)
  have delists : w.Delists (w.step (.turn (.call c))) (w.brokerOf c) x.key x.stream := by
    rw [he]
    exact { delists_putSlot nodup listed with }
  have out : w.CountsOut (w.step (.turn (.call c))) i x := by
    rw [he]
    have out := countsOut_countOut there (l.placed there).1
    have hushed := (Hushed.refl (w.countOut i x)).putSlot (w.brokerOf c) x.key
      ((w.slot (w.brokerOf c) x.key).deregister x.stream)
    exact { out with counters := fun b => (hushed.counters b).trans (out.counters b) }
  have phase : ∀ d, (w.step (.turn (.call c))).phaseOf d =
      if d = c ∧ c < w.calls.size then .tearing x.stream .none else w.phaseOf d := by
    intro d
    rw [he]
    exact phaseOf_setPhase ((w.countOut i x).putSlot _ _ _) c d _
  have place : (w.step (.turn (.call c))).phaseOf c = .tearing x.stream .none := by
    rw [phase, if_pos ⟨rfl, hc⟩]
  have connected : ((w.step (.turn (.call c))).stream x.stream).lifecycle = .connected := by
    rw [out.stream]
    exact ((g.flight.order _ _).connected _ listed).1
  refine ⟨out, delists, place, .ahead place connected, ?_, fun d hd => ?_⟩
  · refine spent_of_delisted l g listed ?_
    rw [delists.listed]
    simp
  · rw [phase] at hd
    split at hd
    · exact (‹_ ∧ _›).1
    · exact absurd listed (g.custody.unlisted hd _ _)

end Listed

end Turn

/-! ### Every run -/

/-- The release is alone with a stream that is off every list, and closes it, or has closed it and come out
as the close did: it can come to the end of the close, which is counted with the move that ends it, and no
connection is shut down twice. -/
structure Tears (w : System) (c : CallId) (s : StreamId) : Prop where
  closes : w.Closes c s
  sealing : w.Sealed c s
  closable : w.Closable c s
  counts : ∀ m, m ≠ .abandon c → m.actor = some c →
    (∃ stage, w.phaseOf c = .tearing s (some stage)) ∧ w.Concludes (w.step m) c s ∨
      ∀ b, (w.step m).countersOf b = w.countersOf b
  once : ∀ n, w.shutdownsOf n ≤ 1

theorem Closes.tears {s : StreamId} (h : w.Closes c s) (sealing : w.Sealed c s) (l : w.Ledger)
    (g : w.Sound) (wired : w.Wired w.jobs) : w.Tears c s where
  closes := h
  sealing := sealing
  closable := h.closable sealing l g wired
  counts _ hm actor := (h.step sealing l wired hm).2 actor
  once := wired.shutdowns_le

/-- From the release of its last consumer on, a stream is torn down. -/
theorem tears_of_last (hp : w.phaseOf c = .releasing i) (there : w.consumers.get? i = some x)
    (l : w.Ledger) (bound : w.attachments x.stream < 2 ^ 32)
    (listed : x.stream ∈ (w.slot (w.brokerOf c) x.key).streams) (g : w.Sound)
    (wired : w.Wired w.jobs) (alone : w.unreleased x.stream = 1) {later : List Move}
    (kept : .abandon c ∉ later) : ((w.step (.turn (.call c))).run later).Tears c x.stream := by
  obtain ⟨-, -, -, closes, sealing⟩ := step_last hp there l bound listed g alone
  obtain ⟨closes, sealing⟩ := closes.run sealing (l.step g _) (g.step _) (wired.step _) later kept
  exact closes.tears sealing ((l.step g _).run (g.step _) later) ((g.step _).run later)
    ((wired.step _).run later)

/-- A close does not come out as a breach. -/
theorem Closes.no_breach {s : StreamId} {breach : Breach} (h : w.Closes c s) :
    w.phaseOf c ≠ .finished (.failed (.violation k breach)) := by
  cases h with
  | ahead place | under _ place =>
    rw [place]
    rintro ⟨⟩
  | past torn =>
    rw [torn.place, shutResult]
    cases w.shutFault s <;> rintro ⟨⟩

/-- In every run with fewer than 2³² consumers attached to each stream, when a consumer that the call `d`
was given is released, the release comes out as a breach exactly if it is made on another broker than
that of `d`, or if a sweep of that broker has taken the stream off its list. Then brokers, streams and
connections stay as they are. Otherwise the stream counts out that one consumer. If others are left
nothing else happens; if not, the stream is off the list, its key gone with it if nothing is left
there, and from then on the release is alone with the stream, closes it once, and comes out with the
result of that: with the failure of the shutdown, if the tuner fails it, or of the pump, if that died. -/
theorem release_accepted_exactly (configs : List BrokerConfig) (desk : AccessDesk)
    (terms : List TunerTerms) (moves : List Move) (c d : CallId) (i : ConsumerId) :
    let w₀ := fresh configs desk terms
    let w := w₀.run moves
    let w' := w.step (.turn (.call c))
    (∀ s, w.attachments s < 2 ^ 32) → w.phaseOf d = .finished (.attached i) →
    w.phaseOf c = .releasing i → ∃ x, w.consumers.get? i = some x ∧
      let foreign := w.brokerOf c ≠ w.brokerOf d ∨ w₀.IsSwept moves (w.brokerOf d) x.stream
      (∀ later, .abandon c ∉ later →
        ((∃ k breach, (w'.run later).phaseOf c = .finished (.failed (.violation k breach))) ↔
          foreign)) ∧
      (foreign → w.Refuses w' c) ∧
      (¬ foreign → w.CountsOut w' i x ∧
        (w.stream x.stream).consumers.toNat = w.unreleased x.stream ∧
        (w.unreleased x.stream ≠ 1 → w'.phaseOf c = .finished .done ∧ w'.brokers = w.brokers) ∧
        (w.unreleased x.stream = 1 → w.Delists w' (w.brokerOf c) x.key x.stream ∧
          w'.phaseOf c = .tearing x.stream none ∧
          ∀ later, .abandon c ∉ later → (w'.run later).Tears c x.stream)) := by
  intro w₀ w w' bound given place
  have g₀ := sound_fresh configs desk terms
  have l₀ := ledger_fresh configs desk terms
  have g : w.Sound := g₀.run moves
  have l : w.Ledger := l₀.run g₀ moves
  have wired : w.Wired w.jobs := (wired_fresh configs desk terms).run moves
  have hc : c < w'.calls.size := (step_keeps (w.lt_of_phaseOf c (by simp [place])) _).1
  obtain ⟨x, there, broker⟩ := ((credited_fresh configs desk terms).run l₀ g₀ moves) d i
    (by rw [given]; rfl)
  have unreleased : x.standing ≠ .released := by
    obtain ⟨y, hy, standing⟩ := l.handed (c := c) (i := i) (by rw [place]; rfl)
    obtain rfl : x = y := Option.some.inj (there.symm.trans hy)
    rw [standing]
    rintro ⟨⟩
  refine ⟨x, there, ?_⟩
  intro foreign
  -- Where the release is foreign the stream is not listed, and elsewhere it is.
  have unlisted : foreign → x.stream ∉ (w.slot (w.brokerOf c) x.key).streams := by
    rintro (other | swept) listed
    · exact other ((l.home there listed).symm.trans broker)
    · exact swept.unlisted l₀ g₀ _ _ listed
  have listed : ¬ foreign → x.stream ∈ (w.slot (w.brokerOf c) x.key).streams := by
    intro own
    rw [not_or, not_not] at own
    rcases attached_or_swept configs desk terms moves (bound _) there unreleased with attached | swept
    · rw [own.1, ← broker]
      exact attached.listed
    · exact absurd (broker ▸ swept) own.2
  have tears : ¬ foreign → w.unreleased x.stream = 1 → ∀ later, .abandon c ∉ later →
      (w'.run later).Tears c x.stream := fun own alone later kept =>
    tears_of_last place there l (bound _) (listed own) g wired alone kept
  refine ⟨fun later kept => ⟨?_, fun hf => ?_⟩, fun hf => refuses_of_unlisted place there (unlisted hf),
    fun own => ?_⟩
  · rintro ⟨k, breach, ends⟩
    by_contra own
    by_cases alone : w.unreleased x.stream = 1
    · exact (tears own alone later kept).closes.no_breach ends
    · have done := (step_detach place there l (bound _) (listed own) alone).2.1
      rw [run_over later (by rw [done]; rfl) hc, done] at ends
      cases ends
  · obtain ⟨k, breach, ends⟩ := (refuses_of_unlisted place there (unlisted hf)).outcome
    exact ⟨k, breach, by rw [run_over later (by rw [ends]; rfl) hc, ends]⟩
  · have count := (l.counted (listed own)).toNat_consumers (bound _)
    by_cases alone : w.unreleased x.stream = 1
    · obtain ⟨out, delists, torn, -⟩ := step_last place there l (bound _) (listed own) g alone
      exact ⟨out, count, fun hn => absurd alone hn, fun _ => ⟨delists, torn, tears own alone⟩⟩
    · obtain ⟨out, done, same⟩ := step_detach place there l (bound _) (listed own) alone
      exact ⟨out, count, fun _ => ⟨done, same⟩, fun hn => absurd hn alone⟩

/-- The stream of a consumer is swept off the list before the consumer is released. -/
def sweptBeforeRelease : List Move :=
  oneComes ++ [.start 0 false .sweep, .turn (.call 1), .start 0 false (.release 0)]

/-- A tuner whose first connection fails to shut down. -/
def unplugged : List TunerTerms := [{ shutdownFailure := some "unplugged" }]

/-- The turns in which the release of the last consumer closes its stream. -/
def lastGoes : List Move := [.turn (.call 3), .turn (.pump 0), .turn (.call 3), .turn (.call 3)]

theorem release_accepted_exactly_lastIsToGo :
    ((fresh [{}] {} unplugged).run lastIsToGo).Delists
      (((fresh [{}] {} unplugged).run lastIsToGo).step (.turn (.call 3))) 0 sampleRequest.key 0 ∧
    ((((fresh [{}] {} unplugged).run lastIsToGo).step (.turn (.call 3))).run lastGoes).Tears 3 0 ∧
    ((((fresh [{}] {} unplugged).run lastIsToGo).step (.turn (.call 3))).run lastGoes).phaseOf 3 =
      .finished (.failed (.shutdown sampleRequest.key (.transport "unplugged"))) ∧
    ((fresh [{}] {} unplugged).run sweptBeforeRelease).Refuses
      (((fresh [{}] {} unplugged).run sweptBeforeRelease).step (.turn (.call 2))) 2 := by
  have last : ∀ s, ((fresh [{}] {} unplugged).run lastIsToGo).attachments s < 2 ^ 32 := fun s =>
    List.countP_le_length.trans_lt (by decide)
  have swept : ∀ s, ((fresh [{}] {} unplugged).run sweptBeforeRelease).attachments s < 2 ^ 32 :=
    fun s => List.countP_le_length.trans_lt (by decide)
  obtain ⟨x, there, decided, -, accepted⟩ :=
    release_accepted_exactly [{}] {} unplugged lastIsToGo 3 0 0 last rfl rfl
  obtain ⟨y, there', -, refused, -⟩ :=
    release_accepted_exactly [{}] {} unplugged sweptBeforeRelease 2 0 0 swept rfl rfl
  obtain rfl : x = ⟨0, 0, sampleRequest.key, .handedOver⟩ := Option.some.inj (there.symm.trans rfl)
  obtain rfl : y = ⟨0, 0, sampleRequest.key, .handedOver⟩ := Option.some.inj (there'.symm.trans rfl)
  obtain ⟨-, -, -, alone⟩ := accepted fun foreign => by
    obtain ⟨k, breach, ends⟩ := (decided [] List.not_mem_nil).2 foreign
    cases ends
  obtain ⟨delists, -, tears⟩ := alone (by decide)
  have foreign : (fresh [{}] {} unplugged).IsSwept sweptBeforeRelease 0 0 :=
    ⟨oneComes ++ [.start 0 false .sweep], 1, [.start 0 false (.release 0)], rfl, rfl, rfl,
      sampleRequest.key, by decide⟩
  exact ⟨delists, tears lastGoes (by simp [lastGoes]), rfl, refused (.inr foreign)⟩

end System

end TunerBroker
