import TunerBroker.Proofs.Opens.FailedAcquire

/-! What a call finds that looks at a slot. A stream on offer that delivers takes it on as one more
consumer, unless other media were asked for. Where there is none the call waits for the open in flight, and
opens itself if there is none either. -/

namespace TunerBroker

/-- The stream with so many consumers more. -/
def Stream.joined (x : Stream) (n : Nat) : Stream := { x with consumers := x.consumers + .ofNat n }

/-- The counters with so many consumers more that were attached to a stream already open. -/
def Counters.reused (x : Counters) (n : Nat) : Counters := { x with reuses := x.reuses + .ofNat n }

theorem Stream.joined_zero (x : Stream) : x.joined 0 = x := by
  show { x with consumers := x.consumers + 0 } = x
  rw [UInt32.add_zero]

theorem Stream.joined_joined (x : Stream) (m n : Nat) : (x.joined m).joined n = x.joined (m + n) := by
  simp [joined, UInt32.ofNat_add, UInt32.add_assoc]

theorem Counters.reused_zero (x : Counters) : x.reused 0 = x := by
  show { x with reuses := x.reuses + 0 } = x
  rw [UInt64.add_zero]

theorem Counters.reused_reused (x : Counters) (m n : Nat) :
    (x.reused m).reused n = x.reused (m + n) := by
  simp [reused, UInt64.ofNat_add, UInt64.add_assoc]

namespace System

variable {w w₁ w' : System} {a : Acquisition} {b : BrokerId} {k : SourceKey} {c o : CallId}
  {s : StreamId} {wish : CallId → Acquisition} {cs : List CallId}

/-! ### A stream on offer -/

/-- A stream of the key that may be shared and delivers. -/
structure OnOffer (w : System) (b : BrokerId) (k : SourceKey) (s : StreamId) : Prop where
  listed : s ∈ w.listedAt b k
  sharing : (w.stream s).sharing
  live : (w.stream s).isLive

/-- What a stream has for a wish: itself, or the error that it delivers other media. -/
def offer (w : System) (s : StreamId) (a : Acquisition) : Except StreamError StreamId :=
  match a.media with
  | none => .ok s
  | some x =>
    if x = (w.stream s).request.media then .ok s
    else .error (.mismatch a.key (w.stream s).request.media x)

/-- What a call that is over has gained: a consumer of a stream, or an error. -/
def gains (w : System) (c : CallId) : Option (Except StreamError StreamId) :=
  match w.phaseOf c with
  | .finished (.failed e) => some (.error e)
  | .finished (.attached i) => (w.consumers.get? i).map fun x => .ok x.stream
  | _ => none

/-- Calls that a stream suits. -/
def suited (w : System) (s : StreamId) (wish : CallId → Acquisition) (cs : List CallId) : Nat :=
  cs.countP fun c => (w.offer s (wish c)).isOk

/-- From `w` to `w'` each of the calls gains what the stream has for it. The stream has the consumers
that it suits, and each is counted as one more on a stream already open. -/
structure Joins (w w' : System) (b : BrokerId) (s : StreamId) (wish : CallId → Acquisition)
    (cs : List CallId) : Prop where
  gains : ∀ c ∈ cs, w'.gains c = some (w.offer s (wish c))
  stream : ∀ t, w'.stream t =
    if t = s then (w.stream t).joined (w.suited s wish cs) else w.stream t
  counters : ∀ b', w'.countersOf b' =
    if b' = b then (w.countersOf b').reused (w.suited s wish cs) else w.countersOf b'
  slots : ∀ b k, w'.slot b k = w.slot b k
  connections : w'.connections = w.connections

/-- A look at the slot asks nothing of the tuner and fires no token. -/
theorem seek_keeps (w : System) (c : CallId) (a : Acquisition) :
    (w.seek c a).connections = w.connections ∧ (w.seek c a).fired = w.fired := by
  unfold seek enqueue
  dsimp only
  split
  · split <;> exact ⟨rfl, rfl⟩
  · split
    · exact ⟨rfl, rfl⟩
    · split
      · split <;> exact ⟨rfl, rfl⟩
      · split <;> exact ⟨rfl, rfl⟩

theorem slot_reuse (w : System) (c : CallId) (a : Acquisition) (s : StreamId) (b : BrokerId)
    (k : SourceKey) : (w.reuse c a s).slot b k = w.slot b k :=
  ((Frame.refl (S := ∅) ((w.setStream s _).attach c s)).record _ _).slot b k

theorem get?_reuse (w : System) (c : CallId) (a : Acquisition) (s : StreamId) :
    ∃ x, (w.reuse c a s).consumers.get? w.consumers.size = some x ∧ x.stream = s :=
  ⟨_, (Ledger.get?_attach (w.setStream s _) c s _).trans (if_pos rfl), rfl⟩

/-- A stream on offer is reused, or fails the call that asks for other media. -/
theorem seek_offer (shared : (w.slot (w.brokerOf c) a.key).shared = some s)
    (counted : (w.stream s).consumers ≠ 0) (live : (w.stream s).isLive) :
    w.offer s a = .ok s ∧ w.seek c a = w.reuse c a s ∨
      ∃ e ev, w.offer s a = .error e ∧ w.seek c a = (w.note c ev).finish c (.failed e) := by
  cases hm : a.media with
  | none => exact .inl ⟨by simp [offer, hm], by simp [seek, shared, counted, live, hm]⟩
  | some x =>
    by_cases same : x = (w.stream s).request.media
    · refine .inl ⟨by simp [offer, hm, same], ?_⟩
      simp [seek, shared, counted, live, hm, same, Option.filter]
    · refine .inr ⟨.mismatch a.key (w.stream s).request.media x,
        .mediaMismatch a.key (w.stream s).request.media.id x.id, by simp [offer, hm, same], ?_⟩
      simp [seek, shared, counted, live, hm, same, Option.filter]

theorem joins_reuse (hc : c < w.calls.size) (hb : w.brokerOf c < w.brokers.size)
    (live : (w.stream s).isLive) (fits : w.offer s (wish c) = .ok s) :
    w.Joins (w.reuse c (wish c) s) (w.brokerOf c) s wish [c] := by
  have suits : w.suited s wish [c] = 1 := by simp [suited, fits, Except.isOk, Except.toBool]
  have made : s < w.streams.size := lt_of_lifecycle fun hn => by
    simp [Stream.isLive, Stream.state, hn, Lifecycle.state] at live
  have adv := Advance.reuse hc (wish c) s
  refine ⟨fun d hd => ?_, fun t => ?_, fun b' => ?_, fun b' k' => slot_reuse .., rfl⟩
  · obtain ⟨x, hx, hs⟩ := get?_reuse w c (wish c) s
    rw [List.mem_singleton.1 hd, fits, System.gains, adv.phaseOf, if_pos rfl]
    dsimp only
    rw [hx, Option.map_some, hs]
  · show (w.setStream s _).stream t = _
    rw [stream_setStream, suits]
    by_cases ht : t = s
    · rw [if_pos ⟨ht, made⟩, if_pos ht]
      rfl
    · rw [if_neg fun h => ht h.1, if_neg ht]
  · rw [adv.counted hb, suits]
    rfl

/-- A call that the stream does not suit is told so, and leaves it as it is. -/
theorem joins_unfit {e : StreamError} (hc : c < w.calls.size) (ev : Event)
    (unfit : w.offer s (wish c) = .error e) :
    w.Joins ((w.note c ev).finish c (.failed e)) b s wish [c] := by
  have suits : w.suited s wish [c] = 0 := by simp [suited, unfit, Except.isOk, Except.toBool]
  refine ⟨fun d hd => ?_, fun t => ?_, fun b' => ?_, fun _ _ => rfl, rfl⟩
  · rw [List.mem_singleton.1 hd, unfit, System.gains, finish_eq, phaseOf_setPhase, if_pos ⟨rfl, hc⟩]
  · rw [suits, Stream.joined_zero, ite_self]
    rfl
  · rw [suits, Counters.reused_zero, ite_self]
    rfl

theorem joins_seeking (g : w.Sound) (hp : w.phaseOf c = .seeking (wish c))
    (shared : (w.slot (w.brokerOf c) (wish c).key).shared = some s)
    (counted : (w.stream s).consumers ≠ 0) (live : (w.stream s).isLive) :
    w.Joins (w.step (.turn (.call c))) (w.brokerOf c) s wish [c] := by
  have hc : c < w.calls.size := w.lt_of_phaseOf c (by simp [hp])
  have hb : w.brokerOf c < w.brokers.size := g.flight.seated c (by rw [hp]; rfl)
  rw [step_seeking hp]
  rcases seek_offer shared counted live with ⟨fits, he⟩ | ⟨e, ev, unfit, he⟩
  · rw [he]
    exact joins_reuse hc hb live fits
  · rw [he]
    exact joins_unfit hc ev unfit

/-- What a call has gained stays with it. -/
theorem gains_run (l : w.Ledger) (g : w.Sound) (moves : List Move) {y : Except StreamError StreamId}
    (h : w.gains c = some y) : (w.run moves).gains c = some y := by
  have hc : c < w.calls.size := w.lt_of_phaseOf c fun hn => by simp [gains, hn] at h
  unfold gains at h ⊢
  cases hp : w.phaseOf c with
  | finished o =>
    rw [run_over moves (by rw [hp]; rfl) hc, hp]
    rw [hp] at h
    cases o with
    | attached i =>
      dsimp only at h ⊢
      obtain ⟨x, hx, rfl⟩ := Option.map_eq_some_iff.1 h
      obtain ⟨x', hx', follows⟩ := consumer_run l g moves hx
      rw [hx', Option.map_some, follows.stream]
    | _ => exact h
  | _ => simp [hp] at h

namespace Joins

theorem offer (h : w.Joins w' b s wish cs) (a : Acquisition) : w'.offer s a = w.offer s a := by
  have same : (w'.stream s).request = (w.stream s).request := by
    rw [h.stream, if_pos rfl]
    rfl
  unfold System.offer
  rw [same]

theorem onOffer (h : w.Joins w' b s wish cs) (offered : w.OnOffer b k s) : w'.OnOffer b k s := by
  have stream := (h.stream s).trans (if_pos rfl)
  refine ⟨?_, ?_, ?_⟩
  · rw [listedAt, h.slots]
    exact offered.listed
  · rw [stream]
    exact offered.sharing
  · rw [stream]
    exact offered.live

/-- First one call joins, and then the others. -/
theorem cons (h : w.Joins w₁ b s wish [c]) (h' : w₁.Joins w' b s wish cs)
    (kept : w'.gains c = w₁.gains c) : w.Joins w' b s wish (c :: cs) := by
  have same : w₁.suited s wish cs = w.suited s wish cs := by simp only [suited, h.offer]
  have both : w.suited s wish (c :: cs) = w.suited s wish [c] + w.suited s wish cs := by
    rw [suited, List.countP_cons, Nat.add_comm]
    simp [suited, List.countP_cons]
  refine ⟨fun d hd => ?_, fun t => ?_, fun b' => ?_, fun b' k' => ?_, ?_⟩
  · rcases List.mem_cons.1 hd with rfl | hd
    · rw [kept, h.gains d (List.mem_singleton_self d)]
    · rw [h'.gains d hd, h.offer]
  · rw [h'.stream, h.stream, same, both]
    split
    · rw [Stream.joined_joined]
    · rfl
  · rw [h'.counters, h.counters, same, both]
    split
    · rw [Counters.reused_reused]
    · rfl
  · rw [h'.slots, h.slots]
  · rw [h'.connections, h.connections]

theorem nil (w : System) (b : BrokerId) (s : StreamId) (wish : CallId → Acquisition) :
    w.Joins w b s wish [] where
  gains c hc := by cases hc
  stream t := by
    show _ = if t = s then (w.stream t).joined 0 else _
    rw [Stream.joined_zero, ite_self]
  counters b' := by
    show _ = if b' = b then (w.countersOf b').reused 0 else _
    rw [Counters.reused_zero, ite_self]
  slots _ _ := rfl
  connections := rfl

theorem perm {cs' : List CallId} (h : w.Joins w' b s wish cs) (hp : cs.Perm cs') :
    w.Joins w' b s wish cs' := by
  have same : w.suited s wish cs = w.suited s wish cs' := hp.countP_eq _
  exact { h with
    gains := fun c hc => h.gains c (hp.mem_iff.2 hc)
    stream := fun t => by rw [h.stream, same]
    counters := fun b' => by rw [h.counters, same] }

end Joins

/-! ### Nothing on offer -/

/-- Between `w` and `w'` nothing but calls has changed. -/
structure OnlyCalls (w w' : System) : Prop where
  brokers : w'.brokers = w.brokers
  streams : w'.streams = w.streams
  consumers : w'.consumers = w.consumers
  connections : w'.connections = w.connections

theorem OnlyCalls.refl (w : System) : OnlyCalls w w := ⟨rfl, rfl, rfl, rfl⟩

theorem OnlyCalls.trans (h : OnlyCalls w w₁) (h' : OnlyCalls w₁ w') : OnlyCalls w w' :=
  ⟨h'.brokers.trans h.brokers, h'.streams.trans h.streams, h'.consumers.trans h.consumers,
    h'.connections.trans h.connections⟩

theorem OnlyCalls.setPhase (w : System) (c : CallId) (p : Phase) : OnlyCalls w (w.setPhase c p) :=
  ⟨rfl, rfl, rfl, rfl⟩

theorem OnlyCalls.slot (h : OnlyCalls w w') (b : BrokerId) (k : SourceKey) :
    w'.slot b k = w.slot b k := by
  unfold System.slot broker
  rw [h.brokers]

theorem OnlyCalls.counters (h : OnlyCalls w w') (b : BrokerId) :
    w'.countersOf b = w.countersOf b := by
  unfold countersOf broker
  rw [h.brokers]

/-- From `w` to `w'` the calls come to wait for the open of `o`, and nothing else happens. -/
structure Queues (w w' : System) (o : CallId) (wish : CallId → Acquisition) (cs : List CallId) :
    Prop extends OnlyCalls w w' where
  waits : ∀ c ∈ cs, w'.phaseOf c = .waiting (wish c) o

/-- From `w` to `w'` the call begins an open for the key, with its mark in the slot; what is listed stays
listed, and nothing is counted or asked of the tuner yet. -/
structure Starts (w w' : System) (c : CallId) (b : BrokerId) (k : SourceKey) : Prop where
  opens : w'.Opens c b k
  mark : (w'.slot b k).opening = some c
  listed : ∀ b' k', (w'.listedAt b' k').Perm (w.listedAt b' k')
  counters : ∀ b', w'.countersOf b' = w.countersOf b'
  connections : w'.connections = w.connections

/-- During an open a call that looks at the slot comes to wait for it. -/
theorem step_queue (g : w.Flight) (hp : w.phaseOf c = .seeking a)
    (opens : w.Opens o (w.brokerOf c) a.key) :
    w.step (.turn (.call c)) = w.setPhase c (.waiting a o) := by
  have mark := (g.marks _ _ _).2 opens
  have vacant := (g.order _ _).vacant o mark
  have taken := g.opening_filter (w.brokerOf c) a.key
  rw [mark] at taken
  rw [step_seeking hp]
  simp only [seek, vacant, enqueue, mark, taken]

/-- Where nothing delivers and the slot has no mark, a call that looks at it opens. -/
theorem opens_seeking (g : w.Flight) (l : w.Ledger) (bound : ∀ s, w.attachments s < 2 ^ 32)
    (hp : w.phaseOf c = .seeking a) (idle : ∀ s, ¬ w.OnOffer (w.brokerOf c) a.key s)
    (vacant : (w.slot (w.brokerOf c) a.key).opening = none) :
    (w.step (.turn (.call c))).Opens c (w.brokerOf c) a.key := by
  have hc : c < w.calls.size := w.lt_of_phaseOf c (by simp [hp])
  rw [step_seeking hp]
  cases hs : (w.slot (w.brokerOf c) a.key).shared with
  | none =>
    simp only [seek, hs]
    exact opens_enqueue hc vacant
  | some s =>
    have listed : s ∈ w.listedAt (w.brokerOf c) a.key := (Slot.mem_streams _ _).2 (.inl hs)
    have counted := (l.counted listed).consumers_ne_zero (bound s)
    have dead : ¬ (w.stream s).isLive := fun live =>
      idle s ⟨listed, (g.order _ _).sharing s hs, live⟩
    simp only [seek, hs, if_neg counted, if_neg dead]
    refine opens_enqueue (w := (w.note c _).putSlot (w.brokerOf c) a.key _) hc ?_
    show (((w.note c _).putSlot (w.brokerOf c) a.key _).slot (w.brokerOf c) a.key).opening = none
    rw [slot_putSlot]
    split
    · rw [Slot.opening_demote]
      exact vacant
    · exact vacant

/-- Where nothing delivers and no open is in flight, a call that looks at the slot starts one. -/
theorem starts_seeking (g : w.Sound) (l : w.Ledger) (bound : ∀ s, w.attachments s < 2 ^ 32)
    (hp : w.phaseOf c = .seeking a) (idle : ∀ s, ¬ w.OnOffer (w.brokerOf c) a.key s)
    (free : ∀ o, ¬ w.Opens o (w.brokerOf c) a.key) :
    w.Starts (w.step (.turn (.call c))) c (w.brokerOf c) a.key := by
  have vacant : (w.slot (w.brokerOf c) a.key).opening = none :=
    Option.eq_none_iff_forall_ne_some.2 fun o ho => free o ((g.flight.marks _ _ _).1 ho)
  have opens := opens_seeking g.flight l bound hp idle vacant
  have unattached : ((w.step (.turn (.call c))).phaseOf c).attached? = none := by
    obtain ⟨-, a', ha', -⟩ := opens
    generalize (w.step (.turn (.call c))).phaseOf c = q at ha'
    cases q with
    | finished => cases ha'
    | _ => rfl
  have pursues : (w.phaseOf c).Pursues a := by
    rw [hp]
    exact .seeking
  have harmless := g.harmless rfl pursues unattached
  refine ⟨opens, ((g.step _).flight.marks _ _ _).2 opens, harmless.listed, fun b' => ?_, ?_⟩
  · rcases harmless.counters b' with same | ⟨-, -, ho, -⟩
    · exact same
    · rw [hp] at ho
      cases ho
  · rw [step_seeking hp]
    exact (seek_keeps w c a).1

/-! ### Whatever is there -/

/-- What calls find that look at a slot, `first` before the others: they join the stream on offer if it
delivers, or else wait for the open in flight; without either the first opens and the others wait for
it. -/
structure Served (w w' : System) (b : BrokerId) (k : SourceKey) (wish : CallId → Acquisition)
    (cs : List CallId) (first : CallId) : Prop where
  joins : ∀ s, w.OnOffer b k s → w.Joins w' b s wish cs
  queues : ∀ o, w.Opens o b k → w.Queues w' o wish cs
  starts : (∀ s, ¬ w.OnOffer b k s) → (∀ o, ¬ w.Opens o b k) →
    w.Starts w' first b k ∧ ∀ c ∈ cs, c ≠ first → w'.phaseOf c = .waiting (wish c) first

theorem Served.perm {cs' : List CallId} (h : w.Served w' b k wish cs c) (hp : cs.Perm cs') :
    w.Served w' b k wish cs' c where
  joins s offered := (h.joins s offered).perm hp
  queues o opens :=
    have queues := h.queues o opens
    ⟨queues.toOnlyCalls, fun d hd => queues.waits d (hp.mem_iff.2 hd)⟩
  starts idle free :=
    have starts := h.starts idle free
    ⟨starts.1, fun d hd => starts.2 d (hp.mem_iff.2 hd)⟩

theorem queues_seeking (g : w.Flight) (hp : w.phaseOf c = .seeking (wish c))
    (opens : w.Opens o (w.brokerOf c) (wish c).key) :
    w.Queues (w.step (.turn (.call c))) o wish [c] := by
  have hc : c < w.calls.size := w.lt_of_phaseOf c (by simp [hp])
  rw [step_queue g hp opens]
  refine ⟨.setPhase w c _, fun d hd => ?_⟩
  rw [List.mem_singleton.1 hd, phaseOf_setPhase, if_pos ⟨rfl, hc⟩]

theorem served_seeking (g : w.Sound) (l : w.Ledger) (bound : ∀ s, w.attachments s < 2 ^ 32)
    (hp : w.phaseOf c = .seeking (wish c)) :
    w.Served (w.step (.turn (.call c))) (w.brokerOf c) (wish c).key wish [c] c where
  joins s offered := by
    have shared := g.eq_shared offered.listed offered.sharing offered.live
    have counted := (l.counted offered.listed).consumers_ne_zero (bound s)
    exact joins_seeking g hp shared counted offered.live
  queues o opens := queues_seeking g.flight hp opens
  starts idle free :=
    ⟨starts_seeking g l bound hp idle free,
      fun d hd hn => absurd (List.mem_singleton.1 hd) hn⟩

end System

end TunerBroker
