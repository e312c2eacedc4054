import TunerBroker.Proofs.Sources.Excerpt
import TunerBroker.Proofs.Opens.Waiting

/-! A system mirrors another on an excerpt where it has all that the excerpt shows, under the new numbers.
Whatever else is in either of them does not keep what is shown alive differently. A change of what is
shown, made to both, leaves them mirrored. -/

namespace TunerBroker

/-! ### Counters added up -/

namespace Counters

instance : Zero Counters := ⟨{}⟩

instance : Add Counters := ⟨fun x y =>
  ⟨x.opens + y.opens, x.reuses + y.reuses, x.openFailures + y.openFailures, x.closes + y.closes,
    x.closeFailures + y.closeFailures⟩⟩

instance : Neg Counters := ⟨fun x => ⟨-x.opens, -x.reuses, -x.openFailures, -x.closes, -x.closeFailures⟩⟩

theorem zero_def : (0 : Counters) = {} := rfl

theorem add_def (x y : Counters) : x + y = ⟨x.opens + y.opens, x.reuses + y.reuses,
    x.openFailures + y.openFailures, x.closes + y.closes, x.closeFailures + y.closeFailures⟩ := rfl

theorem neg_def (x : Counters) :
    -x = ⟨-x.opens, -x.reuses, -x.openFailures, -x.closes, -x.closeFailures⟩ := rfl

instance : AddCommGroup Counters where
  add_assoc x y z := by simp [add_def, UInt64.add_assoc]
  zero_add x := by simp [add_def, zero_def]
  add_zero x := by simp [add_def, zero_def]
  add_comm x y := by simp [add_def, UInt64.add_comm]
  neg_add_cancel x := by simp only [add_def, neg_def, zero_def, UInt64.add_left_neg]
  nsmul := nsmulRec
  zsmul := zsmulRec

theorem add_record (x y : Counters) (t : Tick) : x + y.record t = (x + y).record t := by
  cases t <;> simp [record, add_def, UInt64.add_assoc]

end Counters

namespace Excerpt

/-- The connection is shown; it is there, and the stream's own. -/
def Links (E : Excerpt) (w : System) (n : ConnectionId) (s : StreamId) : Prop :=
  n ∈ E.connections ∧ n < w.connections.size ∧ (w.connection n).stream = s

/-- `v` has what the excerpt shows of `w`, and `gap` is what the counters of `w` are ahead. -/
structure Mirrors (E : Excerpt) (gap : BrokerId → Counters) (v w : System) : Prop where
  clock : v.clock = w.clock
  desk : v.desk = w.desk
  fired : v.fired = w.fired
  brokers : v.brokers.size = w.brokers.size
  counters : ∀ b, w.countersOf b = gap b + v.countersOf b
  calls : v.calls.size = E.calls w.calls.size
  streams : v.streams.size = E.streams w.streams.size
  connections : v.connections.size = E.connections w.connections.size
  consumers : v.consumers.size = E.consumers w.consumers.size
  phaseOf : ∀ c ∈ E.calls, v.phaseOf (E.calls c) = E.phase (w.phaseOf c)
  brokerOf : ∀ c ∈ E.calls, v.brokerOf (E.calls c) = w.brokerOf c
  announcedBy : ∀ c ∈ E.calls, v.announcedBy (E.calls c) = (w.announcedBy c).map E.announcement
  stream : ∀ s ∈ E.streams, v.stream (E.streams s) = E.stream (w.stream s)
  terms : ∀ n ∈ E.connections, (v.connection (E.connections n)).terms = (w.connection n).terms
  place : ∀ n ∈ E.connections, n < w.connections.size →
    (v.connection (E.connections n)).stream = E.streams (w.connection n).stream
  consumer : ∀ i ∈ E.consumers,
    v.consumers.get? (E.consumers i) = (w.consumers.get? i).map E.consumer
  slot : ∀ b k, (b, k) ∈ E → v.slot b k = E.slot (w.slot b k)
  /-- What a slot lists and marks is shown with it. -/
  covers : ∀ b k, (b, k) ∈ E → E.Covers (w.slot b k)
  /-- A call is shown with the streams it holds. -/
  holds : ∀ c ∈ E.calls, ∀ s ∈ (w.phaseOf c).holds, s ∈ E.streams
  /-- A stream is shown with its connection. -/
  pumps : ∀ s ∈ E.streams, ∀ n, (w.stream s).pump.connection? = some n → E.Links w n s
  /-- A stream that is shown is listed only where that shows. -/
  unlisted : ∀ b k, (b, k) ∉ E → ∀ s ∈ E.streams,
    E.streams s ∉ (v.slot b k).streams ∧ s ∉ (w.slot b k).streams
  /-- A stream that is shown is held by calls that are not in one as in the other. -/
  heldBeside : ∀ s ∈ E.streams,
    (∃ d, (∀ c ∈ E.calls, E.calls c ≠ d) ∧ E.streams s ∈ (v.phaseOf d).holds) ↔
      ∃ c, c ∉ E.calls ∧ s ∈ (w.phaseOf c).holds

namespace Mirrors

open TunerBroker.System

variable {E : Excerpt} {g : BrokerId → Counters} {v w : System} {b : BrokerId} {k : SourceKey}
  {c o : CallId} {s : StreamId} {n : ConnectionId} {i : ConsumerId} {p : Phase}

section

variable (h : E.Mirrors g v w)

include h

/-! ### What is read off both -/

theorem hasFired (t : Option Token) : v.hasFired t = w.hasFired t := by
  cases t with
  | none => rfl
  | some t => simp only [System.hasFired, h.fired]

theorem inFlight (hc : c ∈ E.calls) : v.inFlight (E.calls c) = w.inFlight c := by
  rw [System.inFlight, h.phaseOf c hc, isOpening_phase, System.inFlight]

theorem lt_calls (hc : c ∈ E.calls) : E.calls c < v.calls.size ↔ c < w.calls.size := by
  rw [h.calls, Pick.lt_iff hc]

theorem lt_streams (hs : s ∈ E.streams) : E.streams s < v.streams.size ↔ s < w.streams.size := by
  rw [h.streams, Pick.lt_iff hs]

/-- A stream that is shown is held by a call in one as in the other. -/
theorem holds_iff (hs : s ∈ E.streams) :
    (∃ d, E.streams s ∈ (v.phaseOf d).holds) ↔ ∃ c, s ∈ (w.phaseOf c).holds := by
  constructor
  · rintro ⟨d, hd⟩
    by_cases shown : ∃ c ∈ E.calls, E.calls c = d
    · obtain ⟨c, hc, rfl⟩ := shown
      rw [h.phaseOf c hc, holds_phase, List.mem_map] at hd
      obtain ⟨t, ht, same⟩ := hd
      rw [Pick.inj (h.holds c hc t ht) hs] at same
      exact ⟨c, same ▸ ht⟩
    · obtain ⟨c, -, hc⟩ := (h.heldBeside s hs).1 ⟨d, fun c hc he => shown ⟨c, hc, he⟩, hd⟩
      exact ⟨c, hc⟩
  · rintro ⟨c, hc⟩
    by_cases shown : c ∈ E.calls
    · refine ⟨E.calls c, ?_⟩
      rw [h.phaseOf c shown, holds_phase]
      exact List.mem_map_of_mem hc
    · obtain ⟨d, -, hd⟩ := (h.heldBeside s hs).2 ⟨c, shown, hc⟩
      exact ⟨d, hd⟩

/-- Where a change touches no call beside those shown, the others hold what they held. -/
theorem besides {v' w' : System} (hs : s ∈ E.streams)
    (hv : ∀ d, (∀ c ∈ E.calls, E.calls c ≠ d) → v'.phaseOf d = v.phaseOf d)
    (hw : ∀ c, c ∉ E.calls → w'.phaseOf c = w.phaseOf c) :
    (∃ d, (∀ c ∈ E.calls, E.calls c ≠ d) ∧ E.streams s ∈ (v'.phaseOf d).holds) ↔
      ∃ c, c ∉ E.calls ∧ s ∈ (w'.phaseOf c).holds := by
  refine Iff.trans (exists_congr fun d => and_congr_right fun hd => ?_) ((h.heldBeside s hs).trans
    (exists_congr fun c => and_congr_right fun hc => ?_))
  · rw [hv d hd]
  · rw [hw c hc]

theorem mem_slot (hs : s ∈ E.streams) (b : BrokerId) (k : SourceKey) :
    E.streams s ∈ (v.slot b k).streams ↔ s ∈ (w.slot b k).streams := by
  by_cases shown : (b, k) ∈ E
  · rw [← Slot.isRegistered_iff, ← Slot.isRegistered_iff, h.slot b k shown,
      isRegistered_slot (h.covers b k shown) hs]
  · obtain ⟨hv, hw⟩ := h.unlisted b k shown s hs
    exact iff_of_false hv hw

theorem isHeld (hs : s ∈ E.streams) : v.isHeld (E.streams s) = w.isHeld s := by
  rw [Bool.eq_iff_iff, isHeld_iff, isHeld_iff, h.stream s hs, h.holds_iff hs]
  simp only [h.mem_slot hs, named_stream]

theorem isFree (hs : s ∈ E.streams) : v.isFree (E.streams s) = w.isFree s := by
  rw [Bool.eq_iff_iff, isFree_iff, isFree_iff, h.stream s hs]
  have held := h.holds_iff hs
  simp only [named_stream]
  refine and_congr_right fun _ => ?_
  have := not_congr held
  simpa only [not_exists] using this

theorem openOver (ho : o ∈ E.calls) : v.openOver (E.calls o) = w.openOver o := by
  rw [Bool.eq_iff_iff, openOver_iff, openOver_iff, h.announcedBy o ho, h.phaseOf o ho, isOpening_phase]
  simp

theorem stageDue (hs : s ∈ E.streams) (stage : CloseStage) :
    v.stageDue (E.streams s) stage = w.stageDue s stage := by
  cases stage with
  | joining => simp [System.stageDue, h.stream s hs]
  | shutting due => simp [System.stageDue, h.clock]

theorem dialDue (d : Dial) : v.dialDue (E.dial d) = w.dialDue d := by
  simp [System.dialDue, h.hasFired, h.clock, dial]

theorem openWaitDue (hs : s ∈ E.streams) (x : OpenWait) :
    v.openWaitDue (E.streams s) (E.wait x) = w.openWaitDue s x := by
  cases x with
  | dialing d => exact h.dialDue d
  | closing stage => exact h.stageDue hs stage
  | ending => simp [System.openWaitDue, wait, h.stream s hs]
  | nowhere | outside => rfl
  | pausing due => simp [System.openWaitDue, wait, h.clock]

/-! ### Small changes -/

theorem note (o o' : Option CallId) (e e' : Event) : E.Mirrors g (v.note o e) (w.note o' e') :=
  { h with }

theorem witness (e e' : TunerEvent) : E.Mirrors g (v.witness e) (w.witness e') := { h with }

theorem record (b : BrokerId) (t : Tick) : E.Mirrors g (v.record b t) (w.record b t) := by
  have slots : ∀ (u : System) b' k, (u.record b t).slot b' k = u.slot b' k := fun u b' k =>
    ((Frame.refl (S := ∅) u).record b t).slot b' k
  exact {
    h with
    brokers := by simpa [System.record] using h.brokers
    counters := fun b' => by
      rw [countersOf_record, countersOf_record, h.brokers, h.counters]
      split
      · rw [Counters.add_record]
      · rfl
    slot := fun b' k hk => by rw [slots, slots, h.slot b' k hk]
    covers := fun b' k hk => by
      rw [slots]
      exact h.covers b' k hk
    unlisted := fun b' k hk s hs => by
      rw [slots, slots]
      exact h.unlisted b' k hk s hs }

theorem putSlot (hk : (b, k) ∈ E) {x y : Slot} (hx : x = E.slot y) (covers : E.Covers y) :
    E.Mirrors g (v.putSlot b k x) (w.putSlot b k y) where
  __ := h
  brokers := by simpa using h.brokers
  counters b' := by
    rw [System.putSlot, System.putSlot, countersOf_setSlots, countersOf_setSlots, h.counters]
  phaseOf := h.phaseOf
  brokerOf := h.brokerOf
  announcedBy := h.announcedBy
  slot b' k' hk' := by
    rw [slot_putSlot, slot_putSlot, h.brokers]
    split
    · exact hx
    · exact h.slot b' k' hk'
  covers b' k' hk' := by
    rw [slot_putSlot]
    split
    · exact covers
    · exact h.covers b' k' hk'
  unlisted b' k' hk' s hs := by
    have other : ¬ (b' = b ∧ k' = k ∧ b < v.brokers.size) := by
      rintro ⟨rfl, rfl, -⟩
      exact hk' hk
    rw [slot_putSlot, if_neg other, slot_putSlot, if_neg (h.brokers ▸ other)]
    exact h.unlisted b' k' hk' s hs

theorem setStream (hs : s ∈ E.streams) {f f' : Stream → Stream}
    (hf : f' (E.stream (w.stream s)) = E.stream (f (w.stream s)))
    (pumps : ∀ n, (f (w.stream s)).pump.connection? = some n → E.Links w n s) :
    E.Mirrors g (v.setStream (E.streams s) f') (w.setStream s f) where
  __ := h
  streams := by simpa using h.streams
  phaseOf := h.phaseOf
  brokerOf := h.brokerOf
  announcedBy := h.announcedBy
  slot := h.slot
  stream t ht := by
    simp only [stream_setStream, Pick.inj ht hs, h.lt_streams hs, h.stream t ht]
    split
    · rename_i he
      rw [he.1, hf]
    · rfl
  pumps t ht n hn := by
    rw [stream_setStream] at hn
    split at hn
    · rename_i he
      rw [he.1] at hn ⊢
      exact pumps n hn
    · exact h.pumps t ht n hn

/-- A change of a stream that has nothing to do with its connection. -/
theorem tuneStream (hs : s ∈ E.streams) {f : Stream → Stream}
    (hf : f (E.stream (w.stream s)) = E.stream (f (w.stream s)))
    (pump : (f (w.stream s)).pump.connection? = (w.stream s).pump.connection?) :
    E.Mirrors g (v.setStream (E.streams s) f) (w.setStream s f) :=
  h.setStream hs hf fun n hn => h.pumps s hs n (pump ▸ hn)

theorem setLink (n n' : ConnectionId) (l l' : LinkState) :
    E.Mirrors g (v.setLink n l) (w.setLink n' l') := by
  have kept : ∀ (u : System) n l k, ((u.setLink n l).connection k).terms = (u.connection k).terms ∧
      ((u.setLink n l).connection k).stream = (u.connection k).stream := by
    intro u n l k
    simp only [connection, System.setLink, Table.get?_update]
    split
    · cases u.connections.get? k <;> exact ⟨rfl, rfl⟩
    · exact ⟨rfl, rfl⟩
  exact {
    h with
    connections := by simpa [System.setLink] using h.connections
    terms := fun k hk => by rw [(kept v n l _).1, (kept w n' l' _).1, h.terms k hk]
    place := fun k hk there => by
      rw [(kept v n l _).2, (kept w n' l' _).2, h.place k hk (by simpa [System.setLink] using there)]
    pumps := fun s hs k hk => by
      obtain ⟨shown, there, place⟩ := h.pumps s hs k hk
      exact ⟨shown, by simpa [System.setLink] using there, by rwa [(kept w n' l' _).2]⟩ }

theorem dropLink (n n' : ConnectionId) : E.Mirrors g (v.dropLink n) (w.dropLink n') :=
  (h.setLink n n' .dropped .dropped).witness _ _

theorem setPhase (hc : c ∈ E.calls) {q : Phase} (hq : q = E.phase p)
    (holds : ∀ s ∈ p.holds, s ∈ E.streams) :
    E.Mirrors g (v.setPhase (E.calls c) q) (w.setPhase c p) where
  __ := h
  calls := by simpa using h.calls
  phaseOf d hd := by
    simp only [phaseOf_setPhase, Pick.inj hd hc, h.lt_calls hc, h.phaseOf d hd]
    split
    · exact hq
    · rfl
  brokerOf d hd := by rw [brokerOf_setPhase, brokerOf_setPhase, h.brokerOf d hd]
  announcedBy d hd := by rw [announcedBy_setPhase, announcedBy_setPhase, h.announcedBy d hd]
  holds d hd s hs := by
    rw [phaseOf_setPhase] at hs
    split at hs
    · exact holds s hs
    · exact h.holds d hd s hs
  heldBeside s hs := by
    refine h.besides hs (fun d hd => ?_) fun d hd => ?_
    · rw [phaseOf_setPhase, if_neg fun he => hd c hc he.1.symm]
    · exact (w.setPhase_cases c d p).resolve_right fun he => hd (he.1 ▸ hc)

/-- The call goes on to a place where it holds one stream. -/
theorem hold (hc : c ∈ E.calls) (hs : s ∈ E.streams) {q : Phase} (hq : q = E.phase p)
    (own : p.holds = [s]) : E.Mirrors g (v.setPhase (E.calls c) q) (w.setPhase c p) := by
  refine h.setPhase hc hq fun t ht => ?_
  rw [own] at ht
  rwa [List.mem_singleton.1 ht]

theorem finish (hc : c ∈ E.calls) {o o' : Outcome} (ho : o' = E.outcome o) :
    E.Mirrors g (v.finish (E.calls c) o') (w.finish c o) :=
  h.setPhase hc (by rw [ho]; rfl) (by simp [Phase.holds])

theorem announce (hc : c ∈ E.calls) {x y : Announcement} (hx : x = E.announcement y) :
    E.Mirrors g (v.announce (E.calls c) x) (w.announce c y) := by
  have phases : ∀ (u : System) c x d, (u.announce c x).phaseOf d = u.phaseOf d := fun u c x =>
    ((Frame.refl (S := ∅) u).announce c x).phaseOf
  have brokers : ∀ (u : System) c x d, (u.announce c x).brokerOf d = u.brokerOf d := fun u c x =>
    ((Frame.refl (S := ∅) u).announce c x).brokerOf
  exact {
    h with
    calls := by simpa [System.announce] using h.calls
    phaseOf := fun d hd => by rw [phases, phases, h.phaseOf d hd]
    brokerOf := fun d hd => by rw [brokers, brokers, h.brokerOf d hd]
    announcedBy := fun d hd => by
      simp only [announcedBy_announce, Pick.inj hd hc, h.lt_calls hc, h.announcedBy d hd]
      split
      · rw [hx]
        rfl
      · rfl
    holds := fun d hd s hs => by
      rw [phases] at hs
      exact h.holds d hd s hs
    heldBeside := fun s hs => h.besides hs (fun _ _ => phases ..) fun _ _ => phases .. }

theorem setStanding (hi : i ∈ E.consumers) (x : Standing) :
    E.Mirrors g (v.setStanding (E.consumers i) x) (w.setStanding i x) where
  __ := h
  consumers := by simpa using h.consumers
  phaseOf := h.phaseOf
  brokerOf := h.brokerOf
  announcedBy := h.announcedBy
  slot := h.slot
  consumer j hj := by
    simp only [System.setStanding, Table.get?_update, Pick.inj hj hi, h.consumer j hj]
    split
    · cases w.consumers.get? j <;> rfl
    · rfl

/-! ### What is new -/

theorem addStream (hs : w.streams.size ∈ E.streams) {x : Stream} (idle : x.pump = .idle) :
    E.Mirrors g (v.addStream x) (w.addStream x) where
  __ := h
  streams := by
    rw [streams_size_addStream, streams_size_addStream, E.streams.succ _ hs, h.streams]
  phaseOf := h.phaseOf
  brokerOf := h.brokerOf
  announcedBy := h.announcedBy
  slot := h.slot
  stream t ht := by
    simp only [stream_addStream, h.streams, Pick.inj ht hs, h.stream t ht]
    split
    · rw [stream_of_idle idle]
    · rfl
  pumps t ht n hn := by
    rw [stream_addStream] at hn
    split at hn
    · simp [idle, Pump.connection?] at hn
    · exact h.pumps t ht n hn

theorem addCall (hc : w.calls.size ∈ E.calls) {x y : Call} (phase : x.phase = E.phase y.phase)
    (broker : x.broker = y.broker) (announced : x.announced = y.announced.map E.announcement)
    (holds : ∀ s ∈ y.phase.holds, s ∈ E.streams) : E.Mirrors g (v.addCall x) (w.addCall y) where
  __ := h
  calls := by
    rw [calls_size_addCall, calls_size_addCall, E.calls.succ _ hc, h.calls]
  phaseOf d hd := by
    simp only [phaseOf_addCall, h.calls, Pick.inj hd hc, h.phaseOf d hd]
    split
    · exact phase
    · rfl
  brokerOf d hd := by
    simp only [brokerOf_addCall, h.calls, Pick.inj hd hc, h.brokerOf d hd]
    split
    · exact broker
    · rfl
  announcedBy d hd := by
    have told := h.announcedBy d hd
    simp only [System.announcedBy, System.addCall, Table.get?_add, h.calls, Pick.inj hd hc] at told ⊢
    split
    · exact announced
    · exact told
  stream := h.stream
  slot := h.slot
  holds d hd s hs := by
    rw [phaseOf_addCall] at hs
    split at hs
    · exact holds s hs
    · exact h.holds d hd s hs
  heldBeside s hs := by
    refine h.besides hs (fun d hd => ?_) fun d hd => ?_
    · rw [phaseOf_addCall, if_neg fun he => hd _ hc (h.calls ▸ he.symm)]
    · have old : d ≠ w.calls.size := fun he => hd (he ▸ hc)
      rw [phaseOf_addCall, if_neg old]

theorem addConsumer (hi : w.consumers.size ∈ E.consumers) {x y : Consumer} (hx : x = E.consumer y) :
    E.Mirrors g (v.addConsumer x) (w.addConsumer y) where
  __ := h
  consumers := by
    rw [System.addConsumer, System.addConsumer, Table.size_add, Table.size_add, E.consumers.succ _ hi,
      h.consumers]
  phaseOf := h.phaseOf
  brokerOf := h.brokerOf
  announcedBy := h.announcedBy
  stream := h.stream
  slot := h.slot
  consumer j hj := by
    simp only [System.addConsumer, Table.get?_add, h.consumers, Pick.inj hj hi, h.consumer j hj]
    split
    · rw [hx]
      rfl
    · rfl

/-- The tuner is asked, and answers alike. -/
theorem ask (hs : s ∈ E.streams) (hn : w.connections.size ∈ E.connections)
    (answer : v.terms.headD {} = w.terms.headD {}) :
    E.Mirrors g (v.ask (E.streams s)) (w.ask s) := by
  have added : ∀ (u : System) (x : Connection) (l : List TunerTerms) m,
      ({ u with connections := u.connections.add x, terms := l } : System).connection m =
        if m = u.connections.size then x else u.connection m := by
    intro u x l m
    simp only [connection, Table.get?_add]
    split <;> rfl
  have asked : E.Mirrors g
      { v with connections := v.connections.add { stream := E.streams s, terms := v.terms.headD {} }
               terms := v.terms.tail }
      { w with connections := w.connections.add { stream := s, terms := w.terms.headD {} }
               terms := w.terms.tail } := {
    h with
    connections := by
      rw [Table.size_add, Table.size_add, E.connections.succ _ hn, h.connections]
    terms := fun m hm => by
      simp only [added, h.connections, Pick.inj hm hn]
      split
      · exact answer
      · exact h.terms m hm
    place := fun m hm there => by
      rw [Table.size_add] at there
      simp only [added, h.connections, Pick.inj hm hn]
      split
      · rfl
      · exact h.place m hm (Nat.lt_of_le_of_ne (Nat.le_of_lt_succ there) ‹_›)
    pumps := fun t ht m hm => by
      obtain ⟨shown, there, place⟩ := h.pumps t ht m hm
      refine ⟨shown, ?_, ?_⟩
      · rw [Table.size_add]
        exact Nat.lt_succ_of_lt there
      · rwa [added, if_neg (Nat.ne_of_lt there)] }
  unfold System.ask
  exact (asked.witness _ _).tuneStream hs rfl rfl

/-! ### Letting go of a stream -/

/-- A pump that has a connection may have the same one afterwards. -/
theorem setPump (hs : s ∈ E.streams) (hn : (w.stream s).pump.connection? = some n)
    {f f' : Stream → Stream} (hf : f' (E.stream (w.stream s)) = E.stream (f (w.stream s)))
    (pump : (f (w.stream s)).pump.connection? = some n) :
    E.Mirrors g (v.setStream (E.streams s) f') (w.setStream s f) := by
  refine h.setStream hs hf fun m hm => h.pumps s hs m ?_
  rw [hn, ← pump, hm]

theorem detachPump (hs : s ∈ E.streams) :
    E.Mirrors g (v.detachPump (E.streams s)) (w.detachPump s) := by
  have marked := h.tuneStream hs (f := fun x => { x with stopping := true, detached := true }) rfl rfl
  simp only [System.detachPump, marked.stream s hs, pump_stream]
  cases hp : ((w.setStream s fun x => { x with stopping := true, detached := true }).stream s).pump with
  | stopped n =>
    refine dropLink (marked.setPump hs (n := n) (by rw [hp]; rfl) ?_ rfl) _ _
    rfl
  | crashed n message => exact marked.tuneStream hs rfl rfl
  | idle | reading n | collected n => exact marked

theorem reap (hs : s ∈ E.streams) : E.Mirrors g (v.reap (E.streams s)) (w.reap s) := by
  simp only [System.reap, h.isHeld hs, h.stream s hs, isConnected_stream, detached_stream]
  split
  · exact h
  · split
    · exact (h.detachPump hs).note _ _ _ _
    · exact h

/-! ### Slots and consumers -/

theorem endOpen (hc : c ∈ E.calls) (hk : (w.brokerOf c, k) ∈ E) :
    E.Mirrors g (v.endOpen (E.calls c) k none) (w.endOpen c k none) := by
  have covers := h.covers _ k hk
  simp only [System.endOpen, h.brokerOf c hc, h.slot _ k hk]
  refine h.putSlot hk ?_ (covers_unmark covers c)
  rw [slot_unmark covers hc]

/-- An open gives its stream to the slot. -/
theorem register (hc : c ∈ E.calls) (hs : s ∈ E.streams) (hk : (w.brokerOf c, k) ∈ E) :
    E.Mirrors g (v.endOpen (E.calls c) k (some (E.streams s))) (w.endOpen c k (some s)) := by
  have covers := h.covers _ k hk
  have unmarked := covers_unmark covers c
  simp only [System.endOpen, h.brokerOf c hc, h.slot _ k hk, h.stream s hs, sharing_stream]
  refine h.putSlot hk ?_ (covers_register unmarked hs _)
  rw [slot_register unmarked hs, slot_unmark covers hc]

theorem attach (hc : c ∈ E.calls) (hs : s ∈ E.streams) (hi : w.consumers.size ∈ E.consumers) :
    E.Mirrors g (v.attach (E.calls c) (E.streams s)) (w.attach c s) := by
  simp only [System.attach, h.brokerOf c hc, h.stream s hs, key_stream, h.consumers]
  have added := h.addConsumer hi (y := { broker := w.brokerOf c, stream := s, key := (w.stream s).key }) rfl
  exact added.finish hc (o := .attached w.consumers.size) rfl

theorem beginOpen (hc : c ∈ E.calls) (hs : w.streams.size ∈ E.streams) {a : Acquisition}
    (hk : (w.brokerOf c, a.key) ∈ E) {x : Slot} (covers : E.Covers x) :
    E.Mirrors g (v.beginOpen (E.calls c) (E.wish a) (E.slot x)) (w.beginOpen c a x) := by
  simp only [System.beginOpen, h.brokerOf c hc, key_wish, request_wish, config_wish, outside_wish,
    moves_wish]
  have marked := h.putSlot hk (x := { E.slot x with opening := some (E.calls c) }) rfl
    (covers_mark covers hc)
  refine (marked.addStream hs rfl).hold hc hs ?_ rfl
  show Phase.opening _ v.streams.size _ _ = Phase.opening _ (E.streams w.streams.size) _ _
  rw [h.streams]
  congr 1
  by_cases outside : a.plan.outside <;> simp [outside, wait]

theorem account (b : BrokerId) {x y : Except StreamError Unit} (hx : x = E.result y) :
    E.Mirrors g (v.account b x) (w.account b y) := by
  subst hx
  cases y with
  | ok u => exact h.record b .closed
  | error e =>
    simp only [result, System.account, isViolation_error]
    split
    · exact h
    · exact (h.record b .closed).record b .closeFailed

end

end Mirrors

end Excerpt

end TunerBroker
