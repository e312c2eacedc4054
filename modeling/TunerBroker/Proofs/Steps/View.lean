import TunerBroker.Proofs.Steps.Slots
import TunerBroker.System.Step

/-! What the small changes do to what can be seen of a system: the place of each call, the slots, the
streams and the consumers. Each change shows in one view and leaves the others as they were. -/

namespace TunerBroker

namespace System

variable (w : System) (b b' : BrokerId) (k k' : SourceKey) (c c' : CallId) (s t : StreamId)
  (p : Phase) (f : Stream → Stream)

/-! ### The start -/

theorem broker_fresh (configs : List BrokerConfig) (desk : AccessDesk) (terms : List TunerTerms)
    (b : BrokerId) : ((fresh configs desk terms).broker b).slots = {} ∧
      ((fresh configs desk terms).broker b).counters = {} := by
  simp only [broker, fresh, Table.get?, List.getElem?_map]
  cases configs[b]? <;> exact ⟨rfl, rfl⟩

theorem slot_fresh (configs : List BrokerConfig) (desk : AccessDesk) (terms : List TunerTerms)
    (b : BrokerId) (k : SourceKey) : (fresh configs desk terms).slot b k = {} := by
  rw [System.slot, (broker_fresh configs desk terms b).1]
  rfl

/-! ### Calls -/

theorem phaseOf_of_size_le (h : w.calls.size ≤ c) : w.phaseOf c = .abandoned := by
  simp [phaseOf, (Table.get?_eq_none_iff _ _).2 h]

theorem lt_of_phaseOf (h : w.phaseOf c ≠ .abandoned) : c < w.calls.size := by
  rcases Nat.lt_or_ge c w.calls.size with hc | hc
  · exact hc
  · exact absurd (w.phaseOf_of_size_le c hc) h

theorem phaseOf_setPhase :
    (w.setPhase c p).phaseOf c' = if c' = c ∧ c < w.calls.size then p else w.phaseOf c' := by
  simp only [phaseOf, setPhase, Table.get?_update]
  by_cases h : c' = c
  · subst h
    rcases Nat.lt_or_ge c' w.calls.size with hc | hc
    · cases hg : w.calls.get? c' with
      | none => exact absurd ((Table.get?_eq_none_iff _ _).1 hg) (by omega)
      | some x => simp [hc]
    · simp [(Table.get?_eq_none_iff _ _).2 hc, Nat.not_lt.2 hc]
  · simp [h]

theorem setPhase_cases :
    (w.setPhase c p).phaseOf c' = w.phaseOf c' ∨ c' = c ∧ (w.setPhase c p).phaseOf c' = p := by
  rw [phaseOf_setPhase]
  split
  · exact .inr ⟨(‹_› : _ ∧ _).1, rfl⟩
  · exact .inl rfl

@[simp] theorem brokerOf_setPhase : (w.setPhase c p).brokerOf c' = w.brokerOf c' := by
  simp only [brokerOf, setPhase, Table.get?_update]
  by_cases h : c' = c
  · subst h; cases w.calls.get? c' <;> simp
  · simp [h]

@[simp] theorem calls_size_setPhase : (w.setPhase c p).calls.size = w.calls.size := by
  simp [setPhase]

theorem phaseOf_addCall (x : Call) :
    (w.addCall x).phaseOf c = if c = w.calls.size then x.phase else w.phaseOf c := by
  by_cases h : c = w.calls.size <;> simp [phaseOf, addCall, Table.get?_add, h]

theorem brokerOf_addCall (x : Call) :
    (w.addCall x).brokerOf c = if c = w.calls.size then x.broker else w.brokerOf c := by
  by_cases h : c = w.calls.size <;> simp [brokerOf, addCall, Table.get?_add, h]

@[simp] theorem calls_size_addCall (x : Call) : (w.addCall x).calls.size = w.calls.size + 1 := by
  simp [addCall]

/-! ### Slots -/

@[simp] theorem brokers_size_setSlots (g) : (w.setSlots b g).brokers.size = w.brokers.size := by
  simp [setSlots]

theorem slots_setSlots (g : Keyed SourceKey Slot → Keyed SourceKey Slot) :
    ((w.setSlots b g).broker b').slots =
      if b' = b ∧ b < w.brokers.size then g (w.broker b').slots else (w.broker b').slots := by
  simp only [broker, setSlots, Table.get?_update]
  by_cases h : b' = b
  · subst h
    rcases Nat.lt_or_ge b' w.brokers.size with hb | hb
    · cases hg : w.brokers.get? b' with
      | none => exact absurd ((Table.get?_eq_none_iff _ _).1 hg) (Nat.not_le.2 hb)
      | some x => simp [hb]
    · simp [(Table.get?_eq_none_iff _ _).2 hb, Nat.not_lt.2 hb]
  · simp [h]

@[simp] theorem brokers_size_putSlot (x : Slot) :
    (w.putSlot b k x).brokers.size = w.brokers.size := by
  simp [putSlot]

theorem slot_putSlot (x : Slot) : (w.putSlot b k x).slot b' k' =
    if b' = b ∧ k' = k ∧ b < w.brokers.size then x else w.slot b' k' := by
  simp only [slot, putSlot, slots_setSlots]
  by_cases h : b' = b ∧ b < w.brokers.size
  · obtain ⟨rfl, hb⟩ := h
    by_cases he : x.isEmpty
    · simp only [he, if_true, hb]
      by_cases hk : k' = k <;> simp [hk, Slot.eq_empty_of_isEmpty he]
    · by_cases hk : k' = k <;> simp [he, hk, hb]
  · rw [if_neg h, if_neg fun h' => h ⟨h'.1, h'.2.2⟩]

theorem putSlot_putSlot {x y : Slot} (hx : x.isEmpty = false) (hy : y.isEmpty = false) :
    (w.putSlot b k x).putSlot b k y = w.putSlot b k y := by
  simp only [putSlot, setSlots, hx, hy, Table.update, List.modify_modify_eq]
  simp [Function.comp_def, Keyed.put_put]

/-- Only a broker that is there has anything in a slot. -/
theorem lt_of_slot (h : w.slot b k ≠ {}) : b < w.brokers.size := by
  rcases Nat.lt_or_ge b w.brokers.size with hb | hb
  · exact hb
  · exact absurd (by simp [slot, broker, (Table.get?_eq_none_iff _ _).2 hb, Keyed.get?]) h

/-! ### Streams -/

@[simp] theorem streams_size_setStream : (w.setStream s f).streams.size = w.streams.size := by
  simp [setStream]

theorem stream_of_size_le (h : w.streams.size ≤ s) : w.stream s = .blank := by
  simp [stream, (Table.get?_eq_none_iff _ _).2 h]

theorem stream_setStream :
    (w.setStream s f).stream t = if t = s ∧ s < w.streams.size then f (w.stream t) else w.stream t := by
  simp only [stream, setStream, Table.get?_update]
  by_cases h : t = s
  · subst h
    rcases Nat.lt_or_ge t w.streams.size with hs | hs
    · cases hg : w.streams.get? t with
      | none => exact absurd ((Table.get?_eq_none_iff _ _).1 hg) (by omega)
      | some x => simp [hs]
    · simp [(Table.get?_eq_none_iff _ _).2 hs, Nat.not_lt.2 hs]
  · simp [h]

@[simp] theorem stream_setStream_self (hs : s < w.streams.size) :
    (w.setStream s f).stream s = f (w.stream s) := by
  simp [stream_setStream, hs]

@[simp] theorem stream_setStream_ne (h : t ≠ s) : (w.setStream s f).stream t = w.stream t := by
  simp [stream_setStream, h]

@[simp] theorem streams_size_addStream (x : Stream) :
    (w.addStream x).streams.size = w.streams.size + 1 := by
  simp [addStream]

theorem stream_addStream (x : Stream) :
    (w.addStream x).stream s = if s = w.streams.size then x else w.stream s := by
  simp only [stream, addStream, Table.get?_add]
  split <;> simp

/-! ### Consumers -/

@[simp] theorem consumers_size_setStanding (x : Standing) :
    (w.setStanding i x).consumers.size = w.consumers.size := by
  simp [setStanding]

/-! ### Each change leaves the other views alone -/

section Aside

variable (y : Stream) (z : Consumer) (x : Standing) (q : Slot) (call : Call) (i : ConsumerId)
  (o : Option CallId) (e : Event)

@[simp] theorem phaseOf_note : (w.note o e).phaseOf c = w.phaseOf c := rfl
@[simp] theorem calls_note : (w.note o e).calls = w.calls := rfl
@[simp] theorem slot_note : (w.note o e).slot b k = w.slot b k := rfl
@[simp] theorem stream_note : (w.note o e).stream s = w.stream s := rfl

@[simp] theorem slot_setPhase : (w.setPhase c p).slot b k = w.slot b k := rfl
@[simp] theorem stream_setPhase : (w.setPhase c p).stream s = w.stream s := rfl
@[simp] theorem broker_setPhase : (w.setPhase c p).broker b = w.broker b := rfl
@[simp] theorem brokers_setPhase : (w.setPhase c p).brokers = w.brokers := rfl
@[simp] theorem streams_setPhase : (w.setPhase c p).streams = w.streams := rfl
@[simp] theorem consumers_setPhase : (w.setPhase c p).consumers = w.consumers := rfl

@[simp] theorem slot_addCall : (w.addCall call).slot b k = w.slot b k := rfl
@[simp] theorem stream_addCall : (w.addCall call).stream s = w.stream s := rfl
@[simp] theorem brokers_addCall : (w.addCall call).brokers = w.brokers := rfl
@[simp] theorem streams_addCall : (w.addCall call).streams = w.streams := rfl
@[simp] theorem consumers_addCall : (w.addCall call).consumers = w.consumers := rfl

@[simp] theorem phaseOf_putSlot : (w.putSlot b k q).phaseOf c = w.phaseOf c := rfl
@[simp] theorem brokerOf_putSlot : (w.putSlot b k q).brokerOf c = w.brokerOf c := rfl
@[simp] theorem stream_putSlot : (w.putSlot b k q).stream s = w.stream s := rfl
@[simp] theorem calls_putSlot : (w.putSlot b k q).calls = w.calls := rfl
@[simp] theorem streams_putSlot : (w.putSlot b k q).streams = w.streams := rfl
@[simp] theorem consumers_putSlot : (w.putSlot b k q).consumers = w.consumers := rfl

@[simp] theorem phaseOf_setStream : (w.setStream s f).phaseOf c = w.phaseOf c := rfl
@[simp] theorem brokerOf_setStream : (w.setStream s f).brokerOf c = w.brokerOf c := rfl
@[simp] theorem slot_setStream : (w.setStream s f).slot b k = w.slot b k := rfl
@[simp] theorem calls_setStream : (w.setStream s f).calls = w.calls := rfl
@[simp] theorem brokers_setStream : (w.setStream s f).brokers = w.brokers := rfl
@[simp] theorem consumers_setStream : (w.setStream s f).consumers = w.consumers := rfl

@[simp] theorem phaseOf_addStream : (w.addStream y).phaseOf c = w.phaseOf c := rfl
@[simp] theorem brokerOf_addStream : (w.addStream y).brokerOf c = w.brokerOf c := rfl
@[simp] theorem slot_addStream : (w.addStream y).slot b k = w.slot b k := rfl
@[simp] theorem calls_addStream : (w.addStream y).calls = w.calls := rfl
@[simp] theorem brokers_addStream : (w.addStream y).brokers = w.brokers := rfl
@[simp] theorem consumers_addStream : (w.addStream y).consumers = w.consumers := rfl

@[simp] theorem phaseOf_addConsumer : (w.addConsumer z).phaseOf c = w.phaseOf c := rfl
@[simp] theorem brokerOf_addConsumer : (w.addConsumer z).brokerOf c = w.brokerOf c := rfl
@[simp] theorem slot_addConsumer : (w.addConsumer z).slot b k = w.slot b k := rfl
@[simp] theorem stream_addConsumer : (w.addConsumer z).stream s = w.stream s := rfl
@[simp] theorem calls_addConsumer : (w.addConsumer z).calls = w.calls := rfl
@[simp] theorem brokers_addConsumer : (w.addConsumer z).brokers = w.brokers := rfl
@[simp] theorem streams_addConsumer : (w.addConsumer z).streams = w.streams := rfl

@[simp] theorem phaseOf_setStanding : (w.setStanding i x).phaseOf c = w.phaseOf c := rfl
@[simp] theorem brokerOf_setStanding : (w.setStanding i x).brokerOf c = w.brokerOf c := rfl
@[simp] theorem slot_setStanding : (w.setStanding i x).slot b k = w.slot b k := rfl
@[simp] theorem stream_setStanding : (w.setStanding i x).stream s = w.stream s := rfl
@[simp] theorem calls_setStanding : (w.setStanding i x).calls = w.calls := rfl
@[simp] theorem brokers_setStanding : (w.setStanding i x).brokers = w.brokers := rfl
@[simp] theorem streams_setStanding : (w.setStanding i x).streams = w.streams := rfl

end Aside

/-! ### Changes made of several -/

section Compound

variable (a : Acquisition) (x : Slot) (given : Option StreamId) (gated : Bool) (errand : Errand)

@[simp] theorem finish_eq (o : Outcome) : w.finish c o = w.setPhase c (.finished o) := rfl

theorem attach_eq : w.attach c s =
    (w.addConsumer { broker := w.brokerOf c, stream := s, key := (w.stream s).key }).setPhase c
      (.finished (.attached w.consumers.size)) := rfl

/-- A slot once the open of a call in it has ended. -/
def endedSlot (w : System) (c : CallId) (given : Option StreamId) (x : Slot) : Slot :=
  let x := if x.opening = some c then { x with opening := none } else x
  match given with
  | some s => x.register s (w.stream s).sharing
  | none => x

/-- A slot without the mark of a call. -/
theorem streams_unmarked : (if x.opening = some c then { x with opening := none } else x).streams =
    x.streams := by
  split <;> rfl

theorem mem_streams_endedSlot :
    t ∈ (w.endedSlot c given x).streams ↔ t ∈ x.streams ∨ given = some t := by
  cases given with
  | none => simp [endedSlot, streams_unmarked]
  | some s => simp [endedSlot, Slot.mem_streams_register, streams_unmarked, eq_comm]

theorem within_endedSlot : (w.endedSlot c none x).Within x := .of_eq (streams_unmarked c x)

theorem nodup_endedSlot (h : x.streams.Nodup) (hg : ∀ s ∈ given, s ∉ x.streams) :
    (w.endedSlot c given x).streams.Nodup := by
  cases given with
  | none => simpa [endedSlot, streams_unmarked] using h
  | some s =>
    refine Slot.nodup_register _ _ _ ?_ ?_
    · rwa [streams_unmarked]
    · rw [streams_unmarked]
      exact hg s rfl

theorem endOpen_eq : w.endOpen c k given =
    w.putSlot (w.brokerOf c) k (w.endedSlot c given (w.slot (w.brokerOf c) k)) := rfl

theorem slot_endOpen : (w.endOpen c k given).slot b' k' =
    if b' = w.brokerOf c ∧ k' = k ∧ w.brokerOf c < w.brokers.size then
      w.endedSlot c given (w.slot b' k') else w.slot b' k' := by
  rw [endOpen_eq, slot_putSlot]
  split
  · rename_i h
    rw [h.1, h.2.1]
  · rfl

/-- The stream that an open gives is on the list afterwards. -/
theorem mem_streams_endOpen (hb : w.brokerOf c < w.brokers.size) :
    s ∈ ((w.endOpen c k (some s)).slot (w.brokerOf c) k).streams := by
  rw [slot_endOpen, if_pos ⟨rfl, rfl, hb⟩]
  exact (mem_streams_endedSlot _ _ _ _ _).2 (.inr rfl)

@[simp] theorem phaseOf_endOpen : (w.endOpen c k given).phaseOf c' = w.phaseOf c' := rfl
@[simp] theorem brokerOf_endOpen : (w.endOpen c k given).brokerOf c' = w.brokerOf c' := rfl
@[simp] theorem stream_endOpen : (w.endOpen c k given).stream s = w.stream s := rfl
@[simp] theorem calls_endOpen : (w.endOpen c k given).calls = w.calls := rfl
@[simp] theorem streams_endOpen : (w.endOpen c k given).streams = w.streams := rfl
@[simp] theorem consumers_endOpen : (w.endOpen c k given).consumers = w.consumers := rfl
@[simp] theorem brokers_size_endOpen : (w.endOpen c k given).brokers.size = w.brokers.size := by
  simp [endOpen_eq]

theorem phaseOf_attach : (w.attach c s).phaseOf c' =
    if c' = c ∧ c < w.calls.size then .finished (.attached w.consumers.size) else w.phaseOf c' := by
  rw [attach_eq, phaseOf_setPhase]
  rfl

@[simp] theorem slot_attach : (w.attach c s).slot b k = w.slot b k := rfl
@[simp] theorem stream_attach : (w.attach c s).stream t = w.stream t := rfl
@[simp] theorem brokers_attach : (w.attach c s).brokers = w.brokers := rfl
@[simp] theorem streams_attach : (w.attach c s).streams = w.streams := rfl
@[simp] theorem brokerOf_attach : (w.attach c s).brokerOf c' = w.brokerOf c' := by
  simp [attach_eq]
@[simp] theorem calls_size_attach : (w.attach c s).calls.size = w.calls.size := by
  simp [attach_eq]

/-- How an open starts out. -/
def openingPhase (w : System) (a : Acquisition) : Phase :=
  .opening a w.streams.size a.plan.moves (if a.plan.outside then .outside else .nowhere)

theorem beginOpen_eq : w.beginOpen c a x =
    ((w.putSlot (w.brokerOf c) a.key { x with opening := some c }).addStream
      (.ofRequest a.plan.request a.plan.config)).setPhase c (w.openingPhase a) := rfl

theorem phaseOf_beginOpen : (w.beginOpen c a x).phaseOf c' =
    if c' = c ∧ c < w.calls.size then w.openingPhase a else w.phaseOf c' := by
  rw [beginOpen_eq, phaseOf_setPhase]
  rfl

theorem slot_beginOpen : (w.beginOpen c a x).slot b k =
    if b = w.brokerOf c ∧ k = a.key ∧ w.brokerOf c < w.brokers.size then
      { x with opening := some c } else w.slot b k := by
  rw [beginOpen_eq, slot_setPhase, slot_addStream, slot_putSlot]

theorem stream_beginOpen : (w.beginOpen c a x).stream s =
    if s = w.streams.size then .ofRequest a.plan.request a.plan.config else w.stream s := by
  rw [beginOpen_eq, stream_setPhase, stream_addStream]
  rfl

@[simp] theorem brokerOf_beginOpen : (w.beginOpen c a x).brokerOf c' = w.brokerOf c' := by
  simp [beginOpen_eq]
@[simp] theorem consumers_beginOpen : (w.beginOpen c a x).consumers = w.consumers := rfl
@[simp] theorem calls_size_beginOpen : (w.beginOpen c a x).calls.size = w.calls.size := by
  simp [beginOpen_eq]
@[simp] theorem brokers_size_beginOpen : (w.beginOpen c a x).brokers.size = w.brokers.size := by
  simp [beginOpen_eq]
@[simp] theorem streams_size_beginOpen : (w.beginOpen c a x).streams.size = w.streams.size + 1 := by
  simp [beginOpen_eq]

@[simp] theorem streams_begin : (w.begin b gated errand).streams = w.streams := by
  cases errand <;> rfl
@[simp] theorem brokers_begin : (w.begin b gated errand).brokers = w.brokers := by
  cases errand <;> rfl
@[simp] theorem stream_begin : (w.begin b gated errand).stream s = w.stream s := by
  cases errand <;> rfl
@[simp] theorem slot_begin : (w.begin b gated errand).slot b' k = w.slot b' k := by
  cases errand <;> rfl

theorem calls_begin : (w.begin b gated errand).calls =
    (w.addCall { broker := b, gated, phase := errand.origin }).calls := by
  cases errand <;> rfl

theorem phaseOf_begin : (w.begin b gated errand).phaseOf c =
    if c = w.calls.size then errand.origin else w.phaseOf c := by
  rw [phaseOf, calls_begin]
  exact phaseOf_addCall _ _ _

theorem brokerOf_begin : (w.begin b gated errand).brokerOf c =
    if c = w.calls.size then b else w.brokerOf c := by
  rw [brokerOf, calls_begin]
  exact brokerOf_addCall _ _ _

/-- A sweep leaves the marks and nothing else. -/
theorem slot_sweep : (w.sweep c).slot b k =
    if b = w.brokerOf c then { opening := (w.slot b k).opening } else w.slot b k := by
  simp only [sweep, slot, broker_setPhase, slots_setSlots]
  by_cases h : b = w.brokerOf c
  · subst h
    rcases Nat.lt_or_ge (w.brokerOf c) w.brokers.size with hb | hb
    · cases hg : (w.broker (w.brokerOf c)).slots.get? k with
      | none => simp [hb, hg]
      | some x => cases ho : x.opening <;> simp [hb, hg, ho, Slot.takeStreams]
    · simp [broker, (Table.get?_eq_none_iff _ _).2 hb, Nat.not_lt.2 hb, Keyed.get?]
  · simp [h]

theorem phaseOf_sweep : (w.sweep c).phaseOf c' = if c' = c ∧ c < w.calls.size then
    .sweeping none (w.listed (w.brokerOf c)) 0 else w.phaseOf c' := by
  rw [sweep, phaseOf_setPhase]
  rfl

@[simp] theorem stream_sweep : (w.sweep c).stream s = w.stream s := rfl
@[simp] theorem streams_sweep : (w.sweep c).streams = w.streams := rfl
@[simp] theorem consumers_sweep : (w.sweep c).consumers = w.consumers := rfl
@[simp] theorem brokerOf_sweep : (w.sweep c).brokerOf c' = w.brokerOf c' := by
  rw [sweep, brokerOf_setPhase]
  rfl
@[simp] theorem brokers_size_sweep : (w.sweep c).brokers.size = w.brokers.size := by
  rw [sweep, brokers_setPhase, brokers_size_setSlots]

end Compound

/-! ### Streams listed, held and free -/

theorem mem_listed : s ∈ w.listed b ↔ ∃ k, s ∈ (w.slot b k).streams := by
  simp only [listed, List.mem_flatMap, Keyed.mem_values, slot]
  constructor
  · rintro ⟨x, ⟨k, hk⟩, hs⟩
    exact ⟨k, by rwa [hk]⟩
  · rintro ⟨k, hs⟩
    cases hk : (w.broker b).slots.get? k with
    | none => simp [hk, Slot.streams] at hs
    | some x => exact ⟨x, ⟨k, hk⟩, by rwa [hk] at hs⟩

theorem holds_any : (w.calls.entries.any fun x => x.phase.holds.contains s) ↔
    ∃ c, s ∈ (w.phaseOf c).holds := by
  simp only [List.any_eq_true, Table.mem_entries_iff, List.contains_iff_mem, phaseOf]
  constructor
  · rintro ⟨x, ⟨c, hc⟩, hs⟩
    exact ⟨c, by rwa [hc]⟩
  · rintro ⟨c, hs⟩
    cases hc : w.calls.get? c with
    | none => simp [hc, Phase.holds] at hs
    | some x => exact ⟨x, ⟨c, hc⟩, by rwa [hc] at hs⟩

theorem isFree_iff :
    w.isFree s ↔ (w.stream s).named ∧ ∀ c, s ∉ (w.phaseOf c).holds := by
  rw [isFree, Bool.and_eq_true, Bool.not_eq_true', ← Bool.not_eq_true, holds_any, not_exists]

theorem isHeld_iff : w.isHeld s ↔ (w.stream s).named ∨ (∃ b k, s ∈ (w.slot b k).streams) ∨
    ∃ c, s ∈ (w.phaseOf c).holds := by
  have hl : (w.brokers.entries.any fun b => b.slots.values.any fun x => x.isRegistered s) ↔
      ∃ b k, s ∈ (w.slot b k).streams := by
    simp only [List.any_eq_true, Table.mem_entries_iff, Slot.isRegistered_iff, slot, broker]
    constructor
    · rintro ⟨x, ⟨b, hb⟩, y, hy, hs⟩
      obtain ⟨k, hk⟩ := (Keyed.mem_values _ _).1 hy
      exact ⟨b, k, by simpa [hb, hk] using hs⟩
    · rintro ⟨b, k, hs⟩
      cases hb : w.brokers.get? b with
      | none => simp [hb, Keyed.get?, Slot.streams] at hs
      | some x =>
        cases hk : x.slots.get? k with
        | none => simp [hb, hk, Slot.streams] at hs
        | some y => exact ⟨x, ⟨b, hb⟩, y, (Keyed.mem_values _ _).2 ⟨k, hk⟩, by simpa [hb, hk] using hs⟩
  rw [isHeld, Bool.or_eq_true, Bool.or_eq_true, hl, holds_any, or_assoc]

variable {w b k c s} in
theorem isHeld_of_holds (hs : s ∈ (w.phaseOf c).holds) : w.isHeld s :=
  (w.isHeld_iff s).2 (.inr (.inr ⟨c, hs⟩))

variable {w b k c s} in
theorem isHeld_of_listed (hs : s ∈ (w.slot b k).streams) : w.isHeld s :=
  (w.isHeld_iff s).2 (.inr (.inl ⟨b, k, hs⟩))

theorem lt_of_named (h : (w.stream s).named) : s < w.streams.size := by
  rcases Nat.lt_or_ge s w.streams.size with hs | hs
  · exact hs
  · rw [w.stream_of_size_le _ hs] at h
    cases h

/-! ### Runs -/

theorem run_append (l l' : List Move) : w.run (l ++ l') = (w.run l).run l' :=
  List.foldl_append

theorem run_concat (l : List Move) (m : Move) : w.run (l ++ [m]) = (w.run l).step m :=
  w.run_append l [m]

end System

end TunerBroker
