import TunerBroker.Proofs.Invariants.Counting
import TunerBroker.Proofs.Invariants.Flight

/-! The consumers of each stream and what becomes of them. The count of a listed stream is that of its
consumers not yet released, one call has attached each consumer, and one at most is about to release
it. -/

namespace TunerBroker

namespace System

variable {m : Move} {w w' : System} {b : BrokerId} {k : SourceKey} {c : CallId} {s t : StreamId}
  {i : ConsumerId} {x : Consumer} {q : Standing} {p : Phase}

/-- Consumers ever attached to a stream. -/
def attachments (w : System) (s : StreamId) : Nat := w.consumers.entries.countP (·.stream = s)

/-- Consumers of a stream that it has still to count out. -/
def unreleased (w : System) (s : StreamId) : Nat :=
  w.consumers.entries.countP fun x => x.stream = s ∧ x.standing ≠ .released

theorem attachments_addConsumer :
    (w.addConsumer x).attachments s = w.attachments s + if x.stream = s then 1 else 0 := by
  simp [attachments, addConsumer, Table.add, List.countP_cons]

theorem unreleased_addConsumer (hx : x.standing = .held) :
    (w.addConsumer x).unreleased s = w.unreleased s + if x.stream = s then 1 else 0 := by
  simp [unreleased, addConsumer, Table.add, List.countP_cons, hx]

theorem attachments_setStanding : (w.setStanding i q).attachments s = w.attachments s := by
  simp only [attachments, setStanding, Table.update]
  cases hx : w.consumers.entries[i]? with
  | none => rw [List.modify_eq_self (List.getElem?_eq_none_iff.1 hx)]
  | some x =>
    have := countP_modify (fun y : Consumer => y.stream = s) (fun y => { y with standing := q }) hx
    split at this <;> simp_all

/-- What a consumer that was counted in is counted as afterwards. -/
theorem unreleased_setStanding (hx : w.consumers.get? i = some x) (hs : x.standing ≠ .released) :
    (w.setStanding i q).unreleased s + (if x.stream = s ∧ q = .released then 1 else 0) =
      w.unreleased s := by
  have := countP_modify (fun y : Consumer => y.stream = s ∧ y.standing ≠ .released)
    (fun y => { y with standing := q }) hx
  simp only [unreleased, setStanding, Table.update]
  by_cases h₁ : x.stream = s <;> by_cases h₂ : q = .released <;> simp_all

theorem unreleased_le (w : System) (s : StreamId) : w.unreleased s ≤ w.attachments s :=
  List.countP_mono_left fun x _ hx => by simp_all

theorem get?_setStanding (w : System) (i j : ConsumerId) (q : Standing) :
    (w.setStanding i q).consumers.get? j = if j = i then
      (w.consumers.get? j).map fun x => { x with standing := q } else w.consumers.get? j :=
  Table.get?_update _ _ _ _

/-- A listed stream counts its consumers in a 32-bit word, and has some. -/
structure Tallied (w : System) (s : StreamId) : Prop where
  count : (w.stream s).consumers.toNat = w.unreleased s % 2 ^ 32
  some : 0 < w.unreleased s

/-- As long as the word does not wrap, the count is that of the consumers. -/
theorem Tallied.toNat_consumers (h : w.Tallied s) (bound : w.attachments s < 2 ^ 32) :
    (w.stream s).consumers.toNat = w.unreleased s := by
  rw [h.count, Nat.mod_eq_of_lt (Nat.lt_of_le_of_lt (w.unreleased_le s) bound)]

theorem Tallied.consumers_ne_zero (h : w.Tallied s) (bound : w.attachments s < 2 ^ 32) :
    (w.stream s).consumers ≠ 0 := by
  intro he
  have count := h.toNat_consumers bound
  rw [he] at count
  exact Nat.ne_of_lt h.some count

/-- The stream goes by a name, or is being opened: nobody has been attached to it. -/
def Fresh (w : System) (s : StreamId) : Prop :=
  (w.stream s).named ∨ ∃ c, (w.phaseOf c).opening? = Option.some s

/-- The consumers that calls have attached, call by call. -/
def receipts (w : System) : List ConsumerId :=
  (List.range w.calls.size).filterMap fun c => (w.phaseOf c).attached?

open scoped List in
/-- Consumers are on the roll once: attached by one call to a stream of their key at its broker, and
about to be released by one call at most. -/
structure Roll (w : System) : Prop where
  placed : ∀ {i x}, w.consumers.get? i = Option.some x →
    x.stream < w.streams.size ∧ x.key = (w.stream x.stream).key
  home : ∀ {i x b k}, w.consumers.get? i = Option.some x → x.stream ∈ (w.slot b k).streams →
    x.broker = b
  handed : ∀ {c i}, (w.phaseOf c).releases? = Option.some i →
    ∃ x, w.consumers.get? i = Option.some x ∧ x.standing = .handedOver
  sole : ∀ {c c' i}, (w.phaseOf c).releases? = Option.some i →
    (w.phaseOf c').releases? = Option.some i → c = c'
  receipts : w.receipts ~ List.range w.consumers.size

/-- The consumers of every stream are on the roll and accounted for. -/
structure Ledger (w : System) : Prop extends w.Roll where
  counted : ∀ {b k s}, s ∈ (w.slot b k).streams → w.Tallied s
  fresh : ∀ {s}, w.Fresh s → (w.stream s).consumers = 0 ∧ w.attachments s = 0

namespace Ledger

theorem receipts_congr (size : w'.calls.size = w.calls.size)
    (attached : ∀ c, (w'.phaseOf c).attached? = (w.phaseOf c).attached?) :
    w'.receipts = w.receipts := by
  simp only [System.receipts, size, attached]

/-- The ledger stays when the consumers stay, no call has a consumer to release that it had not, no
slot lists more, and streams keep their keys and counts. -/
theorem stay (h : w.Ledger) (consumers : w'.consumers = w.consumers)
    (size : w'.calls.size = w.calls.size)
    (releases : ∀ c i, (w'.phaseOf c).releases? = some i → (w.phaseOf c).releases? = some i)
    (attached : ∀ c, (w'.phaseOf c).attached? = (w.phaseOf c).attached?)
    (slots : ∀ b k, (w'.slot b k).streams ⊆ (w.slot b k).streams)
    (streams : w.streams.size ≤ w'.streams.size)
    (same : ∀ s < w.streams.size, (w'.stream s).key = (w.stream s).key ∧
      (w'.stream s).consumers = (w.stream s).consumers)
    (listed : ∀ b k, ∀ s ∈ (w.slot b k).streams, s < w.streams.size)
    (fresh : ∀ s, w'.Fresh s → s < w.streams.size ∧ w.Fresh s ∨
      w.streams.size ≤ s ∧ (w'.stream s).consumers = 0) : w'.Ledger where
  counted {b k s} hs := by
    have hs := slots b k hs
    obtain ⟨hc, hp⟩ := h.counted hs
    rw [← (same s (listed b k s hs)).2] at hc
    exact ⟨by simpa [unreleased, consumers] using hc, by simpa [unreleased, consumers] using hp⟩
  fresh {s} hf := by
    have ha : w'.attachments s = w.attachments s := by simp [attachments, consumers]
    rw [ha]
    rcases fresh s hf with ⟨hlt, hf⟩ | ⟨hge, hc⟩
    · rw [(same s hlt).2]
      exact h.fresh hf
    · refine ⟨hc, List.countP_eq_zero.2 fun x hx hxs => ?_⟩
      obtain ⟨i, hi⟩ := (Table.mem_entries_iff _ _).1 hx
      obtain rfl : x.stream = s := of_decide_eq_true hxs
      exact absurd (h.placed hi).1 (Nat.not_lt.2 hge)
  placed hi := by
    rw [consumers] at hi
    obtain ⟨hlt, hk⟩ := h.placed hi
    exact ⟨Nat.lt_of_lt_of_le hlt streams, hk.trans (same _ hlt).1.symm⟩
  home {i x b k} hi hs := by
    rw [consumers] at hi
    exact h.home hi (slots b k hs)
  handed hr := by
    rw [consumers]
    exact h.handed (releases _ _ hr)
  sole hr hr' := h.sole (releases _ _ hr) (releases _ _ hr')
  receipts := by
    rw [receipts_congr size attached, consumers]
    exact h.receipts

theorem Fresh.lt (g : w.Custody) (hf : w.Fresh s) : s < w.streams.size := by
  rcases hf with hn | ⟨c, hc⟩
  · exact w.lt_of_named s hn
  · refine g.made (o := .call c) ?_
    cases hp : w.phaseOf c <;> simp_all [Phase.opening?, kept, Phase.owns]

/-- One call goes on; if it opens a stream afterwards, that was fresh. -/
theorem move (h : w.Ledger) (g : w.Custody) (consumers : w'.consumers = w.consumers)
    (size : w'.calls.size = w.calls.size)
    (hp : ∀ c', w'.phaseOf c' = w.phaseOf c' ∨ c' = c ∧ w'.phaseOf c' = p)
    (releases : p.releases? = none)
    (attached : (w.phaseOf c).attached? = none ∧ p.attached? = none)
    (opening : ∀ s, p.opening? = some s → w.Fresh s)
    (slots : ∀ b k, (w'.slot b k).streams ⊆ (w.slot b k).streams)
    (streams : w'.streams.size = w.streams.size)
    (same : ∀ s, (w'.stream s).key = (w.stream s).key ∧
      (w'.stream s).consumers = (w.stream s).consumers ∧ ((w'.stream s).named → (w.stream s).named)) :
    w'.Ledger := by
  refine h.stay consumers size (fun c' i hr => ?_) (fun c' => ?_) slots streams.ge
    (fun s _ => ⟨(same s).1, (same s).2.1⟩) (fun b k s hs => g.made (o := .slot b k) hs)
    fun s hf => .inl ?_
  · rcases hp c' with hq | ⟨rfl, hq⟩ <;> rw [hq] at hr
    · exact hr
    · simp [releases] at hr
  · rcases hp c' with hq | ⟨rfl, hq⟩ <;> rw [hq]
    rw [attached.1, attached.2]
  · have hf : w.Fresh s := by
      rcases hf with hn | ⟨c', hc'⟩
      · exact .inl ((same s).2.2 hn)
      · rcases hp c' with hq | ⟨rfl, hq⟩ <;> rw [hq] at hc'
        · exact .inr ⟨c', hc'⟩
        · exact opening s hc'
    exact ⟨Fresh.lt g hf, hf⟩

theorem frame {S : Set StreamId} (h : w.Ledger) (g : w.Custody) (f : Frame S w w') : w'.Ledger := by
  refine h.move g (c := w.calls.size) (p := .abandoned) f.consumers f.calls
    (fun c => .inl (f.phaseOf c)) rfl ?_ (by rintro _ ⟨⟩) (fun b k => by rw [f.slot]; exact fun _ => id)
    f.streams fun s => ⟨f.key s, (f.kin s).consumers, by rw [(f.kin s).named]; exact id⟩
  rw [w.phaseOf_of_size_le _ (Nat.le_refl _)]
  exact ⟨rfl, rfl⟩

theorem entry_setStanding {j : ConsumerId} {y : Consumer}
    (hj : (w.setStanding i q).consumers.get? j = some y) : ∃ z, w.consumers.get? j = some z ∧
      y.stream = z.stream ∧ y.key = z.key ∧ y.broker = z.broker := by
  rw [get?_setStanding] at hj
  split at hj
  · obtain ⟨z, hz, rfl⟩ := Option.map_eq_some_iff.1 hj
    exact ⟨z, hz, rfl, rfl, rfl⟩
  · exact ⟨y, hj, rfl, rfl, rfl⟩

/-- A consumer that nobody is about to release changes its standing. -/
theorem roll_setStanding (h : w.Roll) (free : ∀ c, (w.phaseOf c).releases? ≠ some i) :
    (w.setStanding i q).Roll where
  placed hj := by
    obtain ⟨z, hz, hs, hk, -⟩ := entry_setStanding hj
    rw [hs, hk]
    exact h.placed hz
  home hj hm := by
    obtain ⟨z, hz, hs, -, hb⟩ := entry_setStanding hj
    rw [hb]
    exact h.home hz (hs ▸ hm)
  handed {c j} hr := by
    rw [get?_setStanding, if_neg (by rintro rfl; exact free c hr)]
    exact h.handed hr
  sole hr hr' := h.sole hr hr'
  receipts := by
    rw [consumers_size_setStanding]
    exact h.receipts

theorem key_setConsumers (w : System) (s t : StreamId) (g : Stream → UInt32) :
    ((w.setStream s fun y => { y with consumers := g y }).stream t).key = (w.stream t).key := by
  rw [stream_setStream]
  split <;> rfl

theorem roll_setConsumers (h : w.Roll) (g : Stream → UInt32) :
    (w.setStream s fun y => { y with consumers := g y }).Roll where
  placed hi := by
    rw [key_setConsumers, streams_size_setStream]
    exact h.placed hi
  home := h.home
  handed := h.handed
  sole := h.sole
  receipts := h.receipts

/-- Such a change leaves the counts alone unless the consumer is counted out. -/
theorem setStanding (h : w.Ledger) (hx : w.consumers.get? i = some x)
    (hs : x.standing ≠ .released) (hst : q ≠ .released)
    (free : ∀ c, (w.phaseOf c).releases? ≠ some i) : (w.setStanding i q).Ledger where
  toRoll := roll_setStanding h.toRoll free
  counted {b k s} hm := by
    obtain ⟨hc, hp⟩ := h.counted hm
    have := unreleased_setStanding (s := s) (q := q) hx hs
    simp only [hst, and_false, if_false, Nat.add_zero] at this
    exact ⟨by rw [this]; exact hc, by rw [this]; exact hp⟩
  fresh hf := by
    rw [attachments_setStanding]
    exact h.fresh hf

theorem toNat_sub_one {n : UInt32} (hn : n ≠ 0) : (n - 1).toNat = n.toNat - 1 := by
  have : (1 : UInt32) ≤ n := by
    rw [UInt32.le_iff_toNat_le]
    have : n.toNat ≠ 0 := fun h => hn (UInt32.toNat_inj.1 h)
    simpa using Nat.one_le_iff_ne_zero.2 this
  rw [UInt32.toNat_sub_of_le _ _ this]
  rfl

/-- A consumer that nobody is about to release is counted out of its stream. -/
theorem countOut (h : w.Ledger) (hx : w.consumers.get? i = some x)
    (hs : x.standing ≠ .released) (free : ∀ c, (w.phaseOf c).releases? ≠ some i)
    (unfresh : ¬ w.Fresh x.stream)
    (left : ∀ b k, x.stream ∈ (w.slot b k).streams → (w.stream x.stream).consumers ≠ 0 ∧
      (w.stream x.stream).consumers - 1 ≠ 0) :
    ((w.setStanding i .released).setStream x.stream fun y =>
      { y with consumers := y.consumers - 1 }).Ledger where
  toRoll := roll_setConsumers (roll_setStanding h.toRoll free) fun y => y.consumers - 1
  counted {b k s} hm := by
    obtain ⟨hc, hp⟩ := h.counted hm
    have hu := unreleased_setStanding (s := s) (q := .released) hx hs
    have same : ((w.setStanding i .released).setStream x.stream fun y =>
        { y with consumers := y.consumers - 1 }).unreleased s =
          (w.setStanding i .released).unreleased s := rfl
    by_cases he : x.stream = s
    · subst he
      obtain ⟨h₀, h₁⟩ := left b k hm
      have hn := toNat_sub_one h₀
      have : ((w.stream x.stream).consumers - 1).toNat ≠ 0 := fun h => h₁ (UInt32.toNat_inj.1 h)
      simp only [and_self, if_true] at hu
      refine ⟨?_, by omega⟩
      rw [stream_setStream_self _ _ _ (by exact (h.placed hx).1), same]
      simp only [stream_setStanding, hn]
      omega
    · simp only [he, false_and, if_false, Nat.add_zero] at hu
      rw [← hu] at hc hp
      exact ⟨by rw [stream_setStream_ne _ _ _ _ (Ne.symm he)]; exact hc, hp⟩
  fresh {s} hf := by
    have hf : w.Fresh s := by
      rcases hf with hn | hc
      · refine .inl ?_
        rw [stream_setStream] at hn
        split at hn <;> exact hn
      · exact .inr hc
    have hne : s ≠ x.stream := by
      rintro rfl
      exact unfresh hf
    rw [stream_setStream_ne _ _ _ _ hne]
    exact ⟨(h.fresh hf).1, attachments_setStanding.trans (h.fresh hf).2⟩

section Attach

variable (hc : c < w.calls.size) (ha : (w.phaseOf c).attached? = none) (hs : s < w.streams.size)
  (home : ∀ b k, s ∈ (w.slot b k).streams → w.brokerOf c = b)

/-- The consumer that a call attaches. -/
def consumerOf (w : System) (c : CallId) (s : StreamId) : Consumer :=
  { broker := w.brokerOf c, stream := s, key := (w.stream s).key }

theorem get?_attach (w : System) (c : CallId) (s : StreamId) (i : ConsumerId) :
    (w.attach c s).consumers.get? i =
      if i = w.consumers.size then some (consumerOf w c s) else w.consumers.get? i :=
  Table.get?_add _ _ _

theorem releases?_attach (w : System) (c : CallId) (s : StreamId) {c' : CallId} {i : ConsumerId}
    (hr : ((w.attach c s).phaseOf c').releases? = some i) : (w.phaseOf c').releases? = some i := by
  rw [phaseOf_attach] at hr
  split at hr
  · cases hr
  · exact hr

include hc ha hs home

/-- A call attaches a consumer to a stream that is not listed, or is listed where the call is made. -/
theorem roll_attach (h : w.Roll) : (w.attach c s).Roll where
  placed hi := by
    rw [get?_attach] at hi
    split at hi
    · obtain rfl := Option.some.inj hi
      exact ⟨hs, rfl⟩
    · exact h.placed hi
  home hi hm := by
    rw [get?_attach] at hi
    split at hi
    · obtain rfl := Option.some.inj hi
      exact home _ _ hm
    · exact h.home hi hm
  handed hr := by
    obtain ⟨x, hx, hst⟩ := h.handed (releases?_attach w c s hr)
    refine ⟨x, ?_, hst⟩
    rw [get?_attach, if_neg (Nat.ne_of_lt (Table.lt_size_of_get? hx)), hx]
  sole hr hr' := h.sole (releases?_attach w c s hr) (releases?_attach w c s hr')
  receipts := by
    have size : (w.attach c s).consumers.size = w.consumers.size + 1 := Table.size_add _ _
    have perm := filterMap_perm_cons (List.nodup_range (n := w.calls.size)) (List.mem_range.2 hc)
      (f := fun c => (w.phaseOf c).attached?) (g := fun c' => ((w.attach c s).phaseOf c').attached?)
      (b := w.consumers.size) ha (by simp [phaseOf_attach, hc, Phase.attached?])
      (fun c' _ hne => by simp [phaseOf_attach, hne])
    rw [System.receipts, calls_size_attach, size, List.range_succ]
    exact (perm.trans (h.receipts.cons _)).trans (List.perm_append_singleton _ _).symm

omit hc ha home in
theorem tallied_attach (count : (w.stream s).consumers.toNat = w.unreleased s % 2 ^ 32) :
    ((w.setStream s fun x => { x with consumers := x.consumers + 1 }).attach c s).Tallied s := by
  have hu : ((w.setStream s fun x => { x with consumers := x.consumers + 1 }).attach c s).unreleased
      s = w.unreleased s + 1 :=
    (unreleased_addConsumer (w := w) (x := consumerOf (w.setStream s _) c s) rfl).trans (by simp [consumerOf])
  refine ⟨?_, by omega⟩
  rw [stream_attach, stream_setStream_self _ _ _ hs, hu, UInt32.toNat_add, count]
  simp

theorem attach (h : w.Ledger) (count : (w.stream s).consumers.toNat = w.unreleased s % 2 ^ 32)
    (unnamed : (w.stream s).named = false)
    (others : ∀ c', c' ≠ c → (w.phaseOf c').opening? ≠ some s) :
    ((w.setStream s fun x => { x with consumers := x.consumers + 1 }).attach c s).Ledger where
  toRoll := roll_attach hc ha (by simpa using hs) home
    (roll_setConsumers h.toRoll fun x => x.consumers + 1)
  counted {b k t} hm := by
    by_cases he : s = t
    · exact he ▸ tallied_attach hs count
    · have hu : ((w.setStream s fun x => { x with consumers := x.consumers + 1 }).attach c
          s).unreleased t = w.unreleased t :=
        (unreleased_addConsumer (w := w) (x := consumerOf (w.setStream s _) c s) rfl).trans
          (by simp [consumerOf, he])
      obtain ⟨ht, hp⟩ := h.counted hm
      refine ⟨?_, by omega⟩
      rw [stream_attach, stream_setStream_ne _ _ _ _ (Ne.symm he), hu]
      exact ht
  fresh {t} hf := by
    have hf : w.Fresh t ∧ t ≠ s := by
      rcases hf with hn | ⟨c', hc'⟩
      · have named : (w.stream t).named := by
          rw [stream_attach, stream_setStream] at hn
          split at hn <;> exact hn
        exact ⟨.inl named, by rintro rfl; simp [unnamed] at named⟩
      · rw [phaseOf_attach] at hc'
        split at hc'
        · cases hc'
        · rename_i hne
          have other : c' ≠ c := fun e => hne ⟨e, hc⟩
          exact ⟨.inr ⟨c', hc'⟩, by rintro rfl; exact others c' other hc'⟩
    obtain ⟨h₁, h₂⟩ := h.fresh hf.1
    refine ⟨by rw [stream_attach, stream_setStream_ne _ _ _ _ hf.2]; exact h₁, ?_⟩
    have ha := attachments_addConsumer (w := w) (s := t) (x := consumerOf (w.setStream s fun x =>
      { x with consumers := x.consumers + 1 }) c s)
    rw [if_neg (by exact Ne.symm hf.2), h₂] at ha
    exact ha

end Attach

/-- A stream whose consumers are all from one broker comes on a list of that broker. -/
theorem list (h : w.Ledger) (tallied : w.Tallied s)
    (home : ∀ i x, w.consumers.get? i = some x → x.stream = s → x.broker = w.brokerOf c) :
    (w.endOpen c k (some s)).Ledger := by
  have listed : ∀ b k' t, t ∈ ((w.endOpen c k (some s)).slot b k').streams →
      t ∈ (w.slot b k').streams ∨ b = w.brokerOf c ∧ t = s := by
    intro b k' t ht
    rw [slot_endOpen] at ht
    split at ht
    · rename_i he
      rcases (mem_streams_endedSlot _ _ _ _ _).1 ht with ht | ht
      · exact .inl ht
      · exact .inr ⟨he.1, (Option.some.inj ht).symm⟩
    · exact .inl ht
  exact { h with
    home := fun {i x b k'} hi hm => by
      rcases listed b k' _ hm with hm | ⟨hb, hs⟩
      · exact h.home hi hm
      · rw [hb]
        exact home i x hi hs
    counted := fun {b k' t} hm => by
      rcases listed b k' t hm with hm | ⟨-, rfl⟩
      · obtain ⟨h₁, h₂⟩ := h.counted hm
        exact ⟨h₁, h₂⟩
      · exact ⟨tallied.count, tallied.some⟩ }

end Ledger

end System

end TunerBroker
