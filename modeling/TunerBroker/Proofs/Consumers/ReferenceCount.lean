import TunerBroker.Proofs.Invariants.LedgerRuns
import TunerBroker.System.Report
import Mathlib.Algebra.BigOperators.Finprod

/-! Reference counts are exact. A listed stream is in one place of one slot, its count is that of the
calls that were given a consumer of it less the releases that were let through, and so nothing listed
is ever without consumers. -/

namespace TunerBroker

/-- A release is let through: it is over, or is closing the stream it was the last to leave. -/
def Phase.isLetThrough : Phase → Bool
  | finished .done | tearing _ _ => true
  | _ => false

namespace System

variable {m : Move} {w w' : System} {b : BrokerId} {k : SourceKey} {c : CallId} {s : StreamId}
  {i : ConsumerId} {x : Consumer} {q : Standing}

/-- Calls that were given a consumer of a stream. -/
def returned (w : System) (s : StreamId) : Nat :=
  (List.range w.calls.size).countP fun c =>
    ((w.phaseOf c).attached?.bind w.consumers.get?).any (·.stream = s)

/-- The step lets a release of a consumer of the stream through. -/
def acceptsRelease (w : System) (m : Move) (s : StreamId) : Bool :=
  match m with
  | .turn (.call c) =>
    match w.phaseOf c with
    | .releasing i =>
      (w.consumers.get? i).any (·.stream = s) && ((w.step m).phaseOf c).isLetThrough
    | _ => false
  | _ => false

/-- Releases of consumers of a stream that are let through along a run. -/
def acceptedReleases (s : StreamId) (w : System) : List Move → Nat
  | [] => 0
  | m :: moves => (if w.acceptsRelease m s then 1 else 0) + acceptedReleases s (w.step m) moves

/-- Consumers ever attached at a broker. -/
def attachedAt (w : System) (b : BrokerId) : Nat := w.consumers.entries.countP (·.broker = b)

/-- Consumers that a stream has counted out. -/
def released (w : System) (s : StreamId) : Nat :=
  w.consumers.entries.countP fun x => x.stream = s ∧ x.standing = .released

theorem released_add_unreleased (w : System) (s : StreamId) :
    w.released s + w.unreleased s = w.attachments s := by
  simp only [released, unreleased, attachments]
  induction w.consumers.entries with
  | nil => rfl
  | cons x l ih =>
    have one : (if decide (x.stream = s ∧ x.standing = .released) = true then 1 else 0) +
        (if decide (x.stream = s ∧ x.standing ≠ .released) = true then 1 else 0) =
          if decide (x.stream = s) = true then 1 else 0 := by
      by_cases h₁ : x.stream = s <;> by_cases h₂ : x.standing = .released <;> simp [h₁, h₂]
    simp only [List.countP_cons]
    omega

theorem released_setStanding (hx : w.consumers.get? i = some x) (hs : x.standing ≠ .released) :
    (w.setStanding i q).released s =
      w.released s + if x.stream = s ∧ q = .released then 1 else 0 := by
  have h₁ := w.released_add_unreleased s
  have h₂ := (w.setStanding i q).released_add_unreleased s
  have h₃ := unreleased_setStanding (s := s) (q := q) hx hs
  rw [attachments_setStanding] at h₂
  omega

theorem released_addConsumer (hx : x.standing = .held) :
    (w.addConsumer x).released s = w.released s := by
  have h₁ := w.released_add_unreleased s
  have h₂ := (w.addConsumer x).released_add_unreleased s
  rw [attachments_addConsumer, unreleased_addConsumer hx] at h₂
  omega

/-- Every consumer of a stream was given to one call. -/
theorem Ledger.returned_eq (h : w.Ledger) (s : StreamId) : w.returned s = w.attachments s := by
  have perm := h.receipts.countP_eq fun i => (w.consumers.get? i).any (·.stream = s)
  have all := countP_range_getElem? (fun x : Consumer => decide (x.stream = s)) w.consumers.entries
  rw [receipts, List.countP_filterMap] at perm
  rw [attachments, ← all, returned]
  refine (List.countP_congr fun c _ => ?_).trans perm
  cases (w.phaseOf c).attached? <;> simp

/-! ### Releases -/

/-- A consumer is counted out by the turn of its release that lets it through. -/
theorem Ledger.released_release (h : w.Ledger) (hp : w.phaseOf c = .releasing i)
    (hx : w.consumers.get? i = some x) : (w.release c i).released s = w.released s +
      if x.stream = s ∧ ((w.release c i).phaseOf c).isLetThrough then 1 else 0 := by
  have hc : c < w.calls.size := w.lt_of_phaseOf _ (by simp [hp])
  have hst : x.standing ≠ .released := by
    obtain ⟨y, hy, hst⟩ := h.handed (c := c) (i := i) (by rw [hp]; rfl)
    obtain rfl : x = y := Option.some.inj (hx.symm.trans hy)
    simp [hst]
  have counted : ∀ v : System, ∀ q p, v.phaseOf c = p → v.released s = (w.setStanding i q).released s →
      p.isLetThrough = decide (q = .released) → v.released s = w.released s +
        if x.stream = s ∧ (v.phaseOf c).isLetThrough then 1 else 0 := by
    intro v q p hv hr hl
    rw [hr, hv, hl, released_setStanding hx hst]
    simp
  have phase : ∀ v : System, ∀ p, c < v.calls.size → (v.setPhase c p).phaseOf c = p := by
    intro v p hv
    simp [phaseOf_setPhase, hv]
  simp only [release, hx]
  split
  · exact counted _ .refused _ (phase _ _ hc) rfl rfl
  · split
    · exact counted _ .refused _ (phase _ _ hc) rfl rfl
    · split
      · exact counted _ .refused _ (phase _ _ hc) rfl rfl
      · split
        · exact counted _ .released _ (phase _ _ hc) rfl rfl
        · exact counted _ .released _ (phase _ _ hc) rfl rfl

theorem released_congr (h : w'.consumers = w.consumers) (s : StreamId) :
    w'.released s = w.released s := by
  simp only [released, h]

theorem released_attach (w : System) (c : CallId) (s t : StreamId) :
    (w.attach c s).released t = w.released t :=
  released_addConsumer (w := w) (x := Ledger.consumerOf w c s) rfl

theorem released_begin {gated : Bool} {errand : Errand} (allowed : errand.isAllowed w b)
    (s : StreamId) : (w.begin b gated errand).released s = w.released s := by
  cases errand with
  | release i =>
    simp only [Errand.isAllowed, Bool.and_eq_true] at allowed
    cases hx : w.consumers.get? i with
    | none => simp [hx] at allowed
    | some x =>
      have held : x.standing = .held := by simpa [hx] using allowed.2
      have := released_setStanding (s := s) (q := .handedOver) hx (by simp [held])
      exact this.trans (by simp)
  | _ => rfl

/-- No other change counts a consumer out. -/
theorem Change.released (hc : Change m w w') (h : w.Ledger)
    (hm : ∀ c i, m = .turn (.call c) → w.phaseOf c ≠ .releasing i) (s : StreamId) :
    w'.released s = w.released s := by
  cases hc with
  | stay | make | letGo | provide | demote | demoteJoin | «open» | miss | sweep => rfl
  | begin allowed => exact released_begin allowed s
  | drop there held => simpa using released_setStanding (q := .dropped) there (by simp [held])
  | go => rfl
  | work actor work held leads before after =>
    exact released_congr (by rw [consumers_setPhase, work.frame.consumers]) s
  | reuse place shared counted live media => exact released_attach _ _ _ _
  | register actor place work key connected inside =>
    exact (released_attach _ _ _ _).trans (released_congr (by simp [work.frame.consumers]) s)
  | giveUp actor place work exit => exact released_congr (by simp [work.frame.consumers]) s
  | @refuse c k x e place there unfit =>
    obtain ⟨y, hy, hst⟩ := h.handed (c := c) (i := k) (by rw [place]; rfl)
    obtain rfl : x = y := Option.some.inj (there.symm.trans hy)
    exact (released_setStanding (q := .refused) there (by simp [hst])).trans (by simp)
  | detach turn place there listed others => exact absurd place (hm _ _ turn)
  | last turn place there listed alone => exact absurd place (hm _ _ turn)

/-- A step counts out the consumer of the release it lets through, if it lets one through. -/
theorem released_step (h : w.Ledger) (g : w.Sound) (m : Move) (s : StreamId) :
    (w.step m).released s = w.released s + if w.acceptsRelease m s then 1 else 0 := by
  by_cases hm : ∃ c i, m = .turn (.call c) ∧ w.phaseOf c = .releasing i
  · obtain ⟨c, i, rfl, hp⟩ := hm
    obtain ⟨x, hx, -⟩ := h.handed (c := c) (i := i) (by rw [hp]; rfl)
    have turn : w.step (.turn (.call c)) = w.release c i := by
      simp [step, System.turn, ready, phaseReady, turnCall, hp]
    simp only [acceptsRelease, turn, hp, hx, Option.any_some]
    rw [h.released_release hp hx]
    simp
  · have none : w.acceptsRelease m s = false := by
      unfold acceptsRelease
      split
      · split
        · exact absurd ⟨_, _, rfl, ‹_›⟩ hm
        · rfl
      · rfl
    obtain ⟨w₁, w₂, h₁, hc, h₂⟩ := step_books w m
    replace h₁ := h₁.frame
    replace h₂ := h₂.frame
    have hm : ∀ c i, m = .turn (.call c) → w₁.phaseOf c ≠ .releasing i := fun c i e hp =>
      hm ⟨c, i, e, by rwa [h₁.phaseOf] at hp⟩
    rw [none, released_congr h₂.consumers, hc.released (h.frame g.custody h₁) hm,
      released_congr h₁.consumers]
    rfl

theorem released_run (h : w.Ledger) (g : w.Sound) (moves : List Move) (s : StreamId) :
    (w.run moves).released s = w.released s + w.acceptedReleases s moves := by
  induction moves generalizing w with
  | nil => rfl
  | cons m moves ih =>
    have := released_step h g m s
    have := ih (h.step g m) (g.step m)
    simp only [run, List.foldl_cons, acceptedReleases] at this ⊢
    omega

/-! ### Counts of listed streams -/

namespace Ledger

variable (h : w.Ledger)

include h

/-- The consumers of a listed stream were attached at its broker. -/
theorem broker_of_listed (hs : s ∈ w.listedAt b k) (hx : x ∈ w.consumers.entries)
    (he : x.stream = s) : x.broker = b := by
  obtain ⟨i, hi⟩ := (Table.mem_entries_iff _ _).1 hx
  exact h.home hi (he ▸ hs)

theorem unreleased_le_attachedAt (hs : s ∈ w.listedAt b k) : w.unreleased s ≤ w.attachedAt b :=
  List.countP_mono_left fun x hx hp => by
    simpa using h.broker_of_listed hs hx (of_decide_eq_true hp).1

theorem sum_unreleased_le_attachedAt (g : w.Sound) (b : BrokerId) (k : SourceKey) :
    ((w.listedAt b k).map w.unreleased).sum ≤ w.attachedAt b := by
  have hn : (w.listedAt b k).Nodup := g.custody.nodup (.slot b k)
  have := sum_countP_le hn (fun x : Consumer => x.stream) (fun x => x.standing ≠ .released)
    (fun x => x.broker = b) w.consumers.entries fun x hx hl _ =>
      decide_eq_true (h.broker_of_listed hl hx rfl)
  simp only [decide_eq_true_eq] at this
  exact this

theorem consumers_eq (hb : w.attachedAt b < 2 ^ 32) (hs : s ∈ w.listedAt b k) :
    (w.stream s).consumers.toNat = w.unreleased s := by
  have := h.unreleased_le_attachedAt hs
  rw [(h.counted hs).count, Nat.mod_eq_of_lt (by omega)]

/-- The sum over the streams of a key does not overflow. -/
theorem consumerCount_eq (g : w.Sound) (hb : w.attachedAt b < 2 ^ 32) (k : SourceKey) :
    (w.consumerCount b k).toNat = ((w.listedAt b k).map w.unreleased).sum := by
  have same : ((w.listedAt b k).map fun s => (w.stream s).consumers).map UInt32.toNat =
      (w.listedAt b k).map w.unreleased := by
    rw [List.map_map]
    exact List.map_congr_left fun s hs => h.consumers_eq hb hs
  have := h.sum_unreleased_le_attachedAt g b k
  rw [consumerCount, toNat_foldl_add _ _ (by rw [same]; simpa using by omega), same]
  simp

theorem consumerCount_pos (g : w.Sound) (hb : w.attachedAt b < 2 ^ 32) (k : SourceKey) :
    0 < (w.consumerCount b k).toNat ↔ w.listedAt b k ≠ [] := by
  rw [h.consumerCount_eq g hb]
  constructor
  · intro hp he
    simp [he] at hp
  · intro hne
    obtain ⟨s, hs⟩ := List.exists_mem_of_ne_nil _ hne
    exact Nat.lt_of_lt_of_le (h.counted hs).some
      (List.le_sum_of_mem (List.mem_map_of_mem hs))

end Ledger

/-- The number of streams a broker lists, summed up over the keys. -/
theorem streamCount_eq (w : System) (b : BrokerId) :
    w.streamCount b = ∑ᶠ k, (w.listedAt b k).length := by
  have pair : ∀ p ∈ (w.broker b).slots.pairs, w.listedAt b p.1 = p.2.streams := by
    intro p hp
    simp [listedAt, System.slot, (Keyed.mem_pairs _ p.1 p.2).1 hp]
  have support : Function.support (fun k => (w.listedAt b k).length) ⊆
      ((w.broker b).slots.keys.toFinset : Set SourceKey) := by
    intro k hk
    cases hx : (w.broker b).slots.get? k with
    | none => simp [listedAt, System.slot, hx, Slot.streams] at hk
    | some x =>
      have := (Keyed.mem_pairs _ k x).2 hx
      simpa [Keyed.keys] using ⟨x, this⟩
  have distinct : (w.broker b).slots.keys.Nodup := (w.broker b).slots.distinct
  rw [finsum_eq_sum_of_support_subset _ support, List.sum_toFinset _ distinct, streamCount,
    ← List.sum_eq_foldl_nat, Keyed.values, Keyed.keys, List.map_map, List.map_map]
  refine congrArg List.sum (List.map_congr_left fun p hp => ?_)
  simp [pair p hp]

/-- In every run with fewer than 2³² consumers attached at a broker, at every moment: a stream that the
broker lists is listed once, under its own key and by no other broker; it is connected, delivering or
ended; and its count, at least one, is the number of calls that were given a consumer of it less the
releases let through. So neither a call that finds a stream on offer nor one that releases a consumer
of a listed stream finds it without consumers; under each key something is listed exactly when the sum
of the counts, which does not overflow, is positive; and the number of streams listed is the sum over
the keys. -/
theorem exact_counts (configs : List BrokerConfig) (desk : AccessDesk) (terms : List TunerTerms)
    (moves : List Move) (b : BrokerId) :
    let w₀ := fresh configs desk terms
    let w := w₀.run moves
    w.attachedAt b < 2 ^ 32 →
      (∀ k s, s ∈ w.listedAt b k →
        (w.listedAt b k).count s = 1 ∧ (∀ b' k', s ∈ w.listedAt b' k' → b' = b ∧ k' = k) ∧
        (w.stream s).key = k ∧ (w.stream s).lifecycle = .connected ∧
        ((w.stream s).state = .live ∨ (w.stream s).state = .ended) ∧
        (w.stream s).consumers.toNat + w₀.acceptedReleases s moves = w.returned s ∧
        1 ≤ (w.stream s).consumers.toNat) ∧
      (∀ k s, (w.slot b k).shared = some s → (w.stream s).consumers ≠ 0) ∧
      (∀ c i x, w.phaseOf c = .releasing i → w.consumers.get? i = some x → w.brokerOf c = b →
        (w.slot b x.key).isRegistered x.stream → (w.stream x.stream).consumers ≠ 0) ∧
      (∀ k, (w.isRegistered b k ↔ w.listedAt b k ≠ []) ∧
        (w.listedAt b k ≠ [] ↔ 0 < w.consumerCount b k) ∧
        (w.consumerCount b k).toNat =
          ((w.listedAt b k).map fun s => (w.stream s).consumers.toNat).sum) ∧
      w.streamCount b = ∑ᶠ k, (w.listedAt b k).length := by
  intro w₀ w hb
  have g : w.Sound := (sound_fresh configs desk terms).run moves
  have h : w.Ledger := (ledger_fresh configs desk terms).run (sound_fresh configs desk terms) moves
  have some : ∀ k s, s ∈ w.listedAt b k → 1 ≤ (w.stream s).consumers.toNat := fun k s hs => by
    rw [h.consumers_eq hb hs]
    exact (h.counted hs).some
  have nonzero : ∀ k s, s ∈ w.listedAt b k → (w.stream s).consumers ≠ 0 := fun k s hs he => by
    have := some k s hs
    simp [he] at this
  refine ⟨fun k s hs => ?_, fun k s hs => ?_, fun c i x _ _ _ hr => ?_, fun k => ⟨?_, ?_, ?_⟩,
    w.streamCount_eq b⟩
  · have hn : (w.listedAt b k).Nodup := g.custody.nodup (.slot b k)
    obtain ⟨hc, hk⟩ := (g.flight.order b k).connected s hs
    refine ⟨List.count_eq_one_of_mem hn hs, fun b' k' hs' => ?_, hk, hc, ?_, ?_, some k s hs⟩
    · exact Keeper.slot.inj (g.custody.unique (o := .slot b' k') hs' (q := .slot b k) hs)
    · cases hf : (w.stream s).feed <;> simp [Stream.state, hc, hf, Lifecycle.state]
    · have hr : w.released s = w₀.acceptedReleases s moves :=
        (released_run (ledger_fresh configs desk terms) (sound_fresh configs desk terms) moves
          s).trans (Nat.zero_add _)
      have := w.released_add_unreleased s
      rw [h.consumers_eq hb hs, h.returned_eq]
      omega
  · exact nonzero k s ((Slot.mem_streams _ _).2 (.inl hs))
  · exact nonzero x.key x.stream ((Slot.isRegistered_iff _ _).1 hr)
  · exact Slot.hasStreams_iff _
  · rw [← h.consumerCount_pos g hb, UInt32.lt_iff_toNat_lt]
    rfl
  · rw [h.consumerCount_eq g hb]
    exact congrArg List.sum (List.map_congr_left fun s hs => (h.consumers_eq hb hs).symm)

/-- Two calls attach to one source, and the first consumer is released. -/
def twoAttachOneLeaves : List Move :=
  let wish := Acquisition.ofRequest
    ⟨⟨"host", "channel"⟩, ⟨"media", "", none⟩, ⟨"host", "", "", true⟩⟩ none {}
  [.start 0 false (.acquire wish), .turn (.call 0), .turn (.call 0), .turn (.call 0),
    .start 0 false (.acquire wish), .turn (.call 1), .start 0 false (.release 0), .turn (.call 2)]

theorem exact_counts_twoAttachOneLeaves :
    ((fresh [{}] {} []).run twoAttachOneLeaves).attachedAt 0 < 2 ^ 32 ∧
      0 ∈ ((fresh [{}] {} []).run twoAttachOneLeaves).listedAt 0 ⟨"host", "channel"⟩ ∧
      (((fresh [{}] {} []).run twoAttachOneLeaves).stream 0).consumers.toNat +
        (fresh [{}] {} []).acceptedReleases 0 twoAttachOneLeaves =
          ((fresh [{}] {} []).run twoAttachOneLeaves).returned 0 ∧
      (fresh [{}] {} []).acceptedReleases 0 twoAttachOneLeaves = 1 :=
  ⟨by decide, by decide,
    ((exact_counts [{}] {} [] twoAttachOneLeaves 0 (by decide)).1 ⟨"host", "channel"⟩ 0
      (by decide)).2.2.2.2.2.1, by decide⟩

end System

end TunerBroker
