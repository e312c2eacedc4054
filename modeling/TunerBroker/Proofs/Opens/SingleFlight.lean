import TunerBroker.Proofs.Invariants.Counting
import TunerBroker.Proofs.Invariants.Listing

/-! One flight at a time. Under each key a broker has at most one stream to offer that still delivers
or is being opened. An open that comes through has its stream listed, on offer if it may be shared, and a
stream newly listed takes nobody's place. -/

namespace TunerBroker

namespace System

variable {m : Move} {w v : System} {b : BrokerId} {k : SourceKey} {c : CallId} {a : Acquisition}
  {s : StreamId} {moves : List OpenMove}

instance (w : System) (c : CallId) (b : BrokerId) (k : SourceKey) : Decidable (w.Opens c b k) :=
  decidable_of_iff (w.brokerOf c = b ∧ (w.phaseOf c).opens?.map (·.key) = some k) (by simp [Opens])

/-- Streams listed under a key that may be shared and still deliver. -/
def liveShared (w : System) (b : BrokerId) (k : SourceKey) : Nat :=
  (w.listedAt b k).countP fun s => (w.stream s).sharing && (w.stream s).isLive

/-- Calls that are opening a stream for a key. -/
def opensInFlight (w : System) (b : BrokerId) (k : SourceKey) : Nat :=
  (List.range w.calls.size).countP fun c => w.Opens c b k

namespace Sound

/-- Only the stream on offer can be shared and live. -/
theorem eq_shared (h : w.Sound) (hs : s ∈ w.listedAt b k) (hsh : (w.stream s).sharing)
    (hl : (w.stream s).isLive) : (w.slot b k).shared = some s := by
  rcases (Slot.mem_streams _ _).1 hs with hs | hs
  · exact hs
  · have hf := (h.flight.order b k).spent s hs hsh
    have hc := ((h.flight.order b k).connected s ((Slot.mem_streams _ _).2 (.inr hs))).1
    simp [Stream.isLive, Stream.state, hc, hf] at hl

theorem liveShared_le (h : w.Sound) (b : BrokerId) (k : SourceKey) : w.liveShared b k ≤ 1 := by
  have hn : (w.listedAt b k).Nodup := h.custody.nodup (.slot b k)
  refine countP_le_one hn ((w.slot b k).shared.getD 0) fun s hs hp => ?_
  rw [Bool.and_eq_true] at hp
  rw [h.eq_shared hs hp.1 hp.2]
  rfl

theorem opensInFlight_le (h : w.Sound) (b : BrokerId) (k : SourceKey) :
    w.opensInFlight b k ≤ 1 := by
  refine countP_le_one List.nodup_range ((w.slot b k).opening.getD 0) fun c _ hp => ?_
  rw [(h.flight.marks b k c).2 (of_decide_eq_true hp)]
  rfl

theorem liveShared_add_opensInFlight_le (h : w.Sound) (b : BrokerId) (k : SourceKey) :
    w.liveShared b k + w.opensInFlight b k ≤ 1 := by
  cases ho : (w.slot b k).opening with
  | none =>
    have : w.opensInFlight b k = 0 := by
      refine List.countP_eq_zero.2 fun c _ hp => ?_
      rw [decide_eq_true_eq, ← h.flight.marks, ho] at hp
      cases hp
    have := h.liveShared_le b k
    omega
  | some c =>
    have : w.liveShared b k = 0 := by
      refine List.countP_eq_zero.2 fun s hs hp => ?_
      rw [Bool.and_eq_true] at hp
      have hv := (h.flight.order b k).vacant c ho
      rw [h.eq_shared hs hp.1 hp.2] at hv
      cases hv
    have := h.opensInFlight_le b k
    omega

end Sound

/-! ### Opens that come through -/

/-- The next turn of the call finds these moves of its open for `a` still to be made on `s`, and makes
the first in `v`. -/
inductive Makes (w : System) (c : CallId) (a : Acquisition) (s : StreamId) (moves : List OpenMove) :
    System → Prop where
  | next (place : w.phaseOf c = .opening a s moves .nowhere) : Makes w c a s moves w
  /-- A connection is made with this turn. -/
  | atOnce {d : Dial} (place : w.phaseOf c = .opening a s moves (.dialing d))
      (made : (w.finishOpen c s d).2 = .ok ()) : Makes w c a s moves (w.finishOpen c s d).1

namespace Makes

theorem lt (h : w.Makes c a s moves v) : c < w.calls.size := by
  refine w.lt_of_phaseOf c fun hp => ?_
  cases h with
  | next place | atOnce place => rw [hp] at place; cases place

theorem calm (h : w.Makes c a s moves v) : Calm w v := by
  cases h with
  | next place => exact .refl w
  | @atOnce d place made => exact calm_finishOpen w c s d

/-- An attempt that makes a connection is due. -/
theorem due {d : Dial} (made : (w.finishOpen c s d).2 = .ok ()) : w.dialDue d := by
  simp only [finishOpen] at made
  split at made
  · cases made
  · split at made
    · rename_i answered
      simp [dialDue, answered]
    · cases made

theorem step_turn (h : w.Makes c a s moves v) :
    w.step (.turn (.call c)) = v.nextMove c a s moves := by
  cases h with
  | next place => simp [step, turn, ready, place, phaseReady, openWaitDue, turnCall, turnOpening]
  | @atOnce d place made =>
    simp only [step, turn, ready, place, phaseReady, openWaitDue, due made, if_true, turnCall,
      turnOpening]
    split <;> rename_i heq <;> rw [heq] at made
    · rw [heq]
    · cases made

end Makes

/-- The call is opening the stream for this key of this broker. -/
def OpensFor (w : System) (c : CallId) (s : StreamId) (b : BrokerId) (k : SourceKey) : Prop :=
  w.brokerOf c = b ∧ ∃ a moves wait, w.phaseOf c = .opening a s moves wait ∧ a.key = k

/-- The next turn of the call has its open yield `s`, connected and under the key asked for. -/
def Yields (w : System) (c : CallId) (s : StreamId) : Prop :=
  ∃ a v, w.Makes c a s [] v ∧ (v.stream s).key = a.key ∧ (v.stream s).isConnected

/-- An open ends with a consumer if its stream is fit, and goes on to refuse it if not. -/
theorem phaseOf_concludeOpen (hc : c < w.calls.size) : (w.concludeOpen c a s).phaseOf c =
    if (w.stream s).key ≠ a.key ∨ !(w.stream s).isConnected then
      .rejecting s none (.violation a.key (.unfit (w.stream s).state (w.stream s).key))
    else .finished (.attached w.consumers.size) := by
  simp only [concludeOpen]
  split
  · rw [((Frame.refl (S := ∅) _).announce c _).phaseOf, phaseOf_note, phaseOf_endOpen,
      phaseOf_setPhase, if_pos ⟨rfl, hc⟩]
  · rw [((Frame.refl (S := ∅) _).announce c _).phaseOf, phaseOf_note,
      ((Frame.refl (S := ∅) _).record _ _).phaseOf, phaseOf_attach, if_pos ⟨rfl, by simpa using hc⟩]
    rfl

/-- An open that yields its stream comes to a consumer. -/
theorem Yields.attached (yields : w.Yields c s) :
    ∃ i, (w.step (.turn (.call c))).phaseOf c = .finished (.attached i) := by
  obtain ⟨a, v, makes, key, connected⟩ := yields
  have hc : c < v.calls.size := makes.calm.calls ▸ makes.lt
  refine ⟨v.consumers.size, ?_⟩
  rw [makes.step_turn, nextMove, phaseOf_concludeOpen hc, if_neg (by simp [key, connected])]

/-- From `w` to `w'` a new stream comes on the list of a slot that had nothing on offer. It is on offer
now if it may be shared, and no open is marked any more. -/
structure Enlists (w w' : System) (b : BrokerId) (k : SourceKey) (s : StreamId) : Prop where
  fresh : s ∉ w.listedAt b k
  vacant : (w.slot b k).shared = none
  listed : ∀ t, t ∈ w'.listedAt b k ↔ t ∈ w.listedAt b k ∨ t = s
  offered : (w'.slot b k).shared = if (w.stream s).sharing then some s else none
  unmarked : (w'.slot b k).opening = none

namespace Sound

/-- An open that comes to a consumer enlists its stream. -/
theorem enlists (g : w.Sound) (opens : w.OpensFor c s b k) {i : ConsumerId}
    (next : (w.step m).phaseOf c = .finished (.attached i)) : w.Enlists (w.step m) b k s := by
  obtain ⟨rfl, a, moves, wait, place, rfl⟩ := opens
  obtain ⟨-, vacant⟩ := g.flight.own_slot (c := c) (a := a) (by rw [place]; rfl)
  have slot := g.registers place next
  refine ⟨g.custody.unlisted (c := c) (by simp [place, Phase.holds]) _ _, vacant, fun t => ?_, ?_, ?_⟩
  · rw [listedAt, slot, Slot.mem_streams_register]
    rfl
  · rw [slot]
    exact Slot.shared_register _ _ _ vacant
  · rw [slot, Slot.opening_register]

/-- A stream that comes on a list has been enlisted by an open. -/
theorem newly_listed (g : w.Sound) (hs : s ∈ (w.step m).listedAt b k) (hn : s ∉ w.listedAt b k) :
    w.Enlists (w.step m) b k s := by
  rw [listedAt] at hs hn
  cases step_relists g m with
  | keeps lists => exact absurd ((lists b k s).1 hs) hn
  | adds actor place next slot lists =>
    obtain ⟨⟨rfl, rfl⟩, rfl⟩ := ((lists b k s).1 hs).resolve_left hn
    exact g.enlists ⟨rfl, _, _, _, place, rfl⟩ next
  | takes _ _ _ _ lists => exact absurd ((lists b k s).1 hs).1 hn
  | clears _ _ _ lists => exact absurd ((lists b k s).1 hs).1 hn

end Sound

/-- In every run, at every moment: under each key at most one stream that may be shared is live or
being opened. The mark of a slot is that of the call that is opening a stream for its key, if there is
one, and nothing is on offer meanwhile. A stream that comes on a list is on offer if it may be shared,
and what was listed stays listed, the stream on offer in its place. An open that yields its stream,
connected and under the key asked for, comes to a consumer, and one that comes to a consumer enlists its
stream: it is listed, takes nobody's place, and is on offer if it may be shared. -/
theorem single_flight (configs : List BrokerConfig) (desk : AccessDesk) (terms : List TunerTerms)
    (moves : List Move) (b : BrokerId) (k : SourceKey) :
    let w := (fresh configs desk terms).run moves
    w.liveShared b k + w.opensInFlight b k ≤ 1 ∧
    (∀ c, (w.slot b k).opening = some c ↔ w.Opens c b k) ∧
    ((w.slot b k).opening ≠ none → (w.slot b k).shared = none) ∧
    (∀ m s, s ∈ (w.step m).listedAt b k → s ∉ w.listedAt b k →
      ((w.stream s).sharing → ((w.step m).slot b k).shared = some s) ∧
      (∀ t ∈ w.listedAt b k, t ∈ (w.step m).listedAt b k) ∧
      ∀ t, (w.slot b k).shared = some t → ((w.step m).slot b k).shared = some t) ∧
    ∀ c s, w.OpensFor c s b k →
      (w.Yields c s → ∃ i, (w.step (.turn (.call c))).phaseOf c = .finished (.attached i)) ∧
      ∀ m i, (w.step m).phaseOf c = .finished (.attached i) → w.Enlists (w.step m) b k s := by
  intro w
  have h : w.Sound := (sound_fresh configs desk terms).run moves
  refine ⟨h.liveShared_add_opensInFlight_le b k, h.flight.marks b k, fun ho => ?_, fun m s hs hn => ?_,
    fun c s opens => ⟨Yields.attached, fun m i => h.enlists opens⟩⟩
  · obtain ⟨c, hc⟩ := Option.ne_none_iff_exists'.1 ho
    exact (h.flight.order b k).vacant c hc
  · have enlists := h.newly_listed hs hn
    refine ⟨fun hsh => ?_, fun t ht => (enlists.listed t).2 (.inl ht), fun t ht => ?_⟩
    · rw [enlists.offered, if_pos hsh]
    · rw [enlists.vacant] at ht
      cases ht

end System

end TunerBroker
