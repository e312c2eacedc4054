import Mathlib.Data.List.Nodup
import TunerBroker.Proofs.Steps.Books

/-! Who answers for a stream. A stream that a broker may list is in one place at most: with the call
that opens it, in a slot, or with the call that closes it. It goes from one to the next, and a stream
that goes by a name is with none of them. -/

namespace TunerBroker

/-- Who can answer for streams. -/
inductive Keeper where
  | slot (b : BrokerId) (k : SourceKey)
  | call (c : CallId)

namespace System

/-- The streams a keeper answers for. -/
def kept (w : System) : Keeper → List StreamId
  | .slot b k => (w.slot b k).streams
  | .call c => (w.phaseOf c).owns

/-- Every stream kept has one keeper, was made, and has neither a name nor a borrower. -/
structure Custody (w : System) : Prop where
  nodup : ∀ o, (w.kept o).Nodup
  unique : ∀ {o q s}, s ∈ w.kept o → s ∈ w.kept q → o = q
  made : ∀ {o s}, s ∈ w.kept o → s < w.streams.size
  unnamed : ∀ {o s}, s ∈ w.kept o → (w.stream s).named = false
  unlent : ∀ {o s c}, s ∈ w.kept o → s ∉ (w.phaseOf c).borrows
  lent_made : ∀ {c s}, s ∈ (w.phaseOf c).borrows → s < w.streams.size

/-- Calls borrow nothing new but what goes by a name. -/
def Borrowing (w w' : System) : Prop :=
  ∀ {c s}, s ∈ (w'.phaseOf c).borrows → s ∈ (w.phaseOf c).borrows ∨ (w.stream s).named

namespace Custody

variable {m : Move} {w w' : System} {c : CallId} {s t : StreamId} {p : Phase} {f : Stream → Stream}

/-- Custody passes on when the streams in `M` come to one keeper and every other keeper keeps no more
than it did. -/
theorem pass (h : w.Custody) (o₁ : Keeper) (M : List StreamId)
    (kept : ∀ {o s}, s ∈ w'.kept o → s ∈ w.kept o ∧ s ∉ M ∨ o = o₁ ∧ s ∈ M)
    (nodup : ∀ o, (w'.kept o).Nodup) (borrowing : Borrowing w w')
    (size : w.streams.size ≤ w'.streams.size)
    (named : ∀ {o s}, s ∈ w.kept o → (w'.stream s).named → (w.stream s).named)
    (made : ∀ s ∈ M, s < w'.streams.size) (unnamed : ∀ s ∈ M, (w'.stream s).named = false)
    (unlent : ∀ s ∈ M, ∀ c, s ∉ (w'.phaseOf c).borrows) : w'.Custody where
  nodup := nodup
  unique hs hs' := by
    rcases kept hs with ⟨hs, hM⟩ | ⟨rfl, hM⟩ <;> rcases kept hs' with ⟨hs', hM'⟩ | ⟨rfl, hM'⟩
    · exact h.unique hs hs'
    · exact absurd hM' hM
    · exact absurd hM hM'
    · rfl
  made hs := by
    rcases kept hs with ⟨hs, -⟩ | ⟨-, hM⟩
    · exact Nat.lt_of_lt_of_le (h.made hs) size
    · exact made _ hM
  unnamed hs := by
    rcases kept hs with ⟨hs, -⟩ | ⟨-, hM⟩
    · exact Bool.eq_false_of_not_eq_true fun hn => by simpa [h.unnamed hs] using named hs hn
    · exact unnamed _ hM
  unlent hs hb := by
    rcases kept hs with ⟨hs, -⟩ | ⟨-, hM⟩
    · rcases borrowing hb with hb | hn
      · exact h.unlent hs hb
      · simp [h.unnamed hs] at hn
    · exact unlent _ hM _ hb
  lent_made hb := by
    rcases borrowing hb with hb | hn
    · exact Nat.lt_of_lt_of_le (h.lent_made hb) size
    · exact Nat.lt_of_lt_of_le (w.lt_of_named _ hn) size

/-- Custody stays when no slot lists more and no call comes to answer for more. -/
theorem stay (h : w.Custody) (slots : ∀ b k, (w'.slot b k).Within (w.slot b k))
    (owns : ∀ c, (w'.phaseOf c).owns.Sublist (w.phaseOf c).owns) (borrowing : Borrowing w w')
    (size : w.streams.size ≤ w'.streams.size)
    (named : ∀ {o s}, s ∈ w.kept o → (w'.stream s).named → (w.stream s).named) : w'.Custody := by
  refine h.pass (.call 0) [] (fun {o _} hs => .inl ⟨?_, by simp⟩) (fun o => ?_) borrowing size named
    (by simp) (by simp) (by simp)
  · cases o with
    | slot b k => exact (slots b k).subset hs
    | call c => exact (owns c).subset hs
  · cases o with
    | slot b k => exact (slots b k).nodup (h.nodup (.slot b k))
    | call c => exact (h.nodup (.call c)).sublist (owns c)

/-- Custody stays when no slot lists more and one call goes on with no more than it had. -/
theorem move (h : w.Custody) (slots : ∀ b k, (w'.slot b k).Within (w.slot b k))
    (hp : ∀ c', w'.phaseOf c' = w.phaseOf c' ∨ c' = c ∧ w'.phaseOf c' = p)
    (owns : p.owns.Sublist (w.phaseOf c).owns) (borrows : p.borrows ⊆ (w.phaseOf c).borrows)
    (size : w.streams.size ≤ w'.streams.size)
    (named : ∀ s, (w'.stream s).named → (w.stream s).named) : w'.Custody := by
  refine h.stay slots (fun c' => ?_) (fun {c' s} hs => .inl ?_) size fun _ => named _
  · rcases hp c' with hq | ⟨rfl, hq⟩
    · rw [hq]
    · rwa [hq]
  · rcases hp c' with hq | ⟨rfl, hq⟩ <;> rw [hq] at hs
    · exact hs
    · exact borrows hs

/-- Custody stays when a call comes to answer for streams that nobody else answers for then. -/
theorem take (h : w.Custody) (slots : ∀ b k, (w'.slot b k).Within (w.slot b k))
    (hp : ∀ c', w'.phaseOf c' = if c' = c then p else w.phaseOf c')
    (unlisted : ∀ b k, ∀ s ∈ p.owns, s ∉ (w'.slot b k).streams)
    (others : ∀ c', c' ≠ c → ∀ s ∈ p.owns, s ∉ (w.phaseOf c').owns)
    (nodup : p.owns.Nodup) (borrows : p.borrows = []) (size : w.streams.size ≤ w'.streams.size)
    (named : ∀ {o s}, s ∈ w.kept o → (w'.stream s).named → (w.stream s).named)
    (made : ∀ s ∈ p.owns, s < w'.streams.size) (unnamed : ∀ s ∈ p.owns, (w'.stream s).named = false)
    (unlent : ∀ s ∈ p.owns, ∀ c', s ∉ (w.phaseOf c').borrows) : w'.Custody := by
  have lent : ∀ {c' s}, s ∈ (w'.phaseOf c').borrows → s ∈ (w.phaseOf c').borrows := by
    intro c' s hs
    rw [hp] at hs
    split at hs
    · simp [borrows] at hs
    · exact hs
  refine h.pass (.call c) p.owns (fun {o s} hs => ?_) (fun o => ?_) (.inl <| lent ·) size named
    made unnamed fun s hs c' hb => unlent s hs c' (lent hb)
  · cases o with
    | slot b k => exact .inl ⟨(slots b k).subset hs, fun hM => unlisted b k s hM hs⟩
    | call c' =>
      simp only [System.kept, hp] at hs ⊢
      split at hs
      · exact .inr ⟨by simp [*], hs⟩
      · exact .inl ⟨hs, fun hM => others c' ‹_› s hM hs⟩
  · cases o with
    | slot b k => exact (slots b k).nodup (h.nodup (.slot b k))
    | call c' =>
      simp only [System.kept, hp]
      split
      · exact nodup
      · exact h.nodup (.call c')

/-- No slot lists a stream that a call keeps alive. -/
theorem unlisted (h : w.Custody) (hs : s ∈ (w.phaseOf c).holds) (b : BrokerId) (k : SourceKey) :
    s ∉ (w.slot b k).streams := by
  intro hl
  rcases (Phase.mem_holds _ _).1 hs with ho | hb
  · cases h.unique (o := .call c) ho (q := .slot b k) hl
  · exact h.unlent (o := .slot b k) hl hb

/-! ### The changes one by one -/

theorem frame {S : Set StreamId} (h : w.Custody) (f : Frame S w w') : w'.Custody :=
  h.stay (fun b k => .of_eq (by rw [f.slot])) (fun c => by rw [f.phaseOf])
    (fun {c _} => by rw [f.phaseOf]; exact .inl) f.streams.ge
    (fun {_ s} _ => by rw [(f.kin s).named]; exact id)

theorem begin {b : BrokerId} {gated : Bool} {errand : Errand} (h : w.Custody)
    (allowed : errand.isAllowed w b) : (w.begin b gated errand).Custody := by
  refine h.stay (fun b' k => .of_eq (by simp)) (fun c => ?_) (fun {c s} hb => ?_) (by simp)
    (fun {_ s} _ => by simp)
  · rw [phaseOf_begin]
    split
    · cases errand <;> exact List.nil_sublist _
    · exact .refl _
  · rw [phaseOf_begin] at hb
    split at hb
    · right
      cases errand <;> simp_all [Errand.origin, Phase.borrows, Errand.isAllowed]
    · exact .inl hb

/-- A change of one stream that leaves its name, with one call coming to its end. -/
theorem tell {o : Outcome} (h : w.Custody) (slots : ∀ b k, w'.slot b k = w.slot b k)
    (hp : ∀ c', w'.phaseOf c' = w.phaseOf c' ∨ c' = c ∧ w'.phaseOf c' = .finished o)
    (streams : w'.streams = (w.setStream s f).streams) (hf : ∀ x, (f x).named = x.named) :
    w'.Custody := by
  refine h.move (fun b k => .of_eq (by rw [slots])) hp (List.nil_sublist _) (List.nil_subset _)
    (by simp [streams]) fun t ht => ?_
  have : w'.stream t = (w.setStream s f).stream t := by simp only [System.stream, streams]
  rw [this, stream_setStream] at ht
  split at ht
  · rwa [hf] at ht
  · exact ht

/-- An open takes on a stream that was never there. -/
theorem beginOpen {a : Acquisition} {x : Slot} (h : w.Custody) (hp : w.phaseOf c = .seeking a)
    (hx : x.Within (w.slot (w.brokerOf c) a.key)) : (w.beginOpen c a x).Custody := by
  have hc : c < w.calls.size := w.lt_of_phaseOf _ (by simp [hp])
  have slots : ∀ b k, ((w.beginOpen c a x).slot b k).Within (w.slot b k) := by
    intro b k
    rw [slot_beginOpen]
    split
    · rename_i he
      rw [he.1, he.2.1]
      exact ⟨hx.subset, hx.nodup⟩
    · exact .refl _
  have fresh : ∀ o, w.streams.size ∉ w.kept o := fun o ho => Nat.lt_irrefl _ (h.made ho)
  refine h.take slots (c := c) (p := w.openingPhase a) (fun c' => by simp [phaseOf_beginOpen, hc])
    (fun b k s hs hl => ?_) (fun c' _ s hs ho => ?_) (by simp [openingPhase, Phase.owns]) rfl
    (by simp) (fun {o s} hs hn => ?_) (fun s hs => ?_) (fun s hs => ?_) (fun s hs c' hb => ?_)
  · exact fresh (.slot b k) (List.mem_singleton.1 hs ▸ (slots b k).subset hl)
  · exact fresh (.call c') (List.mem_singleton.1 hs ▸ ho)
  · rwa [stream_beginOpen, if_neg (by rintro rfl; exact fresh o hs)] at hn
  · simp [List.mem_singleton.1 hs]
  · rw [stream_beginOpen, if_pos (List.mem_singleton.1 hs)]
    rfl
  · exact Nat.lt_irrefl _ (h.lent_made (List.mem_singleton.1 hs ▸ hb))

/-- An open is handed a stream that goes by a name so far. -/
theorem provide {a : Acquisition} {moves : List OpenMove} (h : w.Custody) (hc : c < w.calls.size)
    (free : w.isFree t) : ((w.setStream t fun x => { x with named := false }).setPhase c
      (.opening a t moves .nowhere)).Custody := by
  rw [isFree_iff] at free
  have kept : ∀ o, t ∉ w.kept o := fun o ho => by simp [h.unnamed ho] at free
  refine h.take (c := c) (p := .opening a t moves .nowhere) (fun _ _ => .refl _) (fun c' => ?_)
    (fun b k s hs hl => ?_) (fun c' _ s hs ho => ?_) (by simp [Phase.owns]) rfl (by simp)
    (fun hs hn => ?_) (fun s hs => ?_) (fun s hs => ?_) (fun s hs c' hb => ?_)
  · simp [phaseOf_setPhase, hc]
  · exact kept (.slot b k) (List.mem_singleton.1 hs ▸ hl)
  · exact kept (.call c') (List.mem_singleton.1 hs ▸ ho)
  · rw [stream_setPhase, stream_setStream] at hn
    split at hn
    · cases hn
    · exact hn
  · simpa [List.mem_singleton.1 hs] using w.lt_of_named t free.1
  · simp [List.mem_singleton.1 hs, w.lt_of_named t free.1]
  · exact free.2 c' ((Phase.mem_holds _ _).2 (.inr (List.mem_singleton.1 hs ▸ hb)))

/-- An open ends, and its stream does not go to the slot. -/
theorem giveUp {a : Acquisition} {moves : List OpenMove} {wait : OpenWait} (h : w.Custody)
    (hp : w.phaseOf c = .opening a s moves wait) (exit : p.Exit s) :
    ((w.setPhase c p).endOpen c a.key none).Custody := by
  refine h.move (fun b k => ?_) (fun _ => setPhase_cases _ _ _ _) ?_ ?_ (Nat.le_refl _) fun _ => id
  · rw [slot_endOpen]
    split
    · exact within_endedSlot _ _ _
    · exact .refl _
  · rw [hp]
    cases exit <;> simp [Phase.owns]
  · cases exit <;> exact List.nil_subset _

/-- A stream goes from the call that opened it to the slot. -/
theorem register {a : Acquisition} {moves : List OpenMove} {wait : OpenWait} (h : w.Custody)
    (hp : w.phaseOf c = .opening a s moves wait) (hf : ∀ x, (f x).named = x.named) :
    (((w.setStream s f).endOpen c a.key (some s)).attach c s).Custody := by
  have hc : c < w.calls.size := w.lt_of_phaseOf _ (by simp [hp])
  have hs : s ∈ w.kept (.call c) := by simp [System.kept, hp, Phase.owns]
  have phase : ∀ c', (((w.setStream s f).endOpen c a.key (some s)).attach c s).phaseOf c' =
      if c' = c then .finished (.attached w.consumers.size) else w.phaseOf c' := by
    intro c'
    simp [phaseOf_attach, hc]
  have named : ∀ t, ((w.setStream s f).stream t).named = (w.stream t).named := by
    intro t
    rw [stream_setStream]
    split
    · exact hf _
    · rfl
  have owns : ∀ c' t, c' ≠ c → t ∈ (w.phaseOf c').owns → t ≠ s := by
    rintro c' t hne ht rfl
    cases h.unique (o := .call c') ht hs
    exact hne rfl
  have listed : ∀ b k t, t ∈ (w.slot b k).streams → t ≠ s := by
    rintro b k t ht rfl
    cases h.unique (o := .slot b k) ht hs
  refine h.pass (.slot (w.brokerOf c) a.key) [s] (fun {o t} ht => ?_) (fun o => ?_)
    (fun {c' t} ht => .inl ?_) (by simp) (fun {_ t} _ => ?_) ?_ ?_ ?_
  · cases o with
    | slot b k =>
      simp only [System.kept, slot_attach, slot_endOpen] at ht ⊢
      split at ht
      · rename_i he
        rcases (mem_streams_endedSlot _ _ _ _ _).1 ht with ht | ht
        · exact .inl ⟨ht, by simpa using listed b k t ht⟩
        · exact .inr ⟨by rw [he.1, he.2.1]; rfl, by simpa [eq_comm] using ht⟩
      · exact .inl ⟨ht, by simpa using listed b k t ht⟩
    | call c' =>
      simp only [System.kept, phase] at ht ⊢
      split at ht
      · simp [Phase.owns] at ht
      · exact .inl ⟨ht, by simpa using owns c' t ‹_› ht⟩
  · cases o with
    | slot b k =>
      simp only [System.kept, slot_attach, slot_endOpen]
      split
      · refine nodup_endedSlot _ _ _ _ (h.nodup (.slot b k)) fun t ht hm => ?_
        exact listed b k t hm (Option.some.inj ht).symm
      · exact h.nodup (.slot b k)
    | call c' =>
      simp only [System.kept, phase]
      split
      · exact List.nodup_nil
      · exact h.nodup (.call c')
  · rw [phase] at ht
    split at ht
    · simp [Phase.borrows] at ht
    · exact ht
  · rw [stream_attach, stream_endOpen, named]
    exact id
  · simpa using h.made hs
  · simpa [named] using h.unnamed hs
  · intro t ht c' hb
    rw [List.mem_singleton.1 ht, phase] at hb
    split at hb
    · simp [Phase.borrows] at hb
    · exact h.unlent hs hb

/-- A stream goes from the slot to the call that closes it. -/
theorem last {k : ConsumerId} {x : Consumer} (h : w.Custody) (hc : c < w.calls.size)
    (listed : (w.slot (w.brokerOf c) x.key).isRegistered x.stream)
    (hf : ∀ x, (f x).named = x.named) :
    ((((w.setStanding k .released).setStream x.stream f).putSlot (w.brokerOf c) x.key
      ((w.slot (w.brokerOf c) x.key).deregister x.stream)).setPhase c
        (.tearing x.stream none)).Custody := by
  have hs : x.stream ∈ w.kept (.slot (w.brokerOf c) x.key) := (Slot.isRegistered_iff _ _).1 listed
  have hn := h.nodup (.slot (w.brokerOf c) x.key)
  have hb : w.brokerOf c < w.brokers.size :=
    w.lt_of_slot _ x.key fun he => by simp [System.kept, he, Slot.streams] at hs
  have slot : ∀ b k', ((((w.setStanding k .released).setStream x.stream f).putSlot (w.brokerOf c)
      x.key ((w.slot (w.brokerOf c) x.key).deregister x.stream)).setPhase c
        (.tearing x.stream none)).slot b k' =
      if b = w.brokerOf c ∧ k' = x.key then (w.slot b k').deregister x.stream
      else w.slot b k' := by
    intro b k'
    simp only [slot_setPhase, slot_putSlot, slot_setStream, slot_setStanding, brokers_setStream,
      brokers_setStanding, hb, and_true]
    split
    · rename_i he
      rw [he.1, he.2]
    · rfl
  refine h.take (c := c) (p := .tearing x.stream none) (fun b k' => ?_) (fun c' => ?_)
    (fun b k' s hs' hl => ?_) (fun c' _ s hs' ho => ?_) (by simp [Phase.owns]) rfl (by simp)
    (fun _ ht => ?_) (fun s hs' => ?_) (fun s hs' => ?_) (fun s hs' c' hb' => ?_)
  · rw [slot]
    split
    · rename_i he
      rw [he.1, he.2]
      exact Slot.within_deregister _
    · exact .refl _
  · simp [phaseOf_setPhase, hc]
  · rw [List.mem_singleton.1 hs', slot] at hl
    split at hl
    · rename_i he
      rw [he.1, he.2, Slot.streams_deregister _ _ hn] at hl
      simp at hl
    · rename_i he
      cases h.unique (o := .slot b k') hl hs
      exact he ⟨rfl, rfl⟩
  · cases h.unique (o := .call c') (List.mem_singleton.1 hs' ▸ ho) hs
  · rw [stream_setPhase, stream_putSlot, stream_setStream] at ht
    split at ht
    · rwa [hf] at ht
    · exact ht
  · simpa [List.mem_singleton.1 hs'] using h.made hs
  · rw [List.mem_singleton.1 hs', stream_setPhase, stream_putSlot,
      stream_setStream_self _ _ _ (by exact h.made hs), hf]
    exact h.unnamed hs
  · exact h.unlent hs (List.mem_singleton.1 hs' ▸ hb')

theorem nodup_listed (h : w.Custody) (b : BrokerId) : (w.listed b).Nodup := by
  have streams : ∀ p ∈ (w.broker b).slots.pairs, p.2.streams = w.kept (.slot b p.1) := by
    intro p hp
    simp [System.kept, System.slot, (Keyed.mem_pairs _ p.1 p.2).1 hp]
  have keys := (w.broker b).slots.distinct
  rw [listed, Keyed.values, List.flatMap_map, List.nodup_flatMap]
  refine ⟨fun p hp => streams p hp ▸ h.nodup _, ?_⟩
  rw [List.Nodup, List.pairwise_map] at keys
  refine keys.imp_of_mem fun {p q} hp hq hne => ?_
  simp only [Function.onFun, streams p hp, streams q hq]
  intro s hs hs'
  exact hne (Keeper.slot.inj (h.unique hs hs')).2

/-- All streams of a broker go from its slots to the call that closes them. -/
theorem sweep (h : w.Custody) (hc : c < w.calls.size) : (w.sweep c).Custody := by
  have slots : ∀ b k, ((w.sweep c).slot b k).streams =
      if b = w.brokerOf c then [] else (w.slot b k).streams := by
    intro b k
    rw [slot_sweep]
    split <;> rfl
  have owns : (Phase.sweeping none (w.listed (w.brokerOf c)) 0).owns = w.listed (w.brokerOf c) := rfl
  refine h.take (c := c) (p := .sweeping none (w.listed (w.brokerOf c)) 0) (fun b k => ?_)
    (fun c' => ?_) (fun b k s hs hl => ?_) (fun c' _ s hs ho => ?_) (h.nodup_listed _) rfl
    (Nat.le_refl _) (fun _ => id) (fun s hs => ?_) (fun s hs => ?_) (fun s hs c' hb => ?_)
  · rw [slot_sweep]
    split
    · exact ⟨List.nil_subset _, fun _ => List.nodup_nil⟩
    · exact .refl _
  · simp [phaseOf_sweep, hc]
  · rw [slots] at hl
    split at hl
    · cases hl
    · rename_i hb
      obtain ⟨k', hs⟩ := (mem_listed _ _ _).1 hs
      cases h.unique (o := .slot b k) hl (q := .slot (w.brokerOf c) k') hs
      exact hb rfl
  all_goals obtain ⟨k', hs⟩ := (mem_listed _ _ _).1 hs
  · cases h.unique (o := .call c') ho (q := .slot (w.brokerOf c) k') hs
  · exact h.made (o := .slot _ k') hs
  · exact h.unnamed (o := .slot _ k') hs
  · exact h.unlent (o := .slot _ k') hs hb

theorem change (h : w.Custody) (hc : Change m w w') : w'.Custody := by
  cases hc with
  | stay => exact h
  | begin allowed => exact h.begin allowed
  | make =>
    refine h.stay (fun _ _ => .refl _) (fun _ => .refl _) .inl (by simp) fun hs hn => ?_
    rw [stream_addStream] at hn
    split at hn
    · rename_i he
      exact absurd (h.made hs) (he ▸ Nat.lt_irrefl _)
    · exact hn
  | letGo =>
    refine h.stay (fun _ _ => .refl _) (fun _ => .refl _) .inl (by simp) fun hs hn => ?_
    rw [stream_setStream] at hn
    split at hn
    · simp at hn
    · exact hn
  | drop there held =>
    exact h.stay (fun _ _ => .refl _) (fun _ => .refl _) .inl (Nat.le_refl _) fun _ => id
  | go actor leads idle free =>
    exact h.move (fun _ _ => .refl _) (fun _ => setPhase_cases _ _ _ _) leads.owns leads.borrows
      (Nat.le_refl _) fun _ => id
  | work actor work held leads before after =>
    rw [← work.frame.phaseOf] at leads
    exact (h.frame work.frame).move (fun _ _ => .refl _) (fun _ => setPhase_cases _ _ _ _) leads.owns
      leads.borrows (Nat.le_refl _) fun _ => id
  | provide place free => exact h.provide (w.lt_of_phaseOf _ (by simp [place])) free
  | demote place shared ended vacant => exact h.beginOpen place Slot.within_demote
  | demoteJoin place shared ended taken =>
    refine h.move (p := .waiting _ _) (fun b k => ?_) (fun _ => setPhase_cases _ _ _ _)
      (List.nil_sublist _) (List.nil_subset _) (Nat.le_refl _) fun _ => id
    rw [slot_setPhase, slot_putSlot]
    split
    · rename_i he
      rw [he.1, he.2.1]
      exact Slot.within_demote
    · exact .refl _
  | «open» place shared vacant => exact h.beginOpen place (.refl _)
  | reuse place shared counted live media =>
    exact h.tell (fun _ _ => rfl) (fun _ => setPhase_cases _ _ _ _) rfl fun _ => rfl
  | register actor place work key connected inside =>
    exact (h.frame work.frame).register ((work.frame.phaseOf _).trans place) fun _ => rfl
  | giveUp actor place work exit =>
    exact (h.frame work.frame).giveUp ((work.frame.phaseOf _).trans place) exit
  | miss place missing =>
    exact h.move (p := .finished _) (fun _ _ => .refl _) (fun _ => setPhase_cases _ _ _ _)
      (List.nil_sublist _) (List.nil_subset _) (Nat.le_refl _) fun _ => id
  | refuse place there unfit =>
    exact h.move (p := .finished _) (fun _ _ => .refl _) (fun _ => setPhase_cases _ _ _ _)
      (List.nil_sublist _) (List.nil_subset _) (Nat.le_refl _) fun _ => id
  | detach turn place there listed others =>
    exact h.tell (fun _ _ => rfl) (fun _ => setPhase_cases _ _ _ _) rfl fun _ => rfl
  | last turn place there listed alone =>
    exact h.last (w.lt_of_phaseOf _ (by simp [place])) listed fun _ => rfl
  | sweep turn place => exact h.sweep (w.lt_of_phaseOf _ (by simp [place]))

end Custody

end System

end TunerBroker
