import TunerBroker.Proofs.Invariants.LedgerRuns
import TunerBroker.Proofs.Opens.SingleFlight

/-! Streams that have left the list. Only a stream that was fresh comes on a list, and consumers are
attached only to what is listed or comes on a list; so a stream that has left the list is never given to
anybody again. -/

namespace TunerBroker

namespace System

variable {m : Move} {w w' : System} {b : BrokerId} {k : SourceKey} {s : StreamId}

theorem OpensFor.fresh {c : CallId} (h : w.OpensFor c s b k) : w.Fresh s := by
  obtain ⟨-, a, moves, wait, place, -⟩ := h
  exact .inr ⟨c, by rw [place]; rfl⟩

theorem attachments_congr (h : w'.consumers = w.consumers) (s : StreamId) :
    w'.attachments s = w.attachments s := by
  simp only [attachments, h]

theorem attachments_begin {gated : Bool} {errand : Errand} (s : StreamId) :
    (w.begin b gated errand).attachments s = w.attachments s := by
  cases errand with
  | release i => exact attachments_setStanding
  | _ => rfl

/-- One more consumer is attached to a stream that is on offer and live, or to one that was fresh. -/
theorem Change.attachments (hc : Change m w w') (s : StreamId) :
    w'.attachments s = w.attachments s ∨ w'.attachments s = w.attachments s + 1 ∧
      ((∃ b k, (w.slot b k).shared = some s ∧ (w.stream s).isLive) ∨ w.Fresh s) := by
  have attach : ∀ {v : System} {c : CallId} {t : StreamId}, v.consumers = w.consumers →
      ((∃ b k, (w.slot b k).shared = some t ∧ (w.stream t).isLive) ∨ w.Fresh t) →
        (v.attach c t).attachments s = w.attachments s ∨
          (v.attach c t).attachments s = w.attachments s + 1 ∧
            ((∃ b k, (w.slot b k).shared = some s ∧ (w.stream s).isLive) ∨ w.Fresh s) := by
    intro v c t hv ht
    have count : (v.attach c t).attachments s = v.attachments s + if t = s then 1 else 0 :=
      attachments_addConsumer (w := v) (x := Ledger.consumerOf v c t)
    rw [count, attachments_congr hv]
    split
    · rename_i he
      exact .inr ⟨rfl, he ▸ ht⟩
    · exact .inl rfl
  cases hc with
  | stay | make | letGo | go | provide | demote | demoteJoin | «open» | miss | sweep => exact .inl rfl
  | begin => exact .inl (attachments_begin s)
  | drop | refuse | detach | last => exact .inl attachments_setStanding
  | work actor work => exact .inl (attachments_congr work.frame.consumers s)
  | giveUp actor place work => exact .inl (attachments_congr work.frame.consumers s)
  | reuse place shared counted live => exact attach rfl (.inl ⟨_, _, shared, live⟩)
  | register actor place work =>
    exact attach work.frame.consumers (.inr (.inr ⟨_, by rw [place]; rfl⟩))

/-- The stream has had consumers and is on no list. -/
structure Spent (w : System) (s : StreamId) : Prop where
  used : w.attachments s ≠ 0
  unlisted : ∀ b k, s ∉ (w.slot b k).streams

theorem Frame.fresh {S : Set StreamId} (g : Frame S w w') : w'.Fresh s ↔ w.Fresh s := by
  simp only [Fresh, g.phaseOf, (g.kin s).named]

/-- Work elsewhere does not have a stream deliver. -/
theorem Frame.live (g : Frame ∅ w w') (live : (w'.stream s).isLive) : (w.stream s).isLive := by
  have lifecycle := g.lifecycle s (Set.notMem_empty s)
  have feed := g.feed s (Set.notMem_empty s)
  simp only [Stream.isLive, Stream.state, lifecycle, decide_eq_true_eq] at live ⊢
  grind

theorem attachments_step (w : System) (m : Move) (s : StreamId) :
    (w.step m).attachments s = w.attachments s ∨ (w.step m).attachments s = w.attachments s + 1 ∧
      ((∃ b k, (w.slot b k).shared = some s ∧ (w.stream s).isLive) ∨ w.Fresh s) := by
  obtain ⟨w₁, w₂, h₁, hc, h₂⟩ := step_books w m
  rw [attachments_congr h₂.frame.consumers, ← attachments_congr h₁.frame.consumers s,
    ← h₁.frame.fresh]
  refine (hc.attachments s).imp_right fun ⟨one, source⟩ => ⟨one, source.imp_left ?_⟩
  rintro ⟨b, k, shared, live⟩
  exact ⟨b, k, h₁.frame.slot b k ▸ shared, h₁.frame.live live⟩

theorem attachments_le_step (w : System) (m : Move) (s : StreamId) :
    w.attachments s ≤ (w.step m).attachments s := by
  rcases attachments_step w m s with same | ⟨one, -⟩
  · exact same.ge
  · exact one ▸ Nat.le_succ _

theorem attachments_le_run (w : System) (moves : List Move) (s : StreamId) :
    w.attachments s ≤ (w.run moves).attachments s := by
  induction moves generalizing w with
  | nil => exact Nat.le_refl _
  | cons m moves ih => exact (w.attachments_le_step m s).trans (ih (w.step m))

/-- A stream that comes on a list in a step was being opened for its key. -/
theorem listed_step (g : w.Sound) (hs : s ∈ ((w.step m).slot b k).streams) :
    s ∈ (w.slot b k).streams ∨ ∃ c, w.OpensFor c s b k := by
  cases step_relists g m with
  | keeps lists => exact .inl ((lists b k s).1 hs)
  | @adds c a t moves wait i actor place next slot lists =>
    refine ((lists b k s).1 hs).imp_right ?_
    rintro ⟨⟨rfl, rfl⟩, rfl⟩
    exact ⟨c, rfl, a, moves, wait, place, rfl⟩
  | takes _ _ _ _ lists => exact .inl ((lists b k s).1 hs).1
  | clears _ _ _ lists => exact .inl ((lists b k s).1 hs).1

/-- A stream that has had consumers was made. -/
theorem Ledger.made (l : w.Ledger) (used : w.attachments s ≠ 0) : s < w.streams.size := by
  obtain ⟨x, hx, hs⟩ := List.countP_pos_iff.1 (Nat.pos_iff_ne_zero.2 used)
  obtain ⟨i, hi⟩ := (Table.mem_entries_iff _ _).1 hx
  obtain rfl : x.stream = s := of_decide_eq_true hs
  exact (l.placed hi).1

namespace Spent

theorem made (h : w.Spent s) (l : w.Ledger) : s < w.streams.size := l.made h.used

theorem stale (h : w.Spent s) (l : w.Ledger) : ¬ w.Fresh s := fun hf => h.used (l.fresh hf).2

theorem step (h : w.Spent s) (l : w.Ledger) (g : w.Sound) (m : Move) :
    (w.step m).Spent s ∧ (w.step m).attachments s = w.attachments s := by
  have same : (w.step m).attachments s = w.attachments s := by
    rcases attachments_step w m s with same | ⟨-, ⟨b, k, shared, -⟩ | fresh⟩
    · exact same
    · exact absurd ((Slot.mem_streams _ _).2 (.inl shared)) (h.unlisted b k)
    · exact absurd fresh (h.stale l)
  refine ⟨⟨by rw [same]; exact h.used, fun b k hs => ?_⟩, same⟩
  exact (listed_step g hs).elim (h.unlisted b k) fun ⟨_, opens⟩ => h.stale l opens.fresh

theorem run (h : w.Spent s) (l : w.Ledger) (g : w.Sound) (moves : List Move) :
    (w.run moves).Spent s ∧ (w.run moves).attachments s = w.attachments s := by
  induction moves generalizing w with
  | nil => exact ⟨h, rfl⟩
  | cons m moves ih =>
    obtain ⟨h', same⟩ := h.step l g m
    obtain ⟨h'', same'⟩ := ih h' (l.step g m) (g.step m)
    exact ⟨h'', same'.trans same⟩

end Spent

/-- A stream that a step takes off its list has left for good. -/
theorem spent_of_delisted (l : w.Ledger) (g : w.Sound) (hs : s ∈ w.listedAt b k)
    (hn : s ∉ (w.step m).listedAt b k) : (w.step m).Spent s := by
  have used : w.attachments s ≠ 0 :=
    Nat.pos_iff_ne_zero.1 ((l.counted hs).some.trans_le (w.unreleased_le s))
  refine ⟨fun h => used (Nat.eq_zero_of_le_zero (h ▸ w.attachments_le_step m s)), fun b' k' hs' => ?_⟩
  rcases listed_step g hs' with hl | ⟨c, opens⟩
  · obtain ⟨rfl, rfl⟩ := Keeper.slot.inj (g.custody.unique (o := .slot b k) hs (q := .slot b' k') hl)
    exact hn hs'
  · exact used (l.fresh opens.fresh).2

end System

end TunerBroker
