import Mathlib.Logic.Relation
import TunerBroker.Proofs.Invariants.Flight

/-! Membership of a slot. Whatever is listed, taken off, moved off offer or marked in whatever order, a
slot lists a set of streams, each once; and every slot of every run has come about like that. -/

namespace TunerBroker

namespace Slot

variable {x : Slot} (s : StreamId) (sharing : Bool)

/-- One change of a slot. A stream is listed only where it is not listed yet. -/
inductive Alters (x : Slot) : Slot → Prop
  | register (s : StreamId) (sharing : Bool) (new : s ∉ x.streams) :
      Alters x (x.register s sharing)
  | deregister (s : StreamId) : Alters x (x.deregister s)
  | demote : Alters x x.demote
  | take : Alters x x.takeStreams.2
  /-- An open begins or ends. -/
  | mark (opening : Option CallId) : Alters x { x with opening }

/-- The slot comes about from the empty one. -/
def Reachable (x : Slot) : Prop := Relation.ReflTransGen Alters {} x

theorem Reachable.empty : Reachable {} := .refl

theorem Reachable.alter {y : Slot} (h : x.Reachable) (g : x.Alters y) : y.Reachable := h.tail g

theorem Alters.nodup {y : Slot} (h : x.Alters y) (hx : x.streams.Nodup) : y.streams.Nodup := by
  cases h with
  | register s sharing new => exact nodup_register x s sharing hx new
  | deregister s => exact (within_deregister s).nodup hx
  | demote => exact nodup_demote x hx
  | take => exact List.nodup_nil
  | mark opening => exact hx

theorem Reachable.nodup (h : x.Reachable) : x.streams.Nodup := by
  induction h with
  | refl => exact List.nodup_nil
  | tail _ g ih => exact g.nodup ih

/-! ### What one change does to the set -/

/-- A stream not listed comes to the front as the one on offer, or beside the others at the end. -/
theorem register_eq (hs : s ∉ x.streams) : x.register s sharing =
    if sharing ∧ x.shared = none then { x with shared := some s }
    else { x with unshared := x.unshared ++ [s] } := by
  rw [mem_streams, not_or] at hs
  simp only [register, Bool.and_eq_true, Option.isNone_iff_eq_none, keep_of_not_mem x s hs.2]

theorem perm_register (hs : s ∉ x.streams) :
    (x.register s sharing).streams.Perm (s :: x.streams) := by
  rw [register_eq s sharing hs]
  split
  · rename_i h
    simp [streams, h.2]
  · simp only [streams, ← List.append_assoc]
    exact List.perm_append_singleton _ _

theorem perm_demote (h : x.streams.Nodup) : x.demote.streams.Perm x.streams :=
  (List.perm_ext_iff_of_nodup (nodup_demote x h) h).2 (mem_streams_demote x)

/-- The slot with all of a stream taken off; the others stay in their places. -/
def without (x : Slot) (s : StreamId) : Slot :=
  { x with shared := x.shared.filter (· ≠ s), unshared := x.unshared.filter (· ≠ s) }

theorem filter_shared (hs : x.shared ≠ some s) : x.shared.filter (· ≠ s) = x.shared := by
  cases h : x.shared with
  | none => rfl
  | some t =>
    have : t ≠ s := fun e => hs (e ▸ h)
    exact if_pos (decide_eq_true this)

theorem filter_unshared (hs : s ∉ x.unshared) : x.unshared.filter (· ≠ s) = x.unshared :=
  List.filter_eq_self.2 fun _ ht => decide_eq_true fun e => hs (e ▸ ht)

theorem filter_some_self : (some s).filter (fun t => decide (t ≠ s)) = none :=
  if_neg (by simp)

theorem deregister_eq_without (h : x.streams.Nodup) : x.deregister s = x.without s := by
  rw [nodup_streams] at h
  simp only [deregister, without]
  split
  · rename_i hs
    rw [hs, filter_some_self, filter_unshared s (h.1 s hs)]
  · rename_i hs
    rw [filter_shared s hs]

theorem without_register (hs : s ∉ x.streams) : (x.register s sharing).without s = x := by
  rw [register_eq s sharing hs]
  rw [mem_streams, not_or] at hs
  simp only [without]
  split
  · rename_i hn
    rw [filter_some_self, filter_unshared s hs.2, ← hn.2]
  · have alone : [s].filter (fun t => decide (t ≠ s)) = [] := List.filter_eq_nil_iff.2 (by simp)
    rw [filter_shared s hs.1, List.filter_append, filter_unshared s hs.2, alone, List.append_nil]

theorem deregister_register (h : x.streams.Nodup) (hs : s ∉ x.streams) :
    (x.register s sharing).deregister s = x := by
  rw [deregister_eq_without s (nodup_register x s sharing h hs), without_register s sharing hs]

end Slot

/-! ### Slots of a run -/

namespace System

variable {m : Move} {w w' : System} {b : BrokerId} {k : SourceKey}

/-- Every slot has come about by the changes that a slot allows. -/
def Orderly (w : System) : Prop := ∀ b k, (w.slot b k).Reachable

theorem Orderly.putSlot {x : Slot} (h : w.Orderly) (hx : x.Reachable) :
    (w.putSlot b k x).Orderly := by
  intro b' k'
  rw [slot_putSlot]
  split
  · exact hx
  · exact h b' k'

theorem Orderly.endOpen {c : CallId} {given : Option StreamId} (h : w.Orderly)
    (new : ∀ s ∈ given, ∀ b k, s ∉ (w.slot b k).streams) : (w.endOpen c k given).Orderly := by
  intro b' k'
  rw [slot_endOpen]
  split
  · have hu : ∀ x : Slot, x.Reachable →
        (if x.opening = some c then { x with opening := none } else x).Reachable := by
      intro x hx
      split
      · exact hx.alter (.mark none)
      · exact hx
    cases given with
    | none => exact hu _ (h b' k')
    | some s =>
      refine (hu _ (h b' k')).alter (.register s _ ?_)
      rw [streams_unmarked]
      exact new s rfl b' k'
  · exact h b' k'

theorem Orderly.of_slots (h : w.Orderly) (hs : ∀ b k, w'.slot b k = w.slot b k) : w'.Orderly :=
  fun b k => hs b k ▸ h b k

theorem Orderly.beginOpen {c : CallId} {a : Acquisition} {x : Slot} (h : w.Orderly)
    (hx : x.Reachable) : (w.beginOpen c a x).Orderly := by
  intro b k
  rw [slot_beginOpen]
  split
  · exact hx.alter (.mark (some c))
  · exact h b k

theorem Orderly.change (h : w.Orderly) (g : w.Custody) (hc : Change m w w') : w'.Orderly := by
  cases hc with
  | stay | make | letGo | drop | provide | reuse | miss | refuse | detach | go => exact h
  | begin => exact h.of_slots fun _ _ => slot_begin ..
  | work actor work held leads before after => exact h.of_slots work.frame.slot
  | demote place shared ended vacant => exact h.beginOpen ((h _ _).alter .demote)
  | demoteJoin place shared ended taken => exact h.putSlot ((h _ _).alter .demote)
  | «open» place shared vacant => exact h.beginOpen (h _ _)
  | @register w₁ c a s moves wait actor place work key connected inside =>
    have hs : s ∈ (w.phaseOf c).holds := by simp [place, Phase.holds]
    have h₁ : (w₁.setStream s fun x => { x with consumers := x.consumers + 1 }).Orderly :=
      h.of_slots work.frame.slot
    intro b k
    rw [slot_attach]
    refine h₁.endOpen (fun t ht b k hl => ?_) b k
    rw [slot_setStream, work.frame.slot, ← Option.some.inj ht] at hl
    exact g.unlisted hs b k hl
  | @giveUp w₁ c a s moves wait p actor place work exit =>
    have h₁ : (w₁.setPhase c p).Orderly := h.of_slots work.frame.slot
    exact h₁.endOpen (by rintro _ ⟨⟩)
  | last turn place there listed alone =>
    refine Orderly.putSlot (w := (w.setStanding _ _).setStream _ _) h ?_
    exact (h _ _).alter (.deregister _)
  | sweep turn place =>
    intro b k
    rw [slot_sweep]
    split
    · exact (h b k).alter .take
    · exact h b k

theorem orderly_fresh (configs : List BrokerConfig) (desk : AccessDesk) (terms : List TunerTerms) :
    (fresh configs desk terms).Orderly := fun b k => slot_fresh configs desk terms b k ▸ .empty

theorem Orderly.run (h : w.Orderly) (g : w.Sound) (moves : List Move) : (w.run moves).Orderly := by
  induction moves generalizing w with
  | nil => exact h
  | cons m moves ih =>
    refine ih ?_ (g.step m)
    obtain ⟨w₁, w₂, h₁, hc, h₂⟩ := step_books w m
    exact ((h.of_slots h₁.frame.slot).change (g.frame h₁.frame).custody hc).of_slots h₂.frame.slot

end System

/-! ### The result -/

/-- A slot that has come about in any way lists every stream once, and its tests agree with the list.
Registering a stream adds it and nothing else; deregistering one takes it away and leaves all others
where they are, so that it undoes a registration; demotion lists the same streams, none of them on offer;
taking all leaves none. None of these touches the mark. Every slot of every run has come about so. -/
theorem slot_lists_a_set :
    (∀ x : Slot, x.Reachable →
      x.streams.Nodup ∧
      (∀ s, x.isRegistered s ↔ s ∈ x.streams) ∧
      (∀ s sharing, s ∉ x.streams →
        (x.register s sharing).streams.Perm (s :: x.streams) ∧
        (x.register s sharing).opening = x.opening ∧ (x.register s sharing).deregister s = x) ∧
      (∀ s, x.deregister s = x.without s) ∧
      (x.demote.streams.Perm x.streams ∧ x.demote.shared = none ∧ x.demote.opening = x.opening) ∧
      (x.takeStreams.1 = x.streams ∧ x.takeStreams.2.streams = [] ∧
        x.takeStreams.2.opening = x.opening) ∧
      (x.hasStreams ↔ x.streams ≠ []) ∧ (x.isEmpty ↔ x.streams = [] ∧ x.opening = none)) ∧
    ∀ configs desk terms moves b k,
      (((System.fresh configs desk terms).run moves).slot b k).Reachable := by
  refine ⟨fun x h => ?_, fun configs desk terms moves => ?_⟩
  · refine ⟨h.nodup, x.isRegistered_iff, fun s sharing hs => ?_, fun s => ?_, ?_, ?_, x.hasStreams_iff,
      x.isEmpty_iff⟩
    · exact ⟨Slot.perm_register s sharing hs, x.opening_register s sharing,
        Slot.deregister_register s sharing h.nodup hs⟩
    · exact Slot.deregister_eq_without s h.nodup
    · exact ⟨Slot.perm_demote h.nodup, x.shared_demote, x.opening_demote⟩
    · exact ⟨rfl, rfl, rfl⟩
  · exact (System.orderly_fresh configs desk terms).run (System.sound_fresh configs desk terms) moves

/-- The stream on offer has ended and stands beside another; a third is listed in its place. -/
def Slot.afterReplacement : Slot :=
  ((((({} : Slot).register 0 true).register 1 true).demote).register 2 true)

theorem slot_lists_a_set_after_replacement :
    Slot.afterReplacement.Reachable ∧ Slot.afterReplacement.streams = [2, 1, 0] ∧
      Slot.afterReplacement.streams.Nodup ∧
      (Slot.afterReplacement.deregister 1).streams = [2, 0] ∧
      (Slot.afterReplacement.register 3 true).deregister 3 = Slot.afterReplacement := by
  have h : Slot.afterReplacement.Reachable :=
    (((Slot.Reachable.empty.alter (.register 0 true (by decide))).alter
      (.register 1 true (by decide))).alter .demote).alter (.register 2 true (by decide))
  have law := slot_lists_a_set.1 _ h
  exact ⟨h, rfl, law.1, rfl, (law.2.2.1 3 true (by decide)).2.2⟩

end TunerBroker
