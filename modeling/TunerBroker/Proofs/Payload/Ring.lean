import Mathlib.Data.Nat.ModEq
import TunerBroker.Fanout

/-! The ring against the history. The history is the list of all chunks ever sent; the ring keeps its
end, and a reader is given what the history has at its number as long as that is kept. -/

namespace TunerBroker

/-! ### The size of a ring -/

theorem powerAbove_pos (n : Nat) : 0 < powerAbove n := by
  unfold powerAbove
  split
  · exact Nat.one_pos
  · rw [Nat.one_shiftLeft]
    exact Nat.two_pow_pos _

/-- The size of a ring is the least power of two that is not below the capacity. -/
theorem powerAbove_spec (n : Nat) :
    (∃ e, powerAbove n = 2 ^ e) ∧ n ≤ powerAbove n ∧ ∀ e, n ≤ 2 ^ e → powerAbove n ≤ 2 ^ e := by
  unfold powerAbove
  split
  · rename_i small
    exact ⟨⟨0, rfl⟩, small, fun e _ => Nat.one_le_two_pow⟩
  · rename_i large
    have above : n - 1 < 2 ^ ((n - 1).log2 + 1) := Nat.lt_log2_self
    rw [Nat.one_shiftLeft]
    refine ⟨⟨_, rfl⟩, by omega, fun e he => Nat.pow_le_pow_right Nat.two_pos ?_⟩
    have below : (n - 1).log2 < e := (Nat.log2_lt (by omega)).2 (by omega)
    exact below

namespace Fanout

variable {α : Type} {f : Fanout α} {history : List α} {a : α} {n : Nat}

/-- The chunks sent are these, and the ring keeps the last of them, each at its number modulo the
size. -/
structure Holds (f : Fanout α) (history : List α) : Prop where
  sent : f.sent = history.length
  size : 0 < f.size
  length : f.ring.size = min history.length f.size
  kept : ∀ n < history.length, f.oldest ≤ n → f.ring[n % f.size]? = history[n]?

theorem holds_ofCapacity (capacity : Nat) : (ofCapacity capacity : Fanout α).Holds [] where
  sent := rfl
  size := powerAbove_pos capacity
  length := (Nat.zero_min _).symm
  kept _ hn := absurd hn (Nat.not_lt_zero _)

/-- Two numbers less than a turn apart are at different places of the ring. -/
theorem mod_ne_of_near {size n k : Nat} (lt : n < k) (near : k < n + size) :
    n % size ≠ k % size := by
  intro same
  have le : size ∣ k - n := (Nat.modEq_iff_dvd' lt.le).1 same
  exact absurd (Nat.le_of_dvd (by omega) le) (by omega)

namespace Holds

/-- A ring with room takes the next chunk at its end. -/
theorem push_room (h : f.Holds history) (room : f.ring.size < f.size) :
    (f.push a).Holds (history ++ [a]) := by
  have length := h.length
  have few : history.length < f.size := by omega
  have ring : (f.push a).ring = f.ring.push a := if_pos room
  refine ⟨?_, h.size, ?_, fun n hn old => ?_⟩
  · simp [push, h.sent]
  · rw [ring, Array.size_push, List.length_append]
    show _ = min (history.length + 1) f.size
    omega
  · rw [List.length_append, List.length_singleton] at hn
    show (f.push a).ring[n % f.size]? = _
    rw [ring, Nat.mod_eq_of_lt (by omega), Array.getElem?_push]
    rcases Nat.lt_or_eq_of_le (Nat.le_of_lt_succ hn) with lt | rfl
    · have kept := h.kept n lt (by simp only [oldest, h.sent]; omega)
      rw [Nat.mod_eq_of_lt (by omega)] at kept
      rw [if_neg (by omega), kept, List.getElem?_append_left lt]
    · rw [if_pos (by omega), List.getElem?_concat_length]

/-- In a full ring the next chunk takes the place of the oldest. -/
theorem push_full (h : f.Holds history) (full : ¬ f.ring.size < f.size) :
    (f.push a).Holds (history ++ [a]) := by
  have length := h.length
  have size := h.size
  have many : f.size ≤ history.length := by omega
  have ring : (f.push a).ring = f.ring.setIfInBounds (history.length % f.size) a := by
    rw [← h.sent]
    exact if_neg full
  refine ⟨?_, h.size, ?_, fun n hn old => ?_⟩
  · simp [push, h.sent]
  · rw [ring, Array.size_setIfInBounds, List.length_append]
    show _ = min (history.length + 1) f.size
    omega
  · rw [List.length_append, List.length_singleton] at hn
    have recent : history.length + 1 - f.size ≤ n := by
      have sent : (f.push a).oldest = history.length + 1 - f.size := by
        simp [oldest, push, h.sent]
      exact sent ▸ old
    show (f.push a).ring[n % f.size]? = _
    rw [ring, Array.getElem?_setIfInBounds]
    rcases Nat.lt_or_eq_of_le (Nat.le_of_lt_succ hn) with lt | rfl
    · rw [if_neg (mod_ne_of_near lt (by omega)).symm, h.kept n lt (by simp only [oldest, h.sent]; omega),
        List.getElem?_append_left lt]
    · have inside : history.length % f.size < f.ring.size := by
        have := Nat.mod_lt history.length size
        omega
      rw [if_pos rfl, if_pos inside, List.getElem?_concat_length]

theorem push (h : f.Holds history) (a : α) : (f.push a).Holds (history ++ [a]) := by
  by_cases room : f.ring.size < f.size
  · exact h.push_room room
  · exact h.push_full room

theorem oldest_eq (h : f.Holds history) : f.oldest = history.length - f.size := by
  rw [oldest, h.sent]

/-- What a reader at a number is given: it has lost the chunks that are no longer kept; else it gets what
the history has there. -/
theorem receive_eq (h : f.Holds history) (n : Nat) : f.receive n =
    if n < history.length - f.size then .lagged (history.length - f.size - n)
    else match history[n]? with
      | some a => .chunk a
      | none => .nothing := by
  rw [receive, h.oldest_eq]
  split
  · rfl
  · rename_i kept
    have same : f.get? n = history[n]? := by
      rw [get?, h.sent, h.oldest_eq]
      split
      · rename_i sent
        exact h.kept n sent.1 (h.oldest_eq ▸ sent.2)
      · rename_i unsent
        exact (List.getElem?_eq_none (by omega)).symm
    cases hn : history[n]? with
    | none => rw [same, hn]
    | some a => rw [same, hn]

/-- A reader that has lost nothing is given the chunk of its number. -/
theorem receive_kept (h : f.Holds history) (old : history.length - f.size ≤ n)
    (hn : n < history.length) : f.receive n = .chunk history[n] := by
  rw [h.receive_eq, if_neg (Nat.not_lt.2 old), List.getElem?_eq_getElem hn]

/-- A reader that has had everything is given nothing. -/
theorem receive_drained (h : f.Holds history) (hn : history.length ≤ n) :
    f.receive n = .nothing := by
  rw [h.receive_eq, if_neg (by omega), List.getElem?_eq_none hn]

end Holds

end Fanout

end TunerBroker
