import Mathlib.Algebra.Ring.Nat
import Mathlib.Data.List.Perm.Subperm
import Mathlib.Data.List.Range

/-! Counting in lists: the entries of a table that is changed in one place, and the results of calls
of which one more has come to its end. -/

namespace TunerBroker

open scoped List

variable {α β : Type}

/-- A list without repetition holds at most once what can only be `a`. -/
theorem countP_le_one {l : List α} {p : α → Bool} (hn : l.Nodup) (a : α)
    (h : ∀ x ∈ l, p x → x = a) : l.countP p ≤ 1 := by
  rw [List.countP_eq_length_filter]
  have hs : l.filter p ⊆ [a] := fun x hx => by
    obtain ⟨hx, hp⟩ := List.mem_filter.1 hx
    exact List.mem_singleton.2 (h x hx hp)
  exact (List.subperm_of_subset (hn.filter _) hs).length_le

/-- Two places of a list that count are counted as two. -/
theorem two_le_countP {l : List α} {p : α → Bool} {i j : Nat} {x y : α} (hi : l[i]? = some x)
    (hj : l[j]? = some y) (hij : i < j) (hx : p x) (hy : p y) : 2 ≤ l.countP p := by
  obtain ⟨hj, rfl⟩ := List.getElem?_eq_some_iff.1 hj
  have later : l[j] ∈ l.drop (i + 1) := List.mem_drop_iff_getElem.2 ⟨j - (i + 1), by omega, by grind⟩
  have one : 0 < (l.drop (i + 1)).countP p := List.countP_pos_iff.2 ⟨_, later, hy⟩
  obtain ⟨lt, rfl⟩ := List.getElem?_eq_some_iff.1 hi
  have sub : (l.drop i).countP p ≤ l.countP p := (List.drop_sublist i l).countP_le
  rw [List.drop_eq_getElem_cons lt, List.countP_cons_of_pos hx] at sub
  omega

theorem countP_modify (p : α → Bool) (f : α → α) {l : List α} {i : Nat} {x : α}
    (h : l[i]? = some x) : (l.modify i f).countP p + (if p x then 1 else 0) =
      l.countP p + if p (f x) then 1 else 0 := by
  induction l generalizing i with
  | nil => simp at h
  | cons y l ih =>
    cases i with
    | zero =>
      obtain rfl : y = x := by simpa using h
      simp only [List.modify_zero_cons, List.countP_cons]
      omega
    | succ i =>
      have := ih (i := i) (by simpa using h)
      simp only [List.modify_succ_cons, List.countP_cons]
      omega

/-- One more result among those of a list comes to the front. -/
theorem filterMap_perm_cons [DecidableEq α] {l : List α} (hl : l.Nodup) {a : α} (ha : a ∈ l)
    {f g : α → Option β} {b : β} (hf : f a = none) (hg : g a = some b)
    (hfg : ∀ x ∈ l, x ≠ a → g x = f x) : l.filterMap g ~ b :: l.filterMap f := by
  have rest : ∀ x ∈ l.erase a, g x = f x := fun x hx => by
    obtain ⟨hne, hx⟩ := (hl.mem_erase_iff).1 hx
    exact hfg x hx hne
  have cut : ∀ h : α → Option β, l.filterMap h ~ (a :: l.erase a).filterMap h := fun h =>
    (List.perm_cons_erase ha).filterMap h
  calc
    l.filterMap g ~ (a :: l.erase a).filterMap g := cut g
    _ = b :: (l.erase a).filterMap g := by simp [hg]
    _ = b :: (l.erase a).filterMap f := by rw [List.filterMap_congr rest]
    _ = b :: (a :: l.erase a).filterMap f := by simp [hf]
    _ ~ b :: l.filterMap f := (cut f).symm.cons b

/-- Counting over the positions of a list is counting in the list. -/
theorem countP_range_getElem? (p : α → Bool) (l : List α) :
    (List.range l.length).countP (fun i => l[i]?.any p) = l.countP p := by
  induction l using List.reverseRecOn with
  | nil => rfl
  | append_singleton l x ih =>
    have old : (List.range l.length).countP (fun i => (l ++ [x])[i]?.any p) =
        (List.range l.length).countP fun i => l[i]?.any p :=
      List.countP_congr fun i hi => by
        rw [List.getElem?_append_left (List.mem_range.1 hi)]
    rw [List.length_append, List.length_singleton, List.range_succ, List.countP_append, old, ih]
    simp [List.countP_append]

/-- What is counted in two parts is counted as a whole. -/
theorem countP_add_le {p q r : α → Bool} {l : List α} (hp : ∀ x ∈ l, p x → r x ∧ q x = false)
    (hq : ∀ x ∈ l, q x → r x) : l.countP p + l.countP q ≤ l.countP r := by
  induction l with
  | nil => simp
  | cons x l ih =>
    have ih := ih (fun y hy => hp y (List.mem_cons_of_mem x hy))
      fun y hy => hq y (List.mem_cons_of_mem x hy)
    have hp := hp x List.mem_cons_self
    have hq := hq x List.mem_cons_self
    simp only [List.countP_cons]
    cases h₁ : p x <;> cases h₂ : q x <;> cases h₃ : r x <;> simp_all <;> omega

/-- What is counted under different values is counted at most once. -/
theorem sum_countP_le [DecidableEq β] {l : List β} (hl : l.Nodup) (f : α → β) (p q : α → Bool)
    (E : List α) (hq : ∀ x ∈ E, f x ∈ l → p x → q x) :
    (l.map fun b => E.countP fun x => f x = b ∧ p x).sum ≤ E.countP q := by
  induction l generalizing q with
  | nil => simp
  | cons b l ih =>
    obtain ⟨hb, hl⟩ := List.nodup_cons.1 hl
    have rest := ih hl (fun x => q x && decide (f x ≠ b)) fun x hx hm hpx => by
      have hne : f x ≠ b := fun e => hb (e ▸ hm)
      simp [hq x hx (List.mem_cons_of_mem b hm) hpx, hne]
    have parts : (E.countP fun x => f x = b ∧ p x) + (E.countP fun x => q x && decide (f x ≠ b)) ≤
        E.countP q := by
      refine countP_add_le (fun x hx hpx => ?_) fun x _ hqx => ?_
      · obtain ⟨he, hpx⟩ := of_decide_eq_true hpx
        exact ⟨hq x hx (he ▸ List.mem_cons_self) hpx, by simp [he]⟩
      · exact (Bool.and_eq_true _ _ ▸ hqx).1
    rw [List.map_cons, List.sum_cons]
    omega

/-- A sum of words that fits into a word is their sum. -/
theorem toNat_foldl_add (l : List UInt32) (a : UInt32)
    (h : a.toNat + (l.map UInt32.toNat).sum < 2 ^ 32) :
    (l.foldl (· + ·) a).toNat = a.toNat + (l.map UInt32.toNat).sum := by
  induction l generalizing a with
  | nil => simp
  | cons x l ih =>
    rw [List.map_cons, List.sum_cons] at h ⊢
    have hx : (a + x).toNat = a.toNat + x.toNat := by
      rw [UInt32.toNat_add]
      omega
    rw [List.foldl_cons, ih (a + x) (by omega)]
    omega

end TunerBroker
