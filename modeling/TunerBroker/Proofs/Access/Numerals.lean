import Mathlib.Tactic.IntervalCases
import TunerBroker.Text.Numeral

/-! Numerals are read back: the shortest numeral of a number, followed by anything but a digit, is taken
off the front of a text as the digits of that number. -/

namespace TunerBroker.Text

variable {base width n d : Nat} {ds : List Nat} {c : Char} {rest : List Char}

/-- The text does not go on with a digit. -/
def Ends (base : Nat) (rest : List Char) : Prop := ∀ c ∈ rest.head?, digitValue? base c = none

theorem ends_nil : Ends base [] := nofun

/-! ### One digit -/

theorem digitValue_digitChar (small : base ≤ 16) (hd : d < base) :
    digitValue? base (digitChar d) = some d := by
  have value : (if '0' ≤ digitChar d ∧ digitChar d ≤ '9' then (digitChar d).toNat - '0'.toNat
      else if 'a' ≤ digitChar d ∧ digitChar d ≤ 'f' then (digitChar d).toNat - 'a'.toNat + 10
      else if 'A' ≤ digitChar d ∧ digitChar d ≤ 'F' then (digitChar d).toNat - 'A'.toNat + 10
      else base) = d := by
    have : d < 16 := hd.trans_le small
    interval_cases d <;> rfl
  simp only [digitValue?, value, hd, if_true]

/-- What is no digit in base sixteen is none in base ten. -/
theorem Ends.decimal (ends : Ends 16 rest) : Ends 10 rest := by
  intro c hc
  have none := ends c hc
  simp only [digitValue?] at none ⊢
  split_ifs at none ⊢ <;> first | rfl | omega

theorem digitChar_toLower (hd : d < 16) : (digitChar d).toLower = digitChar d := by
  interval_cases d <;> rfl

/-! ### Digits of a number -/

theorem digits_length (base width n : Nat) : (digits base width n).length = width := by
  induction width generalizing n with
  | zero => rfl
  | succ width ih => simp [digits, ih]

theorem digits_lt (pos : 0 < base) (h : d ∈ digits base width n) : d < base := by
  induction width generalizing n with
  | zero => cases h
  | succ width ih =>
    rcases List.mem_append.mp h with h | h
    · exact ih h
    · rw [List.mem_singleton.mp h]
      exact Nat.mod_lt _ pos

theorem ofDigits_append (base : Nat) (ds : List Nat) (d : Nat) :
    ofDigits base (ds ++ [d]) = ofDigits base ds * base + d := by
  simp [ofDigits]

theorem ofDigits_digits (h : n < base ^ width) : ofDigits base (digits base width n) = n := by
  induction width generalizing n with
  | zero => simp at h; simp [h, digits, ofDigits]
  | succ width ih =>
    have fits : n / base < base ^ width := Nat.div_lt_of_lt_mul (by rwa [Nat.pow_succ'] at h)
    rw [digits, ofDigits_append, ih fits, Nat.mul_comm, Nat.div_add_mod]

/-! ### The shortest numeral -/

theorem ofDigits_trimZeros (base : Nat) (ds : List Nat) :
    ofDigits base (trimZeros ds) = ofDigits base ds := by
  fun_induction trimZeros ds with
  | case1 d ds ih => simpa [ofDigits] using ih
  | case2 => rfl

theorem trimZeros_sublist (ds : List Nat) : (trimZeros ds).Sublist ds := by
  fun_induction trimZeros ds with
  | case1 d ds ih => exact ih.trans (List.sublist_cons_self ..)
  | case2 => exact .refl _

theorem trimZeros_ne_nil (h : ds ≠ []) : trimZeros ds ≠ [] := by
  fun_induction trimZeros ds with
  | case1 d ds ih => exact ih (by simp)
  | case2 => exact h

/-- A leading zero is the only digit. -/
theorem trimZeros_head (h : (trimZeros ds).head? = some 0) : (trimZeros ds).length = 1 := by
  fun_induction trimZeros ds with
  | case1 d ds ih => exact ih h
  | case2 ds long =>
    match ds, long with
    | [d], _ => rfl
    | 0 :: d :: ds, long => exact absurd rfl (long d ds)
    | (d + 1) :: _, _ => cases h

/-- The shortest digits of a number that fits. -/
theorem trimmed_lt (pos : 0 < base) (h : d ∈ trimZeros (digits base width n)) : d < base :=
  digits_lt pos ((trimZeros_sublist _).subset h)

theorem trimmed_length : (trimZeros (digits base width n)).length ≤ width :=
  (trimZeros_sublist _).length_le.trans_eq (digits_length ..)

theorem trimmed_ne_nil (pos : 0 < width) : trimZeros (digits base width n) ≠ [] :=
  trimZeros_ne_nil fun h => by
    rw [← List.length_eq_zero_iff, digits_length] at h
    omega

theorem ofDigits_trimmed (h : n < base ^ width) :
    ofDigits base (trimZeros (digits base width n)) = n := by
  rw [ofDigits_trimZeros, ofDigits_digits h]

/-! ### Reading -/

theorem takeDigits_of_ends (ends : Ends base rest) : takeDigits base rest = ([], rest) := by
  cases rest with
  | nil => rfl
  | cons c rest => simp [takeDigits, ends c rfl]

theorem takeDigits_append (small : base ≤ 16) (ends : Ends base rest) (h : ∀ d ∈ ds, d < base) :
    takeDigits base (ds.map digitChar ++ rest) = (ds, rest) := by
  induction ds with
  | nil => exact takeDigits_of_ends ends
  | cons d ds ih =>
    obtain ⟨hd, hds⟩ := List.forall_mem_cons.mp h
    simp [takeDigits, digitValue_digitChar small hd, ih hds]

/-- A numeral is taken off the front of a text as a whole. -/
theorem takeDigits_numeral (pos : 0 < base) (small : base ≤ 16) (ends : Ends base rest) :
    takeDigits base (numeral base width n ++ rest) = (trimZeros (digits base width n), rest) :=
  takeDigits_append small ends fun _ => trimmed_lt pos

/-- A numeral has only digits of its base in it. -/
theorem mem_numeral (pos : 0 < base) (small : base ≤ 16) (h : c ∈ numeral base width n) :
    (digitValue? base c).isSome ∧ c.toLower = c := by
  obtain ⟨d, hd, rfl⟩ := List.mem_map.mp h
  have lt := trimmed_lt pos hd
  exact ⟨by simp [digitValue_digitChar small lt], digitChar_toLower (lt.trans_le small)⟩

end TunerBroker.Text
