/-! Tables that only grow: an entry is known by its position for good, and may change but never
leaves. -/

namespace TunerBroker

structure Table (α : Type) where
  entries : List α := []

namespace Table

variable {α : Type}

def size (t : Table α) : Nat := t.entries.length

def get? (t : Table α) (i : Nat) : Option α := t.entries[i]?

/-- Adds an entry; its position is the old size. -/
def add (t : Table α) (a : α) : Table α := ⟨t.entries ++ [a]⟩

def update (t : Table α) (i : Nat) (f : α → α) : Table α := ⟨t.entries.modify i f⟩

def indexed (t : Table α) : List (α × Nat) := t.entries.zipIdx

@[simp] theorem size_add (t : Table α) (a : α) : (t.add a).size = t.size + 1 := by
  simp [size, add]

@[simp] theorem size_update (t : Table α) (i : Nat) (f : α → α) : (t.update i f).size = t.size := by
  simp [size, update]

theorem get?_add (t : Table α) (a : α) (i : Nat) :
    (t.add a).get? i = if i = t.size then some a else t.get? i := by
  rcases Nat.lt_trichotomy i t.entries.length with h | h | h
  · simp [get?, add, size, List.getElem?_append_left h, Nat.ne_of_lt h]
  · simp [get?, add, size, h]
  · have hn : t.entries.length + 1 ≤ i := h
    rw [size, if_neg (Nat.ne_of_gt h), get?, get?, add, List.getElem?_eq_none (by simpa using hn),
      List.getElem?_eq_none (Nat.le_of_lt h)]

theorem get?_update (t : Table α) (i j : Nat) (f : α → α) :
    (t.update i f).get? j = if j = i then (t.get? j).map f else t.get? j := by
  simp only [get?, update, List.getElem?_modify, eq_comm (a := i)]
  split <;> simp

theorem get?_eq_none_iff (t : Table α) (i : Nat) : t.get? i = none ↔ t.size ≤ i :=
  List.getElem?_eq_none_iff

theorem lt_size_of_get? {t : Table α} {i : Nat} {a : α} (h : t.get? i = some a) : i < t.size := by
  rcases Nat.lt_or_ge i t.size with hi | hi
  · exact hi
  · rw [(get?_eq_none_iff t i).2 hi] at h
    cases h

theorem get?_of_lt_size {t : Table α} {i : Nat} (h : i < t.size) : ∃ a, t.get? i = some a :=
  ⟨_, List.getElem?_eq_getElem h⟩

theorem mem_entries_iff (t : Table α) (a : α) : a ∈ t.entries ↔ ∃ i, t.get? i = some a :=
  List.mem_iff_getElem?

end Table

end TunerBroker
