/-! Finite maps as lists of pairs in the order their keys were first put in. No key occurs twice. -/

namespace TunerBroker

/-- A finite map from `κ` to `α`. -/
structure Keyed (κ α : Type) where
  pairs : List (κ × α) := []
  /-- No key occurs twice. -/
  distinct : (pairs.map (·.1)).Nodup := by exact List.nodup_nil

namespace Keyed

variable {κ α β : Type}

def keys (m : Keyed κ α) : List κ := m.pairs.map (·.1)

def values (m : Keyed κ α) : List α := m.pairs.map (·.2)

/-- Changes each value, or takes it out with its key. -/
def filterMap (m : Keyed κ α) (f : α → Option β) : Keyed κ β where
  pairs := m.pairs.filterMap fun p => (f p.2).map (p.1, ·)
  distinct := by
    refine List.Nodup.sublist ?_ m.distinct
    induction m.pairs with
    | nil => exact List.Sublist.refl _
    | cons p ps ih => cases h : f p.2 <;> simp [h, ih]

variable [DecidableEq κ]

def get? (m : Keyed κ α) (k : κ) : Option α :=
  (m.pairs.find? fun p => p.1 = k).map (·.2)

def contains (m : Keyed κ α) (k : κ) : Bool := (m.get? k).isSome

/-- Replaces the value of a key that is there, in its place, and adds one that is not at the end. -/
def putList (k : κ) (a : α) : List (κ × α) → List (κ × α)
  | [] => [(k, a)]
  | p :: ps => if p.1 = k then (k, a) :: ps else p :: putList k a ps

theorem map_fst_putList (k : κ) (a : α) (l : List (κ × α)) :
    (putList k a l).map (·.1) =
      if k ∈ l.map (·.1) then l.map (·.1) else l.map (·.1) ++ [k] := by
  induction l with
  | nil => simp [putList]
  | cons p ps ih =>
    by_cases h : p.1 = k
    · simp [putList, h]
    · have h' : ¬ k = p.1 := fun e => h e.symm
      simp only [putList, h, if_false, List.map_cons, ih, List.mem_cons, h', false_or]
      split <;> simp

def put (m : Keyed κ α) (k : κ) (a : α) : Keyed κ α where
  pairs := putList k a m.pairs
  distinct := by
    rw [map_fst_putList]
    split
    · exact m.distinct
    · rename_i h
      refine List.nodup_append.2 ⟨m.distinct, by simp, ?_⟩
      rintro x hx y hy rfl
      exact h (List.mem_singleton.1 hy ▸ hx)

def erase (m : Keyed κ α) (k : κ) : Keyed κ α where
  pairs := m.pairs.filter fun p => p.1 ≠ k
  distinct := m.distinct.sublist (List.filter_sublist.map _)

theorem mem_pairs (m : Keyed κ α) (k : κ) (a : α) : (k, a) ∈ m.pairs ↔ m.get? k = some a := by
  obtain ⟨l, h⟩ := m
  simp only [get?]
  induction l with
  | nil => simp
  | cons p ps ih =>
    obtain ⟨k', a'⟩ := p
    simp only [List.map_cons, List.nodup_cons] at h
    by_cases hk : k' = k
    · subst hk
      have hn : ∀ b, (k', b) ∉ ps := fun b hb => h.1 (List.mem_map.2 ⟨_, hb, rfl⟩)
      simp [hn, eq_comm]
    · have hk' : ¬ k = k' := fun e => hk e.symm
      simp [hk, hk', ih h.2]

theorem mem_values (m : Keyed κ α) (a : α) : a ∈ m.values ↔ ∃ k, m.get? k = some a := by
  simp [values, ← mem_pairs]

theorem find?_putList (k k' : κ) (a : α) (l : List (κ × α)) :
    (putList k a l).find? (fun p => p.1 = k') =
      if k' = k then some (k, a) else l.find? fun p => p.1 = k' := by
  induction l with
  | nil => by_cases h : k = k' <;> simp [putList, eq_comm (a := k'), h]
  | cons p ps ih =>
    by_cases h : p.1 = k
    · subst h
      simp only [putList, if_true, List.find?_cons, eq_comm (a := k')]
      by_cases h' : p.1 = k' <;> simp [h']
    · simp only [putList, h, if_false, List.find?_cons, ih]
      by_cases h' : k' = k
      · subst h'
        simp [h]
      · simp [h']

@[simp] theorem get?_put (m : Keyed κ α) (k k' : κ) (a : α) :
    (m.put k a).get? k' = if k' = k then some a else m.get? k' := by
  simp only [get?, put, find?_putList]
  split <;> rfl

@[simp] theorem get?_erase (m : Keyed κ α) (k k' : κ) :
    (m.erase k).get? k' = if k' = k then none else m.get? k' := by
  ext a
  rw [← mem_pairs]
  by_cases h : k' = k <;> simp [erase, h, mem_pairs]

@[simp] theorem get?_filterMap (m : Keyed κ α) (f : α → Option β) (k : κ) :
    (m.filterMap f).get? k = (m.get? k).bind f := by
  ext b
  rw [← mem_pairs]
  simp only [filterMap, List.mem_filterMap, Option.map_eq_some_iff, Prod.mk.injEq, Prod.exists,
    Option.bind_eq_some_iff]
  constructor
  · rintro ⟨k', a, hm, b', hb, rfl, rfl⟩
    exact ⟨a, (mem_pairs m k' a).1 hm, hb⟩
  · rintro ⟨a, ha, hb⟩
    exact ⟨k, a, (mem_pairs m k a).2 ha, b, hb, rfl, rfl⟩

theorem put_put (m : Keyed κ α) (k : κ) (a b : α) : (m.put k a).put k b = m.put k b := by
  simp only [put, mk.injEq]
  induction m.pairs with
  | nil => simp [putList]
  | cons p ps ih => by_cases h : p.1 = k <;> simp [putList, h, ih]

end Keyed

end TunerBroker
