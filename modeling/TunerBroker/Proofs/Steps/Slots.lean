import TunerBroker.Slot

/-! A slot as a set of streams: what each change of a slot does to the streams it lists, to the one on
offer and to the mark. -/

namespace TunerBroker

namespace Slot

variable (x : Slot) (s t : StreamId) (sharing : Bool)

theorem eq_empty_of_isEmpty {x : Slot} (h : x.isEmpty = true) : x = {} := by
  obtain ⟨shared, unshared, opening⟩ := x
  simp [isEmpty, hasStreams] at h
  simp [h.1, h.2]

@[simp] theorem opening_demote : x.demote.opening = x.opening := by
  simp only [demote, keep]
  split <;> try split
  all_goals rfl

@[simp] theorem shared_demote : x.demote.shared = none := by
  simp only [demote, keep]
  split
  · split <;> rfl
  · assumption

theorem mem_unshared_demote (s : StreamId) :
    s ∈ x.demote.unshared ↔ x.shared = some s ∨ s ∈ x.unshared := by
  simp only [demote, keep]
  split
  · rename_i t ht
    split
    · rename_i hc
      simp only [ht, Option.some.injEq]
      constructor
      · exact .inr
      · rintro (rfl | h)
        · simpa using hc
        · exact h
    · simp [ht, or_comm, eq_comm]
  · simp [*]

theorem mem_streams (s : StreamId) :
    s ∈ x.streams ↔ x.shared = some s ∨ s ∈ x.unshared := by
  simp [streams]

theorem isRegistered_iff (s : StreamId) :
    x.isRegistered s ↔ s ∈ x.streams := by
  simp [isRegistered, mem_streams]

theorem hasStreams_iff : x.hasStreams ↔ x.streams ≠ [] := by
  cases h : x.shared <;> simp [hasStreams, streams, h]

theorem isEmpty_iff : x.isEmpty ↔ x.streams = [] ∧ x.opening = none := by
  cases h : x.shared <;> simp [isEmpty, hasStreams, streams, h]

theorem mem_streams_demote (s : StreamId) :
    s ∈ x.demote.streams ↔ s ∈ x.streams := by
  simp [mem_streams, mem_unshared_demote]

theorem nodup_streams : x.streams.Nodup ↔ (∀ t ∈ x.shared, t ∉ x.unshared) ∧ x.unshared.Nodup := by
  cases h : x.shared <;> simp [streams, h]

/-! ### Listing a stream -/

theorem keep_of_not_mem (h : s ∉ x.unshared) :
    x.keep s = { x with unshared := x.unshared ++ [s] } := by
  simp [keep, h]

@[simp] theorem opening_register : (x.register s sharing).opening = x.opening := by
  simp only [register, keep]
  split <;> try split
  all_goals rfl

/-- A stream is put on offer if it may be shared and nothing else is. -/
theorem shared_register (h : x.shared = none) :
    (x.register s sharing).shared = if sharing then some s else none := by
  cases sharing
  · simp only [register, keep, Bool.false_and, Bool.false_eq_true, if_false]
    split <;> exact h
  · simp [register, h]

theorem mem_streams_register : t ∈ (x.register s sharing).streams ↔ t ∈ x.streams ∨ t = s := by
  simp only [register, keep]
  split
  · rename_i h
    rw [Bool.and_eq_true, Option.isNone_iff_eq_none] at h
    simp [mem_streams, h.2, or_comm, eq_comm]
  · split
    · rename_i h
      have : s ∈ x.unshared := by simpa using h
      simp only [mem_streams]
      constructor
      · exact .inl
      · rintro (h | rfl)
        · exact h
        · exact .inr this
    · simp [mem_streams, or_assoc]

theorem nodup_register (h : x.streams.Nodup) (hs : s ∉ x.streams) :
    (x.register s sharing).streams.Nodup := by
  rw [mem_streams, not_or] at hs
  rw [nodup_streams] at h ⊢
  simp only [register]
  split
  · rename_i hn
    rw [Bool.and_eq_true, Option.isNone_iff_eq_none] at hn
    simpa using ⟨hs.2, h.2⟩
  · rw [keep_of_not_mem _ _ hs.2]
    refine ⟨fun t ht => ?_, List.nodup_append.2 ⟨h.2, by simp, ?_⟩⟩
    · rintro hm
      rcases List.mem_append.1 hm with hm | hm
      · exact h.1 t ht hm
      · exact hs.1 (List.mem_singleton.1 hm ▸ ht)
    · rintro t ht u hu rfl
      exact hs.2 (List.mem_singleton.1 hu ▸ ht)

/-! ### Moving the shared stream off offer -/

theorem nodup_demote (h : x.streams.Nodup) : x.demote.streams.Nodup := by
  rw [nodup_streams] at h ⊢
  refine ⟨by simp, ?_⟩
  simp only [demote]
  split
  · rename_i t ht
    rw [keep_of_not_mem { x with shared := none } t (h.1 t ht)]
    refine List.nodup_append.2 ⟨h.2, by simp, ?_⟩
    rintro u hu v hv rfl
    exact h.1 t ht (List.mem_singleton.1 hv ▸ hu)
  · exact h.2

/-! ### Taking a stream off the list -/

@[simp] theorem opening_deregister : (x.deregister s).opening = x.opening := by
  simp only [deregister]
  split <;> rfl

theorem mem_of_mem_deregister (h : t ∈ (x.deregister s).streams) : t ∈ x.streams := by
  simp only [deregister] at h
  split at h
  · exact (mem_streams _ _).2 (.inr (by simpa [streams] using h))
  · rcases (mem_streams _ _).1 h with h | h
    · exact (mem_streams _ _).2 (.inl h)
    · exact (mem_streams _ _).2 (.inr (List.mem_filter.1 h).1)

theorem streams_deregister (h : x.streams.Nodup) :
    (x.deregister s).streams = x.streams.filter (· ≠ s) := by
  rw [nodup_streams] at h
  simp only [deregister]
  split
  · rename_i hs
    have hn : ∀ t ∈ x.unshared, decide (t ≠ s) = true := fun t ht =>
      decide_eq_true fun hts => h.1 s hs (hts ▸ ht)
    simp only [streams, hs, Option.toList_some, Option.toList_none, List.nil_append,
      List.singleton_append, List.filter_cons, ne_eq, not_true, decide_false, Bool.false_eq_true,
      if_false]
    exact (List.filter_eq_self.2 hn).symm
  · rename_i hs
    cases hx : x.shared with
    | none => simp [streams, hx]
    | some u =>
      have : u ≠ s := fun e => hs (e ▸ hx)
      simp [streams, hx, this]

/-! ### Listing no more -/

/-- A slot lists no stream that another does not, and none more often. -/
structure Within (x y : Slot) : Prop where
  subset : x.streams ⊆ y.streams
  nodup : y.streams.Nodup → x.streams.Nodup

variable {x}

theorem Within.of_eq {y : Slot} (h : x.streams = y.streams) : x.Within y :=
  ⟨fun _ ht => h ▸ ht, fun hn => h ▸ hn⟩

theorem Within.refl (x : Slot) : x.Within x := .of_eq rfl

theorem within_demote : x.demote.Within x := ⟨fun _ ht => (mem_streams_demote _ _).1 ht, nodup_demote x⟩

theorem within_deregister : (x.deregister s).Within x := by
  refine ⟨fun _ => mem_of_mem_deregister x s _, fun hn => ?_⟩
  rw [streams_deregister _ _ hn]
  exact hn.filter _

end Slot

end TunerBroker
