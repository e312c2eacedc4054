import TunerBroker.Proofs.Steps.Hush

/-! What others learn of a call. A move takes at most one call to another place, counts on the broker of
that call, and lets the call announce how its open came out; all other work goes on unheard. -/

namespace TunerBroker

namespace Counters

/-- Counts several ticks. -/
def recordAll (x : Counters) (ticks : List Tick) : Counters := ticks.foldl record x

@[simp] theorem recordAll_nil (x : Counters) : x.recordAll [] = x := rfl

theorem recordAll_concat (x : Counters) (ticks : List Tick) (t : Tick) :
    x.recordAll (ticks ++ [t]) = (x.recordAll ticks).record t := by
  simp [recordAll]

end Counters

namespace System

/-- From `w` to `w'` the call comes to `p`, its broker counts the ticks, and the call announces `x` if
that is anything. No other call moves or announces, and no other broker counts. -/
structure Advance (c : CallId) (p : Phase) (ticks : List Tick) (x : Option Announcement)
    (w w' : System) : Prop where
  phaseOf : ∀ d, w'.phaseOf d = if d = c then p else w.phaseOf d
  brokerOf : ∀ d, w'.brokerOf d = w.brokerOf d
  calls : w'.calls.size = w.calls.size
  brokers : w'.brokers.size = w.brokers.size
  counters : ∀ b, w'.countersOf b =
    if b = w.brokerOf c ∧ b < w.brokers.size then (w.countersOf b).recordAll ticks
    else w.countersOf b
  announced : ∀ d, w'.announcedBy d = if d = c then x.or (w.announcedBy d) else w.announcedBy d
  fired : w.fired ⊆ w'.fired

variable {w w' w'' : System} {b : BrokerId} {k : SourceKey} {c d : CallId} {s : StreamId}
  {p q : Phase} {ticks : List Tick} {x : Option Announcement}

/-! ### Small changes -/

theorem countersOf_record (t : Tick) (b' : BrokerId) : (w.record b t).countersOf b' =
    if b' = b ∧ b < w.brokers.size then (w.countersOf b').record t else w.countersOf b' := by
  simp only [countersOf, broker, record, Table.get?_update]
  by_cases hb : b' = b
  · subst hb
    cases hg : w.brokers.get? b' with
    | none => simp [Nat.not_lt.2 ((Table.get?_eq_none_iff _ _).1 hg)]
    | some y => simp [Table.lt_size_of_get? hg]
  · simp [hb]

@[simp] theorem announcedBy_setPhase : (w.setPhase c p).announcedBy d = w.announcedBy d := by
  simp only [announcedBy, setPhase, Table.get?_update]
  split
  · cases w.calls.get? d <;> rfl
  · rfl

theorem announcedBy_announce (y : Announcement) : (w.announce c y).announcedBy d =
    if d = c ∧ c < w.calls.size then some y else w.announcedBy d := by
  simp only [announcedBy, announce, Table.get?_update]
  by_cases hd : d = c
  · subst hd
    cases hg : w.calls.get? d with
    | none => simp [Nat.not_lt.2 ((Table.get?_eq_none_iff _ _).1 hg)]
    | some x => simp [Table.lt_size_of_get? hg]
  · simp [hd]

/-! ### A call goes on -/

namespace Advance

/-- As long as nobody is heard, each call stays where it is. -/
theorem of_hushed (h : Hushed w w') (c : CallId) : Advance c (w.phaseOf c) [] none w w' where
  phaseOf d := by
    rw [h.phaseOf]
    split
    · rename_i hd
      rw [hd]
    · rfl
  brokerOf := h.brokerOf
  calls := h.calls
  brokers := h.brokers
  counters b := by
    rw [h.counters, Counters.recordAll_nil, ite_self]
  announced d := by
    rw [h.announced, Option.none_or, ite_self]
  fired := h.fired

variable (h : Advance c p ticks x w w')

include h

/-- The ticks of a call that has a broker are counted there. -/
theorem counted (seated : w.brokerOf c < w.brokers.size) (b : BrokerId) : w'.countersOf b =
    if b = w.brokerOf c then (w.countersOf b).recordAll ticks else w.countersOf b := by
  rw [h.counters]
  by_cases hb : b = w.brokerOf c
  · rw [if_pos ⟨hb, hb ▸ seated⟩, if_pos hb]
  · rw [if_neg fun he => hb he.1, if_neg hb]

theorem hush (g : Hushed w' w'') : Advance c p ticks x w w'' where
  phaseOf d := (g.phaseOf d).trans (h.phaseOf d)
  brokerOf d := (g.brokerOf d).trans (h.brokerOf d)
  calls := g.calls.trans h.calls
  brokers := g.brokers.trans h.brokers
  counters b := (g.counters b).trans (h.counters b)
  announced d := (g.announced d).trans (h.announced d)
  fired _ ht := g.fired (h.fired ht)

theorem note (o : Option CallId) (e : Event) : Advance c p ticks x w (w'.note o e) :=
  h.hush ((Hushed.refl w').note o e)

theorem reap (s : StreamId) : Advance c p ticks x w (w'.reap s) := h.hush ((Hushed.refl w').reap s)

theorem setPhase (hc : c < w.calls.size) (q : Phase) :
    Advance c q ticks x w (w'.setPhase c q) where
  phaseOf d := by
    rw [phaseOf_setPhase, h.calls, h.phaseOf]
    split
    · rw [if_pos (‹_ ∧ _›).1]
    · rename_i hd
      rw [if_neg fun e => hd ⟨e, hc⟩, if_neg fun e => hd ⟨e, hc⟩]
  brokerOf d := (brokerOf_setPhase _ _ _ _).trans (h.brokerOf d)
  calls := (calls_size_setPhase _ _ _).trans h.calls
  brokers := h.brokers
  counters := h.counters
  announced d := by rw [announcedBy_setPhase, h.announced]
  fired := h.fired

theorem finish (hc : c < w.calls.size) (o : Outcome) :
    Advance c (.finished o) ticks x w (w'.finish c o) :=
  h.setPhase hc _

theorem record (t : Tick) : Advance c p (ticks ++ [t]) x w (w'.record (w'.brokerOf c) t) where
  phaseOf := h.phaseOf
  brokerOf := h.brokerOf
  calls := h.calls
  brokers := by
    rw [← h.brokers]
    exact Table.size_update _ _ _
  counters b := by
    rw [countersOf_record, h.brokerOf, h.brokers, h.counters]
    by_cases hb : b = w.brokerOf c
    · subst hb
      simp only [true_and]
      split
      · rw [Counters.recordAll_concat]
      · rfl
    · simp [hb]
  announced := h.announced
  fired := h.fired

theorem announce (hc : c < w.calls.size) (y : Announcement) :
    Advance c p ticks (some y) w (w'.announce c y) where
  phaseOf d := by
    have hd := ((Frame.refl (S := ∅) w').announce c y).phaseOf d
    rw [hd, h.phaseOf]
  brokerOf d := by
    have hd := ((Frame.refl (S := ∅) w').announce c y).brokerOf d
    rw [hd, h.brokerOf]
  calls := by
    rw [← h.calls]
    exact Table.size_update _ _ _
  brokers := h.brokers
  counters := h.counters
  announced d := by
    rw [announcedBy_announce, h.calls, h.announced]
    by_cases hd : d = c
    · simp [hd, hc]
    · simp [hd]
  fired := h.fired

theorem attach (hc : c < w.calls.size) (s : StreamId) :
    Advance c (.finished (.attached w'.consumers.size)) ticks x w (w'.attach c s) :=
  (h.hush ((Hushed.refl w').addConsumer _)).setPhase hc _

end Advance

end System

end TunerBroker
