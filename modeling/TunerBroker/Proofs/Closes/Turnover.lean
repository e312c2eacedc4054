import Mathlib.Data.Finset.Card
import TunerBroker.Proofs.Closes.Handover

/-! Streams in the care of a broker: those it lists, and those that a call of its own took off its lists
and has to close. A stream comes into care when it is counted as opened, and goes when it is counted as
closed; only those that abandoned calls leave behind go uncounted. -/

namespace TunerBroker

/-- What a move leaves behind, if that is `f` of the call it abandons. -/
def Move.leaves (f : CallId → List StreamId) : Move → List StreamId
  | abandon c => f c
  | _ => []

namespace System

/-- The broker lists the stream, or a call on it has the stream to close. -/
def InCare (w : System) (b : BrokerId) (s : StreamId) : Prop :=
  (∃ k, s ∈ (w.slot b k).streams) ∨ ∃ c, w.brokerOf c = b ∧ s ∈ (w.phaseOf c).closes

/-- The stream is in the care of the broker, but not by way of the call `c`. -/
def Elsewhere (w : System) (c : CallId) (b : BrokerId) (s : StreamId) : Prop :=
  (∃ k, s ∈ (w.slot b k).streams) ∨ ∃ d, d ≠ c ∧ w.brokerOf d = b ∧ s ∈ (w.phaseOf d).closes

/-- What the moves of a run leave behind. -/
def leftBehind (f : System → CallId → List StreamId) (w : System) : List Move → List StreamId
  | [] => []
  | m :: moves => m.leaves (f w) ++ leftBehind f (w.step m) moves

/-- What a call leaves to nobody when it is abandoned where it is, if it is made on the broker. -/
def desertsOn (b : BrokerId) (w : System) (c : CallId) : List StreamId :=
  if w.brokerOf c = b then (w.phaseOf c).deserts else []

/-- The streams of a broker that a run leaves to nobody. -/
def deserted (w : System) (b : BrokerId) (moves : List Move) : List StreamId :=
  w.leftBehind (desertsOn b) moves

variable {m : Move} {w w' : System} {b b' : BrokerId} {k : SourceKey} {c d : CallId} {s t : StreamId}
  {f : System → CallId → List StreamId}

theorem leftBehind_append (before after : List Move) : w.leftBehind f (before ++ after) =
    w.leftBehind f before ++ (w.run before).leftBehind f after := by
  induction before generalizing w with
  | nil => rfl
  | cons m before ih =>
    show m.leaves (f w) ++ (w.step m).leftBehind f (before ++ after) = _
    rw [ih, ← List.append_assoc]
    rfl

/-! ### One call at a time -/

/-- What holds by the lists or by some call does so apart from `c`, or by `c`. -/
private theorem or_exists_call_iff {L : Prop} {P : CallId → Prop} (c : CallId) :
    (L ∨ ∃ d, P d) ↔ (L ∨ ∃ d ≠ c, P d) ∨ P c := by
  constructor
  · rintro (listed | ⟨d, hd⟩)
    · exact .inl (.inl listed)
    · by_cases same : d = c
      · exact .inr (same ▸ hd)
      · exact .inl (.inr ⟨d, same, hd⟩)
  · rintro ((listed | ⟨d, -, hd⟩) | hc)
    · exact .inl listed
    · exact .inr ⟨d, hd⟩
    · exact .inr ⟨c, hc⟩

theorem inCare_iff (c : CallId) :
    w.InCare b s ↔ w.Elsewhere c b s ∨ w.brokerOf c = b ∧ s ∈ (w.phaseOf c).closes :=
  or_exists_call_iff c

theorem Custody.not_elsewhere (h : w.Custody) (hs : s ∈ (w.phaseOf c).closes) :
    ¬ w.Elsewhere c b s := by
  have own : s ∈ w.kept (.call c) := Phase.closes_subset _ hs
  rintro (⟨k, hl⟩ | ⟨d, hd, -, hs'⟩)
  · cases h.unique (o := .slot b k) hl own
  · exact hd (Keeper.call.inj (h.unique (o := .call d) (Phase.closes_subset _ hs') own))

theorem Custody.inCare_unique (h : w.Custody) (hb : w.InCare b s) (hb' : w.InCare b' s) : b = b' := by
  rcases hb with ⟨k, hl⟩ | ⟨c, rfl, hc⟩
  · rcases hb' with ⟨k', hl'⟩ | ⟨c', rfl, hc'⟩
    · exact (Keeper.slot.inj (h.unique (o := .slot b k) hl (q := .slot b' k') hl')).1
    · exact absurd (.inl ⟨k, hl⟩) (h.not_elsewhere hc')
  · rcases hb' with ⟨k', hl'⟩ | ⟨c', rfl, hc'⟩
    · exact absurd (.inl ⟨k', hl'⟩) (h.not_elsewhere hc)
    · rw [Keeper.call.inj (h.unique (o := .call c) (Phase.closes_subset _ hc) (q := .call c')
        (Phase.closes_subset _ hc'))]

/-- Where the calls stand with the brokers they are made on before a step. -/
theorem inCare_step : (w.step m).InCare b s ↔ (∃ k, s ∈ ((w.step m).slot b k).streams) ∨
    ∃ c, w.brokerOf c = b ∧ s ∈ ((w.step m).phaseOf c).closes := by
  refine or_congr_right ⟨?_, ?_⟩
  · rintro ⟨c, hb, hs⟩
    exact ⟨c, brokerOf_step hs ▸ hb, hs⟩
  · rintro ⟨c, hb, hs⟩
    exact ⟨c, (brokerOf_step hs).trans hb, hs⟩

theorem inCare_step_iff (c : CallId)
    (lists : ∀ b k t, t ∈ ((w.step m).slot b k).streams ↔ t ∈ (w.slot b k).streams)
    (others : ∀ d ≠ c, (w.step m).phaseOf d = w.phaseOf d) :
    (w.step m).InCare b s ↔
      w.Elsewhere c b s ∨ w.brokerOf c = b ∧ s ∈ ((w.step m).phaseOf c).closes := by
  rw [inCare_step, or_exists_call_iff c]
  refine or_congr_left (or_congr (exists_congr fun k => lists b k s) (exists_congr fun d => ?_))
  exact and_congr_right fun hd => by rw [others d hd]

/-! ### What comes into care, and what goes -/

/-- How a step changes what is in the care of a broker, and what it counts. -/
inductive Turnover (w w' : System) (b : BrokerId) (left : List StreamId) : Prop where
  /-- Nothing is counted, and nothing changes but for what is left behind. -/
  | keeps (nodup : left.Nodup) (within : ∀ t ∈ left, w.InCare b t)
      (care : ∀ t, w'.InCare b t ↔ w.InCare b t ∧ t ∉ left)
      (flow : (w'.countersOf b).flow = (w.countersOf b).flow)
  /-- A stream comes into care, and is counted as opened. -/
  | gains {s : StreamId} (none : left = []) (new : ¬ w.InCare b s)
      (care : ∀ t, w'.InCare b t ↔ w.InCare b t ∨ t = s)
      (flow : (w'.countersOf b).flow = ((w.countersOf b).opens + 1, (w.countersOf b).closes))
  /-- A stream that a call had to close is closed, and counted as that. -/
  | loses {c : CallId} {s : StreamId} (none : left = []) (old : w.InCare b s)
      (closes : s ∈ (w.phaseOf c).closes) (care : ∀ t, w'.InCare b t ↔ w.InCare b t ∧ t ≠ s)
      (closed : (w'.stream s).lifecycle = .closed)
      (flow : (w'.countersOf b).flow = ((w.countersOf b).opens, (w.countersOf b).closes + 1))

theorem leaves_eq_nil {g : CallId → List StreamId} (h : ∀ c, m = .abandon c → g c = []) :
    m.leaves g = [] := by
  cases m with
  | abandon c => exact h c rfl
  | _ => rfl

theorem desertsOn_eq_nil (h : (w.phaseOf c).deserts = []) : w.desertsOn b c = [] := by
  rw [desertsOn, h, ite_self]

/-- A call goes on with its close, or ends it. -/
theorem Furthers.turnover {rest : List StreamId} (g : w.Sound) (h : w.Poised)
    (closes : (w.phaseOf c).closes = s :: rest)
    (lists : ∀ b k t, t ∈ ((w.step m).slot b k).streams ↔ t ∈ (w.slot b k).streams)
    (others : ∀ d ≠ c, (w.step m).phaseOf d = w.phaseOf d)
    (furthers : w.Furthers (w.step m) c s rest) (b : BrokerId) : Turnover w (w.step m) b [] := by
  have mine : s ∈ (w.phaseOf c).closes := closes ▸ List.mem_cons_self
  have care := fun t => inCare_step_iff (b := b) (s := t) c lists others
  rcases furthers.course with ⟨same, counters⟩ | ⟨next, closed, result, proper, counters⟩
  · refine .keeps List.nodup_nil (by rintro _ ⟨⟩) (fun t => ?_) (by rw [counters])
    rw [care, same, ← closes, ← inCare_iff]
    simp
  · by_cases hb : w.brokerOf c = b
    · subst hb
      have nodup : (s :: rest).Nodup :=
        closes ▸ (g.custody.nodup (.call c)).sublist (Phase.closes_sublist _)
      refine .loses rfl (.inr ⟨c, rfl, mine⟩) mine (fun t => ?_) closed ?_
      · rw [care, next, inCare_iff c, closes]
        have apart : w.Elsewhere c (w.brokerOf c) t → t ≠ s := by
          rintro he rfl
          exact g.custody.not_elsewhere mine he
        have later : t ∈ rest → t ≠ s := by
          rintro ht rfl
          exact (List.nodup_cons.1 nodup).1 ht
        simp only [true_and, List.mem_cons]
        tauto
      · rw [counters, if_pos ⟨rfl, h.seated mine⟩]
        exact flow_closeTicks proper _
    · refine .keeps List.nodup_nil (by rintro _ ⟨⟩) (fun t => ?_) ?_
      · rw [care, inCare_iff c]
        simp [hb]
      · rw [counters, if_neg fun hn => hb hn.1.symm]

/-- Streams stay in care with the call that takes them off the lists of its broker. -/
theorem inCare_takes {l : List StreamId} (g : w.Sound) (none : (w.phaseOf c).closes = [])
    (listed : ∀ t ∈ l, ∃ k, t ∈ (w.slot (w.brokerOf c) k).streams)
    (lists : ∀ b k t, t ∈ ((w.step m).slot b k).streams ↔ t ∈ (w.slot b k).streams ∧ t ∉ l)
    (next : ((w.step m).phaseOf c).closes = l)
    (others : ∀ d ≠ c, (w.step m).phaseOf d = w.phaseOf d) :
    (w.step m).InCare b t ↔ w.InCare b t := by
  rw [inCare_step]
  simp only [lists]
  constructor
  · rintro (⟨k, hl, -⟩ | ⟨d, hb, hd⟩)
    · exact .inl ⟨k, hl⟩
    · by_cases hc : d = c
      · subst hc
        exact .inl (hb ▸ listed t (next ▸ hd))
      · exact .inr ⟨d, hb, others d hc ▸ hd⟩
  · rintro (⟨k, hl⟩ | ⟨d, hb, hd⟩)
    · by_cases ht : t ∈ l
      · obtain ⟨k', hl'⟩ := listed t ht
        obtain ⟨rfl, -⟩ := Keeper.slot.inj (g.custody.unique (o := .slot b k) hl
          (q := .slot (w.brokerOf c) k') hl')
        exact .inr ⟨c, rfl, next.symm ▸ ht⟩
      · exact .inl ⟨k, hl, ht⟩
    · have hc : d ≠ c := by
        rintro rfl
        rw [none] at hd
        cases hd
      exact .inr ⟨d, hb, (others d hc).symm ▸ hd⟩

/-- A call that is abandoned leaves behind what it has to close. -/
theorem turnover_deserts (g : w.Sound) (move : m = .abandon c) (suspended : (w.phaseOf c).isSuspended)
    (lists : ∀ b k t, t ∈ ((w.step m).slot b k).streams ↔ t ∈ (w.slot b k).streams)
    (next : (w.step m).phaseOf c = .abandoned) (others : ∀ d ≠ c, (w.step m).phaseOf d = w.phaseOf d)
    (flow : ((w.step m).countersOf b).flow = (w.countersOf b).flow) :
    Turnover w (w.step m) b (m.leaves (w.desertsOn b)) := by
  have left : m.leaves (w.desertsOn b) = if w.brokerOf c = b then (w.phaseOf c).closes else [] := by
    rw [move, Move.leaves, desertsOn, Phase.deserts, if_pos suspended]
  have care : ∀ t, (w.step m).InCare b t ↔ w.Elsewhere c b t := fun t => by
    rw [inCare_step_iff c lists others, next]
    exact or_iff_left fun hn => List.not_mem_nil hn.2
  rw [left]
  by_cases hb : w.brokerOf c = b
  · rw [if_pos hb]
    refine .keeps ((g.custody.nodup (.call c)).sublist (Phase.closes_sublist _))
      (fun t ht => .inr ⟨c, hb, ht⟩) (fun t => ?_) flow
    rw [care, inCare_iff c]
    refine ⟨fun he => ⟨.inl he, fun ht => g.custody.not_elsewhere ht he⟩, ?_⟩
    rintro ⟨he | ⟨-, ht⟩, hn⟩
    · exact he
    · exact absurd ht hn
  · rw [if_neg hb]
    refine .keeps List.nodup_nil (by rintro _ ⟨⟩) (fun t => ?_) flow
    rw [care, inCare_iff c]
    simp [hb]

/-- A step takes a stream into care and counts it as opened, or the other way round, or leaves behind
what an abandoned call has to close. -/
theorem step_turnover (h : w.Poised) (g : w.Sound) (wired : w.Wired w.jobs) (m : Move)
    (b : BrokerId) : Turnover w (w.step m) b (m.leaves (w.desertsOn b)) := by
  have idle : (∀ c, m.actor = some c → (w.phaseOf c).closes = []) → m.leaves (w.desertsOn b) = [] := by
    intro idle
    refine leaves_eq_nil ?_
    rintro c rfl
    exact desertsOn_eq_nil (Phase.deserts_eq_nil (idle c rfl))
  have only : ∀ {c}, m.actor = some c → (w.phaseOf c).closes = [] →
      m.leaves (w.desertsOn b) = [] := by
    intro c actor none
    refine idle fun d hd => ?_
    obtain rfl := Option.some.inj (actor.symm.trans hd)
    exact none
  cases step_handover h g wired m with
  | stays same kept =>
    rw [leaves_eq_nil fun c hc => desertsOn_eq_nil (kept c hc), same]
    exact .keeps List.nodup_nil (by rintro _ ⟨⟩) (fun t => by simp) rfl
  | rests still lists closes ahead flow =>
    rw [idle still]
    refine .keeps List.nodup_nil (by rintro _ ⟨⟩) (fun t => ?_) (flow b)
    simp only [inCare_step, lists, closes]
    simp [InCare]
  | @adds c s k actor own none lists closes ahead flow =>
    rw [only actor none]
    have care : ∀ t, (w.step m).InCare b t ↔ w.InCare b t ∨ b = w.brokerOf c ∧ t = s := by
      intro t
      simp only [inCare_step, lists, closes, exists_or]
      rw [InCare, or_right_comm]
      simp
    by_cases hb : b = w.brokerOf c
    · refine .gains rfl ?_ (fun t => (care t).trans (by rw [and_iff_right hb]))
        ((flow b).trans (if_pos hb))
      rintro (⟨k', hl⟩ | ⟨d, -, hd⟩)
      · cases g.custody.unique (o := .slot b k') hl (q := .call c) own
      · obtain rfl := Keeper.call.inj (g.custody.unique (o := .call d) (Phase.closes_subset _ hd)
          (q := .call c) own)
        rw [none] at hd
        cases hd
    · exact .keeps List.nodup_nil (by rintro _ ⟨⟩) (fun t => (care t).trans (by simp [hb]))
        ((flow b).trans (if_neg hb))
  | takes actor none there seated listed lists next others flow =>
    rw [only actor none]
    refine .keeps List.nodup_nil (by rintro _ ⟨⟩) (fun t => ?_) (flow b)
    rw [inCare_takes g none listed lists next others]
    simp
  | furthers turn closes lists others furthers =>
    have none : m.leaves (w.desertsOn b) = [] := by
      rw [turn]
      rfl
    rw [none]
    exact furthers.turnover g h closes lists others b
  | deserts move suspended lists next others flow =>
    exact turnover_deserts g move suspended lists next others (flow b)

/-! ### What is counted -/

/-- Of the `n` streams at most that were counted as opened on the broker, all are counted as closed but
those in its care and `left` others. -/
def Balanced (w : System) (b : BrokerId) (left n : Nat) : Prop :=
  ∃ (care : Finset StreamId) (opens closes : Nat), (∀ s, s ∈ care ↔ w.InCare b s) ∧
    (w.countersOf b).flow = (.ofNat opens, .ofNat closes) ∧
    opens = closes + care.card + left ∧ opens ≤ n

theorem Balanced.step {left n : Nat} {l : List StreamId} (h : w.Balanced b left n)
    (turnover : Turnover w w' b l) : w'.Balanced b (left + l.length) (n + 1) := by
  obtain ⟨care, opens, closes, mem, flow, sum, le⟩ := h
  obtain ⟨ho, hc⟩ := Prod.mk.inj flow
  cases turnover with
  | keeps nodup within care' flow' =>
    refine ⟨care \ l.toFinset, opens, closes, fun s => ?_, flow'.trans flow, ?_, by omega⟩
    · rw [Finset.mem_sdiff, mem, care', List.mem_toFinset]
    · have subset : l.toFinset ⊆ care := fun t ht => (mem t).2 (within t (List.mem_toFinset.1 ht))
      have card := Finset.card_sdiff_add_card_eq_card subset
      rw [List.toFinset_card_of_nodup nodup] at card
      omega
  | @gains s none new care' flow' =>
    subst none
    refine ⟨insert s care, opens + 1, closes, fun t => ?_, ?_, ?_, by omega⟩
    · rw [Finset.mem_insert, mem, care', or_comm]
    · rw [flow', ho, hc, UInt64.ofNat_add]
      rfl
    · rw [Finset.card_insert_of_notMem fun hs => new ((mem s).1 hs)]
      simp only [List.length_nil]
      omega
  | @loses c s none old _ care' _ flow' =>
    subst none
    refine ⟨care.erase s, opens, closes + 1, fun t => ?_, ?_, ?_, by omega⟩
    · rw [Finset.mem_erase, mem, care', and_comm]
    · rw [flow', ho, hc, UInt64.ofNat_add]
      rfl
    · have card := Finset.card_erase_add_one ((mem s).2 old)
      simp only [List.length_nil]
      omega

theorem Balanced.run {left n : Nat} (balanced : w.Balanced b left n) (h : w.Poised) (g : w.Sound)
    (l : w.Ledger) (wired : w.Wired w.jobs) (moves : List Move) :
    (w.run moves).Balanced b (left + (w.deserted b moves).length) (n + moves.length) := by
  induction moves generalizing w left n with
  | nil => exact balanced
  | cons m moves ih =>
    have later := ih (balanced.step (step_turnover h g wired m b)) (h.step g l wired m) (g.step m)
      (l.step g m) (wired.step m)
    have length : (w.deserted b (m :: moves)).length =
        (m.leaves (w.desertsOn b)).length + ((w.step m).deserted b moves).length :=
      List.length_append
    rw [length, List.length_cons, ← Nat.add_assoc, Nat.add_comm moves.length, ← Nat.add_assoc]
    exact later

theorem balanced_fresh (configs : List BrokerConfig) (desk : AccessDesk) (terms : List TunerTerms)
    (b : BrokerId) : (fresh configs desk terms).Balanced b 0 0 := by
  have slots := broker_fresh configs desk terms b
  refine ⟨∅, 0, 0, fun s => ?_, by rw [countersOf, slots.2]; rfl, rfl, Nat.le_refl _⟩
  simp only [Finset.notMem_empty, false_iff]
  rintro (⟨k, hl⟩ | ⟨c, -, hc⟩)
  · rw [System.slot, slots.1] at hl
    cases hl
  · cases hc

end System

end TunerBroker
