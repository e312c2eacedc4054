import TunerBroker.Proofs.Invariants.TidyTurns
import TunerBroker.Proofs.Invariants.WiringRuns

/-! An orderly run is tidy at every moment: a step is a turn of a call that keeps a stream alive, or a
change of the books by one that keeps none. -/

namespace TunerBroker

namespace System

variable {m : Move} {w w' v : System} {c : CallId} {a : Acquisition} {s t : StreamId}
  {n : ConnectionId} {p : Phase} {f : Stream → Stream}

namespace Tidy

/-- A call that keeps no stream alive goes on to a plain place, and keeps none alive there. -/
theorem plain_of_leads {q : Phase} (plain : p.IsPlain) (idle : p.holds = []) (leads : p.Leads q) :
    q.IsPlain ∧ q.holds = [] := by
  have holds : q.holds = [] := List.eq_nil_iff_forall_not_mem.2 fun s hs => by
    simpa [idle] using leads.holds hs
  have wish := leads.wish
  refine ⟨?_, holds⟩
  cases q <;> simp only [Phase.IsPlain, Phase.holds, reduceCtorEq] at holds ⊢
  all_goals cases p <;> simp_all [Phase.wish?, Phase.IsPlain]

theorem beginOpen {x : Slot} (h : w.Tidy) (g : w.Sound) (hp : w.phaseOf c = .seeking a)
    (hx : (w.slot (w.brokerOf c) a.key).streams ⊆ x.streams) : (w.beginOpen c a x).Tidy := by
  have hc : c < w.calls.size := w.lt_of_phaseOf _ (by simp [hp])
  have plain := h.plain c
  rw [hp] at plain
  obtain ⟨r, token, config, rfl⟩ := plain
  have new : (w.beginOpen c (.ofRequest r token config) x).stream w.streams.size = .ofRequest r config := by
    rw [stream_beginOpen, if_pos rfl]
    rfl
  refine h.move (c := c) (p := w.openingPhase (.ofRequest r token config)) (fun c' => ?_) (fun t => ?_)
    (fun b k t ht => .inl ?_) (by simp [hp, Phase.closes]) ⟨⟨r, token, config, rfl⟩, .inl ⟨rfl, rfl⟩⟩
    (fun ho => ?_) (by simp [openingPhase, Phase.ahead])
  · simp [phaseOf_beginOpen, hc]
  · by_cases ht : t = w.streams.size
    · subst ht
      rw [new]
      refine .inr ⟨⟨rfl, by rintro _ _ ⟨⟩⟩, fun up => ?_, fun c' _ ho => ?_⟩
      · rcases up with hl | hl <;> cases hl
      · exact Nat.lt_irrefl _ (g.custody.made (o := .call c') ho)
    · rw [stream_beginOpen, if_neg ht]
      exact .inl (.refl _)
  · rw [slot_beginOpen]
    split
    · rename_i he
      rw [he.1, he.2.1] at ht
      exact hx ht
    · exact ht
  · obtain ⟨-, rfl, -⟩ := Phase.opening.inj ho
    rw [new]
    rfl

/-- A stream made under a name is not opened yet. -/
theorem make {r : StreamRequest} {config : BrokerConfig} (h : w.Tidy) (g : w.Sound) :
    (w.addStream { Stream.ofRequest r config with named := true }).Tidy := by
  have old : ∀ {c s}, s ∈ (w.phaseOf c).owns →
      (w.addStream { Stream.ofRequest r config with named := true }).stream s = w.stream s := by
    intro c s hs
    rw [stream_addStream, if_neg]
    rintro rfl
    exact Nat.lt_irrefl _ (g.custody.made (o := .call c) hs)
  refine h.move (c := 0) (p := w.phaseOf 0) (fun c' => ?_) (fun t => ?_) (fun b k t ht => .inl ht)
    (fun t ht _ => ht) (h.plain 0) (fun {a s moves} hp => ?_) (fun t ht => ?_)
  · split
    · rw [(‹c' = 0› : c' = 0)]
      rfl
    · rfl
  · rw [stream_addStream]
    split
    · rename_i ht
      refine .inr ⟨⟨rfl, by rintro _ _ ⟨⟩⟩, fun up => ?_, fun c' _ ho => ?_⟩
      · rcases up with hl | hl <;> cases hl
      · exact Nat.lt_irrefl _ (g.custody.made (o := .call c') (ht ▸ ho))
    · exact .inl (.refl _)
  · rw [old (c := 0) (by simp [hp, Phase.owns])]
    exact h.unasked hp
  · rw [old (c := 0) (Phase.closes_subset _ (Phase.ahead_subset _ ht))]
    exact h.ahead ht

theorem begin {gated : Bool} {errand : Errand} (h : w.Tidy)
    (hm : (Move.start b gated errand).IsOrderly w) : (w.begin b gated errand).Tidy := by
  refine h.move (c := w.calls.size) (p := errand.origin) (phaseOf_begin w b · gated errand)
    (fun t => ?_) (fun b k t ht => .inl (by rwa [slot_begin])) ?_ ?_ ?_ ?_
  · rw [stream_begin]
    exact .inl (.refl _)
  · simp [w.phaseOf_of_size_le _ (Nat.le_refl _), Phase.closes]
  · cases errand <;> exact hm
  · cases errand <;> rintro _ _ _ ⟨⟩
  · cases errand <;> rintro _ ⟨⟩

/-- The last consumer leaves, and the stream is off the list. -/
theorem last {k : ConsumerId} {x : Consumer} (h : w.Tidy) (g : w.Sound)
    (place : w.phaseOf c = .releasing k)
    (listed : (w.slot (w.brokerOf c) x.key).isRegistered x.stream) :
    ((((w.setStanding k .released).setStream x.stream fun y =>
      { y with consumers := y.consumers - 1 }).putSlot (w.brokerOf c) x.key
        ((w.slot (w.brokerOf c) x.key).deregister x.stream)).setPhase c
          (.tearing x.stream none)).Tidy := by
  have hc : c < w.calls.size := w.lt_of_phaseOf _ (by simp [place])
  have hs : x.stream ∈ (w.slot (w.brokerOf c) x.key).streams := (Slot.isRegistered_iff _ _).1 listed
  refine h.move (c := c) (p := .tearing x.stream none) (fun c' => by simp [phaseOf_setPhase, hc])
    (fun t => .inl (lasts_setConsumers w x.stream t fun y => y.consumers - 1))
    (fun b k' t ht => ?_) (by simp [place, Phase.closes]) trivial (by rintro _ _ _ ⟨⟩) fun t ht => ?_
  · rw [slot_setPhase, slot_putSlot]
    split
    · rename_i he
      rw [he.1, he.2.1] at ht
      rw [Slot.streams_deregister _ _ (g.custody.nodup (.slot (w.brokerOf c) x.key))]
      by_cases he : t = x.stream
      · exact .inr (by simp [Phase.closes, he])
      · exact .inl (List.mem_filter.2 ⟨ht, decide_eq_true he⟩)
    · exact .inl ht
  · rw [List.mem_singleton.1 ht]
    exact (lasts_setConsumers w x.stream x.stream fun y => y.consumers - 1).lifecycle.trans
      ((g.flight.order _ _).connected _ hs).1

/-- All streams of a broker are taken off the lists. -/
theorem sweep (h : w.Tidy) (g : w.Sound) (place : w.phaseOf c = .sweepStart) : (w.sweep c).Tidy := by
  have hc : c < w.calls.size := w.lt_of_phaseOf _ (by simp [place])
  refine h.move (c := c) (p := .sweeping none (w.listed (w.brokerOf c)) 0)
    (fun c' => by simp [phaseOf_sweep, hc]) (fun t => .inl (.refl _)) (fun b k t ht => ?_)
    (by simp [place, Phase.closes]) trivial (by rintro _ _ _ ⟨⟩) fun t ht => ?_
  · rw [slot_sweep]
    split
    · rename_i he
      exact .inr ((w.mem_listed _ t).2 ⟨k, he ▸ ht⟩)
    · exact .inl ht
  · obtain ⟨k, hk⟩ := (w.mem_listed _ t).1 ht
    exact ((g.flight.order _ _).connected t hk).1

theorem change (h : w.Tidy) (g : w.Sound) (hm : m.IsOrderly w)
    (idle : ∀ c, m.actor = some c → (w.phaseOf c).holds = []) (hc : Change m w w') : w'.Tidy := by
  have set : ∀ {v : System} {c : CallId} {p : Phase}, w.phaseOf c ≠ .abandoned →
      v.calls.size = w.calls.size → (∀ c, v.phaseOf c = w.phaseOf c) →
      ∀ c', (v.setPhase c p).phaseOf c' = if c' = c then p else w.phaseOf c' := by
    intro v c p hp size phase c'
    simp [phaseOf_setPhase, size, phase, w.lt_of_phaseOf _ hp]
  cases hc with
  | stay => exact h
  | begin allowed start => exact h.begin (start ▸ hm)
  | make => exact h.make g
  | letGo =>
    exact h.calm (fun _ => rfl) (fun _ _ => rfl) (lasts_setStream fun x => ⟨rfl, id⟩)
  | drop => exact h.calm (fun _ => rfl) (fun _ _ => rfl) fun t => .refl _
  | @go c p actor leads free =>
    obtain ⟨plain, holds⟩ := plain_of_leads (h.plain c) (idle c actor) leads
    rcases Nat.lt_or_ge c w.calls.size with hc | hc
    · exact h.rest (c := c) (p := p) (fun c' => by simp [phaseOf_setPhase, hc]) (fun t => .refl _)
        (fun b k t => id) (idle c actor) holds plain
    · refine h.calm (fun c' => ?_) (fun _ _ => rfl) fun t => .refl _
      rw [phaseOf_setPhase, if_neg fun hn => absurd hn.2 (Nat.not_lt.2 hc)]
  | work actor work held =>
    rw [idle _ actor] at held
    cases held
  | register actor place =>
    have := idle _ actor
    simp [place, Phase.holds] at this
  | giveUp actor place =>
    have := idle _ actor
    simp [place, Phase.holds] at this
  | @provide c a s t moves place =>
    have plain := h.plain c
    rw [place] at plain
    rcases plain.2 with ⟨-, hw⟩ | ⟨-, d, hw⟩ <;> cases hw
  | demote place => exact h.beginOpen g place fun t => (Slot.mem_streams_demote _ _).2
  | «open» place => exact h.beginOpen g place fun t => id
  | @demoteJoin c o a s place shared ended taken =>
    have plain := h.plain c
    rw [place] at plain
    refine h.rest (p := .waiting a o) (set (v := w.putSlot _ _ _) (by simp [place]) rfl fun _ => rfl)
      (fun t => .refl _) (fun b k t ht => ?_) (by rw [place]; rfl) rfl plain
    rw [slot_setPhase, slot_putSlot]
    split
    · rename_i he
      rw [he.1, he.2.1] at ht
      exact (Slot.mem_streams_demote _ _).2 ht
    · exact ht
  | @reuse c a s place shared counted live media =>
    exact h.rest (p := .finished (.attached w.consumers.size))
      (set (v := (w.setStream _ _).addConsumer _) (by simp [place]) rfl fun _ => rfl)
      (fun t => lasts_setConsumers w s t fun x => x.consumers + 1) (fun b k t => id)
      (by rw [place]; rfl) rfl trivial
  | @miss c k e place missing =>
    exact h.rest (p := .finished (.failed e)) (set (by simp [place]) rfl fun _ => rfl)
      (fun t => .refl _) (fun b k t => id) (by rw [place]; rfl) rfl trivial
  | @refuse c k x e place there unfit =>
    exact h.rest (p := .finished (.failed e))
      (set (v := w.setStanding _ _) (by simp [place]) rfl fun _ => rfl)
      (fun t => .refl _) (fun b k t => id) (by rw [place]; rfl) rfl trivial
  | @detach c k x turn place there listed others =>
    exact h.rest (p := .finished .done)
      (set (v := (w.setStanding _ _).setStream _ _) (by simp [place]) rfl fun _ => rfl)
      (fun t => lasts_setConsumers w x.stream t fun y => y.consumers - 1) (fun b k t => id)
      (by rw [place]; rfl) rfl trivial
  | last turn place there listed => exact h.last g place listed
  | sweep turn place => exact h.sweep g place

theorem step (h : w.Tidy) (g : w.Sound) (faithful : w.Faithful) (wired : w.Wired w.jobs) (m : Move)
    (hm : m.IsOrderly w) : (w.step m).Tidy := by
  have alive : ∀ n message, m ≠ .deliver n (.fatal message) := by
    rintro n message rfl
    exact hm
  by_cases busy : ∃ c, m.actor = some c ∧ (w.phaseOf c).holds ≠ []
  · obtain ⟨c, actor, busy⟩ := busy
    cases m with
    | turn r =>
      cases r with
      | call c' =>
        obtain rfl := Option.some.inj actor
        simp only [System.step, turn]
        split
        · exact h.turnCall g faithful busy
        · exact h
      | pump s => cases actor
    | abandon c' =>
      obtain rfl := Option.some.inj actor
      exact h.abandon g wired busy hm
    | provide c' result =>
      obtain rfl := Option.some.inj actor
      have plain := h.plain c'
      simp only [System.step, provide]
      split
      · rename_i hp
        rw [hp] at plain
        rcases plain.2 with ⟨-, hw⟩ | ⟨-, d, hw⟩ <;> cases hw
      · rename_i hp
        rw [hp] at plain
        rcases plain.2 with ⟨-, hw⟩ | ⟨-, d, hw⟩ <;> cases hw
      · exact h
    | _ => cases actor
  · obtain ⟨w₁, w₂, h₁, hc, h₂⟩ := step_books w m
    have f₁ := h₁.frame
    refine drift (change (h.drift h₁ alive) (g.frame f₁) ?_ (fun c actor => ?_) hc) h₂ alive
    · cases m with
      | abandon c => rwa [Move.IsOrderly, f₁.phaseOf]
      | deliver n e => cases e <;> exact hm
      | _ => exact hm
    · rw [f₁.phaseOf]
      exact not_not.1 fun hn => busy ⟨c, actor, hn⟩

theorem run (h : w.Tidy) (g : w.Sound) (faithful : w.Faithful) (wired : w.Wired w.jobs)
    {moves : List Move} (hm : w.RunsOrderly moves) : (w.run moves).Tidy := by
  induction moves generalizing w with
  | nil => exact h
  | cons m moves ih =>
    exact ih (h.step g faithful wired m hm.1) (g.step m) (faithful.step m) (wired.step m) hm.2

end Tidy

theorem tidy_fresh (configs : List BrokerConfig) (desk : AccessDesk) (terms : List TunerTerms) :
    (fresh configs desk terms).Tidy where
  plain _ := trivial
  unasked := by rintro _ _ _ _ ⟨⟩
  ahead := by rintro _ _ ⟨⟩
  intact _ := ⟨rfl, by rintro _ _ ⟨⟩⟩
  placed up := by rcases up with hl | hl <;> cases hl

end System

end TunerBroker
