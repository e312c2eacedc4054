import TunerBroker.Proofs.Invariants.Tidy
import TunerBroker.Proofs.Steps.Course
import TunerBroker.System.Report

/-! What the brokers list. A stream comes on a list from the open that has made it, which puts it on offer
if it may be shared, and leaves it for the call that is to close it. No other step changes a list. -/

namespace TunerBroker

namespace System

variable {m : Move} {w w' : System} {b : BrokerId} {k : SourceKey} {c d : CallId} {s : StreamId}
  {p : Phase}

/-- How a move changes what the brokers list. -/
inductive Relists (m : Move) (w w' : System) : Prop where
  /-- No list changes. No call has more to close than what it had to itself, and no open comes to a
  consumer. -/
  | keeps (lists : ∀ b k t, t ∈ (w'.slot b k).streams ↔ t ∈ (w.slot b k).streams)
      (closes : ∀ d, (w'.phaseOf d).closes ⊆ (w.phaseOf d).owns)
      (given : ∀ d, (w.phaseOf d).isOpening → (w'.phaseOf d).attached? = none)
  /-- An open gives its stream. -/
  | adds {c : CallId} {a : Acquisition} {s : StreamId} {moves : List OpenMove} {wait : OpenWait}
      {i : ConsumerId} (actor : m.actor = some c) (place : w.phaseOf c = .opening a s moves wait)
      (next : w'.phaseOf c = .finished (.attached i))
      (slot : w'.slot (w.brokerOf c) a.key =
        Slot.register { w.slot (w.brokerOf c) a.key with opening := none } s (w.stream s).sharing)
      (lists : ∀ b k t, t ∈ (w'.slot b k).streams ↔
        t ∈ (w.slot b k).streams ∨ (b = w.brokerOf c ∧ k = a.key) ∧ t = s)
  /-- A release takes its stream off. -/
  | takes {c : CallId} {i : ConsumerId} {s : StreamId} {k : SourceKey} (actor : m.actor = some c)
      (place : w.phaseOf c = .releasing i) (next : w'.phaseOf c = .tearing s none)
      (listed : s ∈ (w.slot (w.brokerOf c) k).streams)
      (lists : ∀ b k t, t ∈ (w'.slot b k).streams ↔ t ∈ (w.slot b k).streams ∧ t ≠ s)
  /-- A sweep takes everything off. -/
  | clears {c : CallId} (actor : m.actor = some c) (place : w.phaseOf c = .sweepStart)
      (next : w'.phaseOf c = .sweeping none (w.listed (w.brokerOf c)) 0)
      (lists : ∀ b k t, t ∈ (w'.slot b k).streams ↔
        t ∈ (w.slot b k).streams ∧ b ≠ w.brokerOf c)

/-- One call at most goes on, to `p`. -/
theorem Relists.of_phase (lists : ∀ b k t, t ∈ (w'.slot b k).streams ↔ t ∈ (w.slot b k).streams)
    (phase : ∀ d, w'.phaseOf d = w.phaseOf d ∨ d = c ∧ w'.phaseOf d = p)
    (closes : p.closes ⊆ (w.phaseOf c).owns)
    (given : (w.phaseOf c).isOpening → p.attached? = none) : Relists m w w' := by
  refine .keeps lists (fun d => ?_) fun d opening => ?_
  · rcases phase d with same | ⟨rfl, hp⟩
    · rw [same]
      exact Phase.closes_subset _
    · rw [hp]
      exact closes
  · rcases phase d with same | ⟨rfl, hp⟩
    · rw [same]
      cases hd : w.phaseOf d <;> simp_all [Phase.isOpening, Phase.attached?]
    · rw [hp]
      exact given opening

/-- No call goes on. -/
theorem Relists.of_still (lists : ∀ b k t, t ∈ (w'.slot b k).streams ↔ t ∈ (w.slot b k).streams)
    (phase : ∀ d, w'.phaseOf d = w.phaseOf d) : Relists m w w' := by
  refine .of_phase (c := 0) (p := .abandoned) lists (fun d => .inl (phase d)) ?_ fun _ => rfl
  exact List.nil_subset _

theorem relists_beginOpen {a : Acquisition} {x : Slot}
    (same : ∀ t, t ∈ x.streams ↔ t ∈ (w.slot (w.brokerOf c) a.key).streams) :
    Relists m w (w.beginOpen c a x) := by
  refine .of_phase (c := c) (p := w.openingPhase a) (fun b k t => ?_) (fun d => ?_) ?_ fun _ => rfl
  · rw [slot_beginOpen]
    split
    · rename_i he
      rw [he.1, he.2.1, ← same]
      rfl
    · rfl
  · rw [phaseOf_beginOpen]
    split
    · exact .inr ⟨(‹_ ∧ _›).1, rfl⟩
    · exact .inl rfl
  · exact List.nil_subset _

/-- A stream comes on the list of the broker whose call has opened it. -/
theorem relists_register {w₁ : System} {a : Acquisition} {moves : List OpenMove} {wait : OpenWait}
    {i j : Option Job} (g : w.Sound) (actor : m.actor = some c)
    (place : w.phaseOf c = .opening a s moves wait) (work : Work m s i j w w₁) :
    Relists m w (((w₁.setStream s fun x => { x with consumers := x.consumers + 1 }).endOpen c a.key
      (some s)).attach c s) := by
  have frame := work.frame
  have hc : c < w₁.calls.size := frame.calls ▸ w.lt_of_phaseOf c (by simp [place])
  have seated : w.brokerOf c < w.brokers.size := g.flight.seated c (by rw [place]; rfl)
  obtain ⟨marked, -⟩ := g.flight.own_slot (c := c) (a := a) (by rw [place]; rfl)
  refine .adds (i := w₁.consumers.size) actor place ?_ ?_ fun b k t => ?_
  · rw [phaseOf_attach, if_pos ⟨rfl, by simpa using hc⟩]
    rfl
  · have sharing : ((w₁.setStream s fun x => { x with consumers := x.consumers + 1 }).stream
        s).sharing = (w.stream s).sharing := by
      rw [stream_setStream]
      split <;> exact (frame.kin s).sharing
    rw [slot_attach, slot_endOpen, slot_setStream, frame.slot, brokerOf_setStream, frame.brokerOf,
      brokers_setStream, frame.brokers, if_pos ⟨rfl, rfl, seated⟩]
    simp [endedSlot, marked, sharing]
  · rw [slot_attach, slot_endOpen, slot_setStream, frame.slot, brokerOf_setStream, frame.brokerOf,
      brokers_setStream, frame.brokers]
    split
    · rename_i he
      simp [mem_streams_endedSlot, he.1, he.2.1, eq_comm]
    · rename_i he
      simp only [seated, and_true] at he
      simp [he]

/-- A stream leaves its list, the only one it was on. -/
theorem relists_last {i : ConsumerId} {x : Consumer} (g : w.Sound) (turn : m = .turn (.call c))
    (place : w.phaseOf c = .releasing i)
    (listed : (w.slot (w.brokerOf c) x.key).isRegistered x.stream) :
    Relists m w ((((w.setStanding i .released).setStream x.stream fun y =>
      { y with consumers := y.consumers - 1 }).putSlot (w.brokerOf c) x.key
        ((w.slot (w.brokerOf c) x.key).deregister x.stream)).setPhase c (.tearing x.stream none)) := by
  have hc : c < w.calls.size := w.lt_of_phaseOf c (by simp [place])
  have seated : w.brokerOf c < w.brokers.size := g.flight.seated c (by rw [place]; rfl)
  have hl : x.stream ∈ w.kept (.slot (w.brokerOf c) x.key) := (Slot.isRegistered_iff _ _).1 listed
  refine .takes (by rw [turn]; rfl) place ?_ hl fun b k t => ?_
  · rw [phaseOf_setPhase, if_pos ⟨rfl, hc⟩]
  · rw [slot_setPhase, slot_putSlot, slot_setStream, slot_setStanding, brokers_setStream,
      brokers_setStanding]
    split
    · rename_i he
      rw [he.1, he.2.1, Slot.streams_deregister _ _ (g.custody.nodup (.slot (w.brokerOf c) x.key))]
      simp
    · rename_i he
      simp only [seated, and_true] at he
      refine ⟨fun ht => ⟨ht, ?_⟩, And.left⟩
      rintro rfl
      exact he (Keeper.slot.inj (g.custody.unique (o := .slot b k) ht hl))

theorem Change.relists (hc : Change m w w') (g : w.Sound) : Relists m w w' := by
  cases hc with
  | stay | make | letGo | drop => exact .of_still (fun _ _ _ => .rfl) fun _ => rfl
  | @begin b gated errand =>
    refine .of_phase (c := w.calls.size) (p := errand.origin) (fun b k t => ?_) (fun d => ?_) ?_ ?_
    · rw [slot_begin]
    · rw [phaseOf_begin]
      split
      · exact .inr ⟨‹_›, rfl⟩
      · exact .inl rfl
    · cases errand <;> exact List.nil_subset _
    · intro
      cases errand <;> rfl
  | go actor leads =>
    exact .of_phase (fun _ _ _ => .rfl) (fun _ => setPhase_cases _ _ _ _)
      (List.Subset.trans (Phase.closes_subset _) leads.owns.subset) fun _ => leads.attached.2
  | @work w₁ c s p i j actor work held leads =>
    have frame := work.frame
    refine .of_phase (c := c) (p := p) (fun b k t => ?_) (fun d => ?_)
      (List.Subset.trans (Phase.closes_subset _) leads.owns.subset) fun _ => leads.attached.2
    · rw [slot_setPhase, frame.slot]
    · rw [← frame.phaseOf]
      exact setPhase_cases _ _ _ _
  | provide place =>
    exact .of_phase (p := .opening _ _ _ _) (fun _ _ _ => .rfl) (fun _ => setPhase_cases _ _ _ _)
      (List.nil_subset _) fun _ => rfl
  | demote place => exact relists_beginOpen (Slot.mem_streams_demote _)
  | «open» place => exact relists_beginOpen fun _ => .rfl
  | @demoteJoin c o a s place =>
    refine .of_phase (c := c) (p := .waiting a o) (fun b k t => ?_) (fun _ => setPhase_cases _ _ _ _)
      (List.nil_subset _) fun _ => rfl
    rw [slot_setPhase, slot_putSlot]
    split
    · rename_i he
      rw [he.1, he.2.1]
      exact Slot.mem_streams_demote _ _
    · rfl
  | @reuse c a s place =>
    refine .of_phase (c := c) (p := .finished (.attached w.consumers.size)) (fun _ _ _ => .rfl)
      (fun d => setPhase_cases _ _ _ _) (List.nil_subset _) fun opening => ?_
    rw [place] at opening
    cases opening
  | register actor place work => exact relists_register g actor place work
  | @giveUp w₁ c a s moves wait p actor place work exit =>
    have frame := work.frame
    refine .of_phase (c := c) (p := p) (fun b k t => ?_) (fun d => ?_) ?_ fun _ => ?_
    · rw [slot_endOpen, slot_setPhase, frame.slot]
      split
      · rw [mem_streams_endedSlot]
        simp
      · rfl
    · rw [phaseOf_endOpen, ← frame.phaseOf]
      exact setPhase_cases _ _ _ _
    · cases exit <;> exact List.nil_subset _
    · cases exit <;> rfl
  | @miss c i e place | @refuse c i x e place =>
    exact .of_phase (c := c) (p := .finished (.failed e)) (fun _ _ _ => .rfl)
      (fun d => setPhase_cases _ _ _ _) (List.nil_subset _) fun _ => rfl
  | @detach c i x turn place =>
    exact .of_phase (c := c) (p := .finished .done) (fun _ _ _ => .rfl)
      (fun d => setPhase_cases _ _ _ _) (List.nil_subset _) fun _ => rfl
  | last turn place there listed => exact relists_last g turn place listed
  | @sweep c turn place =>
    have hc : c < w.calls.size := w.lt_of_phaseOf c (by simp [place])
    refine .clears (by rw [turn]; rfl) place ?_ fun b k t => ?_
    · rw [phaseOf_sweep, if_pos ⟨rfl, hc⟩]
    · rw [slot_sweep]
      split
      · rename_i he
        simp [Slot.streams, he]
      · rename_i he
        simp [he]

theorem Frame.listed {S : Set StreamId} (f : Frame S w w') (b : BrokerId) :
    w'.listed b = w.listed b := by
  rw [System.listed, System.listed, f.slots]

theorem step_relists (g : w.Sound) (m : Move) : Relists m w (w.step m) := by
  obtain ⟨w₁, w₂, h₁, hc, h₂⟩ := step_books w m
  have f₁ := h₁.frame
  have f₂ := h₂.frame
  cases hc.relists (g.frame f₁) with
  | keeps lists closes given =>
    refine .keeps (fun b k t => ?_) (fun d => ?_) fun d => ?_
    · rw [f₂.slot, lists, f₁.slot]
    · rw [f₂.phaseOf, ← f₁.phaseOf]
      exact closes d
    · rw [f₂.phaseOf, ← f₁.phaseOf]
      exact given d
  | adds actor place next slot lists =>
    refine .adds actor ((f₁.phaseOf _).symm.trans place) ((f₂.phaseOf _).trans next) ?_
      fun b k t => ?_
    · rw [f₂.slot, ← f₁.brokerOf, slot, f₁.slot, (f₁.kin _).sharing]
    · rw [f₂.slot, lists, f₁.slot, f₁.brokerOf]
  | takes actor place next listed lists =>
    rw [f₁.slot, f₁.brokerOf] at listed
    refine .takes actor ((f₁.phaseOf _).symm.trans place) ((f₂.phaseOf _).trans next) listed
      fun b k t => ?_
    rw [f₂.slot, lists, f₁.slot]
  | clears actor place next lists =>
    rw [f₁.listed, f₁.brokerOf] at next
    refine .clears actor ((f₁.phaseOf _).symm.trans place) ((f₂.phaseOf _).trans next)
      fun b k t => ?_
    rw [f₂.slot, lists, f₁.slot, f₁.brokerOf]

/-- An open that comes to a consumer has its stream listed. -/
theorem Sound.registers {a : Acquisition} {moves : List OpenMove} {wait : OpenWait} {i : ConsumerId}
    (g : w.Sound) (place : w.phaseOf d = .opening a s moves wait)
    (next : (w.step m).phaseOf d = .finished (.attached i)) :
    (w.step m).slot (w.brokerOf d) a.key =
      Slot.register { w.slot (w.brokerOf d) a.key with opening := none } s (w.stream s).sharing := by
  have hd : d < w.calls.size := w.lt_of_phaseOf d (by simp [place])
  -- Only the moves of the call itself take it anywhere.
  have actor : m.actor = some d := by
    by_contra hn
    rw [(step_other hd hn).1, place] at next
    cases next
  cases step_relists g m with
  | keeps _ _ given =>
    have none := given d (by rw [place]; rfl)
    rw [next] at none
    cases none
  | adds actor' place' _ slot =>
    obtain rfl := Option.some.inj (actor.symm.trans actor')
    obtain ⟨rfl, rfl, -, -⟩ := Phase.opening.inj (place.symm.trans place')
    exact slot
  | takes actor' place' | clears actor' place' =>
    obtain rfl := Option.some.inj (actor.symm.trans actor')
    rw [place] at place'
    cases place'

end System

end TunerBroker
