import TunerBroker.Proofs.Invariants.Ledger

/-! The ledger along a run: each change of the books keeps it. -/

namespace TunerBroker

namespace System

variable {m : Move} {w w' : System} {b : BrokerId} {k : SourceKey} {c : CallId} {s t : StreamId}
  {i : ConsumerId} {x : Consumer} {q : Standing} {p : Phase}

namespace Ledger

/-- A call begins; a consumer it is to release has been handed over to it alone. -/
theorem addCall (h : w.Ledger) (y : Call)
    (handed : ∀ i, y.phase.releases? = some i →
      (∃ x, w.consumers.get? i = some x ∧ x.standing = .handedOver) ∧
        ∀ c, (w.phaseOf c).releases? ≠ some i)
    (ha : y.phase.attached? = none) (ho : y.phase.opening? = none) : (w.addCall y).Ledger where
  placed := h.placed
  home := h.home
  handed hr := by
    rw [phaseOf_addCall] at hr
    split at hr
    · exact (handed _ hr).1
    · exact h.handed hr
  sole hr hr' := by
    rw [phaseOf_addCall] at hr hr'
    split at hr <;> split at hr'
    · exact (‹_ = _›).trans (‹_ = _› : _ = _).symm
    · exact absurd hr' ((handed _ hr).2 _)
    · exact absurd hr ((handed _ hr').2 _)
    · exact h.sole hr hr'
  receipts := by
    have old : (List.range w.calls.size).filterMap (fun c => ((w.addCall y).phaseOf c).attached?) =
        w.receipts := List.filterMap_congr fun c hc => by
      rw [phaseOf_addCall, if_neg (Nat.ne_of_lt (List.mem_range.1 hc))]
    rw [System.receipts, calls_size_addCall, List.range_succ, List.filterMap_append, old]
    simpa [phaseOf_addCall, ha] using h.receipts
  counted hm := by
    obtain ⟨h₁, h₂⟩ := h.counted hm
    exact ⟨h₁, h₂⟩
  fresh hf := by
    refine h.fresh (hf.imp_right ?_)
    rintro ⟨c, hc⟩
    rw [phaseOf_addCall] at hc
    split at hc
    · simp [ho] at hc
    · exact ⟨c, hc⟩

theorem begin {gated : Bool} {errand : Errand} (h : w.Ledger) (allowed : errand.isAllowed w b) :
    (w.begin b gated errand).Ledger := by
  cases errand with
  | release i =>
    simp only [Errand.isAllowed, Bool.and_eq_true] at allowed
    obtain ⟨-, allowed⟩ := allowed
    split at allowed
    · rename_i x hx
      have held : x.standing = .held := of_decide_eq_true allowed
      have free : ∀ c, (w.phaseOf c).releases? ≠ some i := by
        intro c hr
        obtain ⟨y, hy, hst⟩ := h.handed hr
        obtain rfl : x = y := Option.some.inj (hx.symm.trans hy)
        simp [held] at hst
      refine (h.setStanding (q := .handedOver) hx (by simp [held]) (by rintro ⟨⟩) free).addCall
        { broker := b, gated, phase := .releasing i } (fun j hj => ?_) rfl rfl
      obtain rfl : i = j := Option.some.inj hj
      exact ⟨⟨_, by rw [get?_setStanding, if_pos rfl, hx]; rfl, rfl⟩, free⟩
    · cases allowed
  | _ => exact h.addCall _ (by rintro _ ⟨⟩) rfl rfl

/-- A stream that a slot lists is not fresh. -/
theorem not_fresh (g : w.Custody) (hs : s ∈ (w.slot b k).streams) : ¬ w.Fresh s := by
  rintro (hn | ⟨c, hc⟩)
  · simp [g.unnamed (o := .slot b k) hs] at hn
  · refine g.unlisted (c := c) ?_ b k hs
    cases hp : w.phaseOf c <;> simp_all [Phase.opening?, Phase.holds]

/-- An open begins. -/
theorem beginOpen {a : Acquisition} {y : Slot} (h : w.Ledger) (g : w.Custody)
    (hp : w.phaseOf c = .seeking a) (hy : y.streams ⊆ (w.slot (w.brokerOf c) a.key).streams) :
    (w.beginOpen c a y).Ledger := by
  have phase : ∀ c', (w.beginOpen c a y).phaseOf c' = w.phaseOf c' ∨
      c' = c ∧ (w.beginOpen c a y).phaseOf c' = w.openingPhase a := by
    intro c'
    rw [phaseOf_beginOpen]
    split
    · exact .inr ⟨(‹_› : _ ∧ _).1, rfl⟩
    · exact .inl rfl
  refine h.stay rfl (by simp) (fun c' i hr => ?_) (fun c' => ?_) (fun b k => ?_) (by simp)
    (fun s hs => ?_) (fun b k s hs => g.made (o := .slot b k) hs) fun s hf => ?_
  · rcases phase c' with hq | ⟨rfl, hq⟩ <;> rw [hq] at hr
    · exact hr
    · cases hr
  · rcases phase c' with hq | ⟨rfl, hq⟩ <;> rw [hq]
    rw [hp]
    rfl
  · rw [slot_beginOpen]
    split
    · rename_i he
      rw [he.1, he.2.1]
      exact hy
    · exact fun _ => id
  · rw [stream_beginOpen, if_neg (Nat.ne_of_lt hs)]
    exact ⟨rfl, rfl⟩
  · by_cases hs : s = w.streams.size
    · subst hs
      refine .inr ⟨Nat.le_refl _, ?_⟩
      rw [stream_beginOpen, if_pos rfl]
      rfl
    · have hf : w.Fresh s := by
        rcases hf with hn | ⟨c', hc'⟩
        · rw [stream_beginOpen, if_neg hs] at hn
          exact .inl hn
        · rcases phase c' with hq | ⟨rfl, hq⟩ <;> rw [hq] at hc'
          · exact .inr ⟨c', hc'⟩
          · exact absurd (Option.some.inj hc').symm hs
      exact .inl ⟨Fresh.lt g hf, hf⟩

/-- A consumer leaves its stream with the call that releases it, which goes on to `p`. -/
theorem leave {v : System} (h : w.Ledger) (g : w.Custody) (hp : w.phaseOf c = .releasing i)
    (hx : w.consumers.get? i = some x) (listed : x.stream ∈ (w.slot b k).streams)
    (phase : ∀ c', v.phaseOf c' = if c' = c then p else w.phaseOf c')
    (releases : p.releases? = none) (attached : p.attached? = none) (opening : p.opening? = none)
    (consumers : v.consumers = w.consumers) (size : v.calls.size = w.calls.size)
    (streams : v.streams = w.streams)
    (slots : ∀ b k, (v.slot b k).streams ⊆ (w.slot b k).streams)
    (left : ∀ b k, x.stream ∈ (v.slot b k).streams → (w.stream x.stream).consumers ≠ 0 ∧
      (w.stream x.stream).consumers - 1 ≠ 0) :
    ((v.setStanding i .released).setStream x.stream fun y =>
      { y with consumers := y.consumers - 1 }).Ledger := by
  have stream : ∀ s, v.stream s = w.stream s := fun s => by rw [System.stream, streams]; rfl
  have phase_cases : ∀ c', v.phaseOf c' = w.phaseOf c' ∨ c' = c ∧ v.phaseOf c' = p := by
    intro c'
    rw [phase]
    split
    · exact .inr ⟨‹_›, rfl⟩
    · exact .inl rfl
  have h' : v.Ledger := h.move g consumers size phase_cases releases ⟨by rw [hp]; rfl, attached⟩
    (by simp [opening]) slots (by rw [streams]) fun s => by rw [stream]; exact ⟨rfl, rfl, id⟩
  obtain ⟨y, hy, hst⟩ := h.handed (c := c) (i := i) (by rw [hp]; rfl)
  obtain rfl : x = y := Option.some.inj (hx.symm.trans hy)
  refine h'.countOut (by rw [consumers]; exact hx) (by simp [hst]) (fun c' hr => ?_) (fun hf => ?_)
    (by simpa [stream] using left)
  · rw [phase] at hr
    split at hr
    · simp [releases] at hr
    · rename_i hne
      exact hne (h.sole hr (by rw [hp]; rfl))
  · refine not_fresh g listed ?_
    rcases hf with hn | ⟨c', hc'⟩
    · exact .inl (by rwa [stream] at hn)
    · rw [phase] at hc'
      split at hc'
      · simp [opening] at hc'
      · exact .inr ⟨c', hc'⟩

/-- An open gives its stream, which is listed with its first consumer. -/
theorem register {a : Acquisition} {moves : List OpenMove} {wait : OpenWait} (h : w.Ledger)
    (g : w.Custody) (hp : w.phaseOf c = .opening a s moves wait) :
    (((w.setStream s fun x => { x with consumers := x.consumers + 1 }).endOpen c a.key
      (some s)).attach c s).Ledger := by
  have hc : c < w.calls.size := w.lt_of_phaseOf _ (by simp [hp])
  have hs : s ∈ w.kept (.call c) := by simp [kept, hp, Phase.owns]
  obtain ⟨h₁, h₂⟩ := h.fresh (s := s) (.inr ⟨c, by rw [hp]; rfl⟩)
  have none : w.unreleased s = 0 := Nat.le_zero.1 (h₂ ▸ w.unreleased_le s)
  have count : (w.stream s).consumers.toNat = w.unreleased s % 2 ^ 32 := by
    rw [h₁, none]
    rfl
  have swap : ((w.setStream s fun x => { x with consumers := x.consumers + 1 }).endOpen c a.key
      (some s)).attach c s = ((w.setStream s fun x => { x with consumers := x.consumers + 1 }).attach c
        s).endOpen c a.key (some s) := by
    rw [endOpen_eq, endOpen_eq, brokerOf_attach]
    rfl
  rw [swap]
  refine (h.attach hc (by rw [hp]; rfl) (g.made hs) (fun b k hl => ?_) count (g.unnamed hs)
    fun c' hne ho => ?_).list (tallied_attach (g.made hs) count) fun i x hi hx => ?_
  · cases g.unique hs (q := .slot b k) hl
  · refine hne (Keeper.call.inj (g.unique (o := .call c') ?_ hs))
    cases hq : w.phaseOf c' <;> simp_all [Phase.opening?, kept, Phase.owns]
  · rw [get?_attach] at hi
    split at hi
    · obtain rfl := Option.some.inj hi
      simp [consumerOf]
    · exact absurd (decide_eq_true hx)
        (List.countP_eq_zero.1 h₂ x ((Table.mem_entries_iff _ _).2 ⟨i, hi⟩))

/-- A consumer that is not on its way to a release may be given up or refused. -/
theorem discard (h : w.Ledger) (hx : w.consumers.get? i = some x) (held : x.standing = .held)
    (hst : q ≠ .released) : (w.setStanding i q).Ledger := by
  refine h.setStanding hx (by simp [held]) hst fun c hr => ?_
  obtain ⟨y, hy, hs⟩ := h.handed hr
  obtain rfl : x = y := Option.some.inj (hx.symm.trans hy)
  simp [held] at hs

theorem refuse {e : StreamError} (h : w.Ledger) (g : w.Custody) (hp : w.phaseOf c = .releasing i) :
    ((w.setStanding i .refused).finish c (.failed e)).Ledger := by
  have hc : c < w.calls.size := w.lt_of_phaseOf _ (by simp [hp])
  have h' : (w.setPhase c (.finished (.failed e))).Ledger :=
    h.move g (p := .finished (.failed e)) rfl (by simp) (fun _ => setPhase_cases _ _ _ _) rfl
      ⟨by rw [hp]; rfl, rfl⟩ (by rintro _ ⟨⟩) (fun _ _ _ => id) rfl fun _ => ⟨rfl, rfl, id⟩
  obtain ⟨x, hx, hst⟩ := h.handed (c := c) (i := i) (by rw [hp]; rfl)
  refine h'.setStanding (q := .refused) hx (by simp [hst]) (by rintro ⟨⟩) fun c' hr => ?_
  rw [phaseOf_setPhase] at hr
  split at hr
  · cases hr
  · rename_i hne
    exact hne ⟨h.sole hr (by rw [hp]; rfl), hc⟩

theorem make {r : StreamRequest} {config : BrokerConfig} (h : w.Ledger) (g : w.Sound) :
    (w.addStream { Stream.ofRequest r config with named := true }).Ledger := by
  refine h.stay rfl rfl (fun _ _ => id) (fun _ => rfl) (fun _ _ _ => id) (by simp)
    (fun s hs => by rw [stream_addStream, if_neg (Nat.ne_of_lt hs)]; exact ⟨rfl, rfl⟩)
    (fun b k s hs => g.custody.made (o := .slot b k) hs) fun s hf => ?_
  by_cases hs : s = w.streams.size
  · subst hs
    refine .inr ⟨Nat.le_refl _, ?_⟩
    rw [stream_addStream, if_pos rfl]
    rfl
  · rw [Fresh, stream_addStream, if_neg hs] at hf
    exact .inl ⟨Fresh.lt g.custody hf, hf⟩

theorem letGo (h : w.Ledger) (g : w.Sound) :
    (w.setStream s fun x => { x with named := false }).Ledger := by
  refine h.stay rfl rfl (fun _ _ => id) (fun _ => rfl) (fun _ _ _ => id) (by simp)
    (fun s _ => ?_) (fun b k s hs => g.custody.made (o := .slot b k) hs) fun s hf => ?_
  · rw [stream_setStream]
    split <;> exact ⟨rfl, rfl⟩
  · have hf : w.Fresh s := hf.imp_left fun hn => by
      rw [stream_setStream] at hn
      split at hn
      · cases hn
      · exact hn
    exact .inl ⟨Fresh.lt g.custody hf, hf⟩

/-- An open ends without a stream for the slot. -/
theorem giveUp {a : Acquisition} {moves : List OpenMove} {wait : OpenWait} (h : w.Ledger)
    (g : w.Custody) (hp : w.phaseOf c = .opening a s moves wait) (exit : p.Exit s) :
    ((w.setPhase c p).endOpen c a.key none).Ledger := by
  refine h.move g (c := c) (p := p) rfl (by simp) (fun _ => setPhase_cases _ _ _ _)
    (by cases exit <;> rfl) ⟨by rw [hp]; rfl, by cases exit <;> rfl⟩ (by cases exit <;> rintro _ ⟨⟩)
    (fun b k => ?_) rfl fun _ => ⟨rfl, rfl, id⟩
  rw [slot_endOpen]
  split
  · exact (within_endedSlot _ _ _).subset
  · exact fun _ => id

/-- The last consumer leaves, and the stream is off the list. -/
theorem last {k : ConsumerId} (h : w.Ledger) (g : w.Custody) (turn : m = .turn (.call c))
    (place : w.phaseOf c = .releasing k) (there : w.consumers.get? k = some x)
    (listed : (w.slot (w.brokerOf c) x.key).isRegistered x.stream)
    (alone : (w.stream x.stream).consumers ≠ 0 ∧ (w.stream x.stream).consumers - 1 = 0) :
    ((((w.setStanding k .released).setStream x.stream fun y =>
      { y with consumers := y.consumers - 1 }).putSlot (w.brokerOf c) x.key
        ((w.slot (w.brokerOf c) x.key).deregister x.stream)).setPhase c
          (.tearing x.stream none)).Ledger := by
  have hc : c < w.calls.size := w.lt_of_phaseOf _ (by simp [place])
  have g' := g.change (.last turn place there listed alone)
  refine h.leave g place there ((Slot.isRegistered_iff _ _).1 listed)
    (v := (w.putSlot (w.brokerOf c) x.key
      ((w.slot (w.brokerOf c) x.key).deregister x.stream)).setPhase c (.tearing x.stream none))
    (p := .tearing x.stream none) (fun c' => by simp [phaseOf_setPhase, hc]) rfl rfl rfl rfl
    (by simp) rfl (fun b k' => ?_) fun b k' hl => ?_
  · rw [slot_setPhase, slot_putSlot]
    split
    · rename_i he
      rw [he.1, he.2.1]
      exact (Slot.within_deregister _).subset
    · exact fun _ => id
  · exact absurd hl (g'.unlisted (c := c) (by simp [phaseOf_setPhase, hc, Phase.holds]) b k')

/-- All streams of a broker are taken off the lists. -/
theorem sweep (h : w.Ledger) (g : w.Custody) (place : w.phaseOf c = .sweepStart) :
    (w.sweep c).Ledger := by
  refine h.move g rfl (by simp [System.sweep, setSlots]) (c := c)
    (p := .sweeping none (w.listed (w.brokerOf c)) 0) (fun c' => ?_) rfl
    ⟨by rw [place]; rfl, rfl⟩ (by rintro _ ⟨⟩) (fun b k => ?_) rfl fun _ => ⟨rfl, rfl, id⟩
  · rw [phaseOf_sweep]
    split
    · exact .inr ⟨(‹_› : _ ∧ _).1, rfl⟩
    · exact .inl rfl
  · rw [slot_sweep]
    split
    · simp [Slot.streams]
    · exact fun _ => id

theorem change (h : w.Ledger) (g : w.Sound) (hc : Change m w w') : w'.Ledger := by
  cases hc with
  | stay => exact h
  | begin allowed => exact h.begin allowed
  | make => exact h.make g
  | letGo => exact h.letGo g
  | drop there held => exact h.discard there held (by rintro ⟨⟩)
  | @go c p actor leads idle free =>
    refine h.move g.custody (c := c) (p := p) rfl (by simp) (fun _ => setPhase_cases _ _ _ _)
      leads.releases.2 leads.attached (fun s hs => .inr ⟨c, ?_⟩) (fun _ _ _ => id) rfl
      fun _ => ⟨rfl, rfl, id⟩
    rwa [leads.opening] at hs
  | @work w₁ c s p i j actor work held leads before after =>
    have g₁ := g.custody.frame work.frame
    rw [← work.frame.phaseOf] at leads
    refine (h.frame g.custody work.frame).move g₁ rfl (by simp) (fun _ => setPhase_cases _ _ _ _)
      leads.releases.2 leads.attached (fun s hs => .inr ⟨c, ?_⟩) (fun _ _ _ => id) rfl
      fun _ => ⟨rfl, rfl, id⟩
    rwa [← leads.opening]
  | @provide c a s t moves place free =>
    refine h.move g.custody rfl (by simp) (fun _ => setPhase_cases _ _ _ _) rfl
      ⟨by rw [place]; rfl, rfl⟩ (fun s hs => .inl ?_) (fun _ _ _ => id) (by simp) fun s => ?_
    · obtain rfl : t = s := Option.some.inj hs
      exact ((isFree_iff _ _).1 free).1
    · rw [stream_setPhase, stream_setStream]
      split
      · exact ⟨rfl, rfl, by rintro ⟨⟩⟩
      · exact ⟨rfl, rfl, id⟩
  | demote place shared ended vacant =>
    exact h.beginOpen g.custody place Slot.within_demote.subset
  | demoteJoin place shared ended taken =>
    rw [g.flight.opening_filter] at taken
    simp [(g.flight.order _ _).vacant _ taken] at shared
  | «open» place shared vacant => exact h.beginOpen g.custody place fun _ => id
  | @reuse c a s place shared counted live media =>
    have hs : s ∈ w.kept (.slot (w.brokerOf c) a.key) := (Slot.mem_streams _ _).2 (.inl shared)
    refine h.attach (w.lt_of_phaseOf _ (by simp [place])) (by rw [place]; rfl)
      (g.custody.made hs) (fun b k hl => ?_) (h.counted hs).count (g.custody.unnamed hs)
      fun c' _ ho => not_fresh g.custody hs (.inr ⟨c', ho⟩)
    exact (Keeper.slot.inj (g.custody.unique hs (q := .slot b k) hl)).1
  | @register w₁ c a s moves wait actor place work key connected inside =>
    exact (h.frame g.custody work.frame).register (g.custody.frame work.frame)
      ((work.frame.phaseOf _).trans place)
  | giveUp actor place work exit =>
    exact (h.frame g.custody work.frame).giveUp (g.custody.frame work.frame)
      ((work.frame.phaseOf _).trans place) exit
  | miss place missing =>
    exact h.move g.custody (p := .finished (.failed _)) rfl (by simp)
      (fun _ => setPhase_cases _ _ _ _) rfl ⟨by rw [place]; rfl, rfl⟩ (by rintro _ ⟨⟩)
      (fun _ _ _ => id) rfl fun _ => ⟨rfl, rfl, id⟩
  | refuse place there unfit => exact h.refuse g.custody place
  | @detach c k x turn place there listed others =>
    have hc : c < w.calls.size := w.lt_of_phaseOf _ (by simp [place])
    exact h.leave g.custody place there ((Slot.isRegistered_iff _ _).1 listed)
      (v := w.setPhase c (.finished .done)) (p := .finished .done)
      (fun c' => by simp [phaseOf_setPhase, hc]) rfl rfl rfl rfl (by simp) rfl (fun _ _ _ => id)
      fun _ _ _ => others
  | last turn place there listed alone => exact h.last g.custody turn place there listed alone
  | sweep turn place => exact h.sweep g.custody place

end Ledger

/-! ### Every run -/

theorem ledger_fresh (configs : List BrokerConfig) (desk : AccessDesk) (terms : List TunerTerms) :
    (System.fresh configs desk terms).Ledger where
  placed := by rintro _ _ ⟨⟩
  home := by rintro _ _ _ _ ⟨⟩
  handed := by rintro _ _ ⟨⟩
  sole := by rintro _ _ _ ⟨⟩
  receipts := List.Perm.refl _
  counted hs := absurd ((sound_fresh configs desk terms).custody.made (o := .slot _ _) hs)
    (Nat.not_lt_zero _)
  fresh hf := by
    rcases hf with hn | ⟨c, hc⟩
    · cases hn
    · cases hc

namespace Ledger

theorem step (h : w.Ledger) (g : w.Sound) (m : Move) : (w.step m).Ledger := by
  obtain ⟨w₁, w₂, h₁, hc, h₂⟩ := step_books w m
  replace h₁ := h₁.frame
  have g₁ := g.frame h₁
  exact ((h.frame g.custody h₁).change g₁ hc).frame (g₁.change hc).custody h₂.frame

theorem run (h : w.Ledger) (g : w.Sound) (moves : List Move) : (w.run moves).Ledger := by
  induction moves generalizing w with
  | nil => exact h
  | cons m moves ih => exact ih (h.step g m) (g.step m)

end Ledger

end System

end TunerBroker
