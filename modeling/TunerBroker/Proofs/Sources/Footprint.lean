import TunerBroker.Proofs.Streams.Results

/-! The footprint of a step. A slot changes only with a move of a call that asks for its source, releases
one of the consumers of a stream it lists, or sweeps its broker. What a step adds to the tables is the
doing of the call that moves, and of a stream that the call holds. -/

namespace TunerBroker

namespace System

variable {m : Move} {w w₁ w₂ w' w'' : System} {b : BrokerId} {k : SourceKey} {c d : CallId} {s : StreamId}
  {n : ConnectionId} {i : ConsumerId} {j l : Option Job} {x : Consumer} {S T : Set StreamId}

/-! ### Slots -/

/-- The call may change the slot with its next turn. -/
inductive Minds (w : System) (c : CallId) (b : BrokerId) (k : SourceKey) : Prop where
  | wants {a : Acquisition} (broker : w.brokerOf c = b) (wish : (w.phaseOf c).wish? = some a)
      (key : a.key = k)
  | releases {i : ConsumerId} {x : Consumer} (broker : w.brokerOf c = b)
      (place : w.phaseOf c = .releasing i) (there : w.consumers.get? i = some x)
      (listed : x.stream ∈ (w.slot b k).streams)
  | sweeps (broker : w.brokerOf c = b) (place : w.phaseOf c = .sweepStart)

theorem Minds.frame (h : w'.Minds c b k) (g : Frame S w w') : w.Minds c b k := by
  cases h with
  | wants broker wish key => exact .wants (g.brokerOf c ▸ broker) (g.phaseOf c ▸ wish) key
  | releases broker place there listed =>
    exact .releases (g.brokerOf c ▸ broker) (g.phaseOf c ▸ place) (g.consumers ▸ there)
      (g.slot b k ▸ listed)
  | sweeps broker place => exact .sweeps (g.brokerOf c ▸ broker) (g.phaseOf c ▸ place)

theorem Change.slot (hc : Change m w w') (b : BrokerId) (k : SourceKey) :
    w'.slot b k = w.slot b k ∨ ∃ c, m.actor = some c ∧ w.Minds c b k := by
  -- Where a slot is put, the call that puts it minds it.
  have put : ∀ {y : Slot} {b' : BrokerId} {k' : SourceKey} {P : Prop} [Decidable P] {z : Slot} {c : CallId},
      y = w.slot b k → m.actor = some c → w.Minds c b' k' →
      (if b = b' ∧ k = k' ∧ P then z else y) = w.slot b k ∨ ∃ c, m.actor = some c ∧ w.Minds c b k := by
    intro y b' k' P _ z c hy actor minds
    split
    · rename_i he
      obtain ⟨rfl, rfl, -⟩ := he
      exact .inr ⟨c, actor, minds⟩
    · exact .inl hy
  cases hc with
  | stay | make | letGo | drop | go | provide | reuse | miss | refuse | detach => exact .inl rfl
  | begin => exact .inl (by rw [slot_begin])
  | work actor work => exact .inl (work.frame.slot b k)
  | demote place shared ended vacant actor | «open» place shared vacant actor =>
    rw [slot_beginOpen]
    exact put rfl actor (.wants rfl (by rw [place]; rfl) rfl)
  | demoteJoin place shared ended taken actor =>
    rw [slot_setPhase, slot_putSlot]
    exact put rfl actor (.wants rfl (by rw [place]; rfl) rfl)
  | register actor place work =>
    rw [slot_attach, slot_endOpen, slot_setStream, brokerOf_setStream, work.frame.brokerOf]
    exact put (work.frame.slot b k) actor (.wants rfl (by rw [place]; rfl) rfl)
  | giveUp actor place work =>
    rw [slot_endOpen, slot_setPhase, brokerOf_setPhase, work.frame.brokerOf]
    exact put (work.frame.slot b k) actor (.wants rfl (by rw [place]; rfl) rfl)
  | last turn place there listed =>
    rw [slot_setPhase, slot_putSlot]
    exact put rfl (by rw [turn]; rfl) (.releases rfl place there ((Slot.isRegistered_iff _ _).1 listed))
  | @sweep c turn place =>
    rw [slot_sweep]
    split
    · rename_i he
      exact .inr ⟨c, by rw [turn]; rfl, .sweeps he.symm place⟩
    · exact .inl rfl

/-- A slot changes only with a move of a call that minds it. -/
theorem step_slot (w : System) (m : Move) (b : BrokerId) (k : SourceKey) :
    (w.step m).slot b k = w.slot b k ∨ ∃ c, m.actor = some c ∧ w.Minds c b k := by
  obtain ⟨w₁, w₂, h₁, hc, h₂⟩ := step_books w m
  rw [h₂.frame.slot, ← h₁.frame.slot]
  exact (hc.slot b k).imp_right fun ⟨c, actor, minds⟩ => ⟨c, actor, minds.frame h₁.frame⟩

/-! ### Consumers -/

/-- The move is about the consumer. -/
inductive Handles (w : System) (i : ConsumerId) : Move → Prop where
  | drops : Handles w i (.dropConsumer i)
  | hands (b : BrokerId) (gated : Bool) : Handles w i (.start b gated (.release i))
  | releases {m : Move} {c : CallId} (actor : m.actor = some c) (place : w.phaseOf c = .releasing i) :
      Handles w i m

theorem Change.consumers (hc : Change m w w') (there : i < w.consumers.size) :
    w'.consumers.get? i = w.consumers.get? i ∨ w.Handles i m := by
  have stand : ∀ {j q}, (i = j → w.Handles i m) →
      (w.setStanding j q).consumers.get? i = w.consumers.get? i ∨ w.Handles i m := by
    intro j q handles
    rw [get?_setStanding]
    split
    · exact .inr (handles ‹_›)
    · exact .inl rfl
  have attach : ∀ {v : System} {c : CallId} {t : StreamId}, v.consumers = w.consumers →
      (v.attach c t).consumers.get? i = w.consumers.get? i ∨ w.Handles i m := by
    intro v c t hv
    rw [Ledger.get?_attach, hv, if_neg (Nat.ne_of_lt there)]
    exact .inl rfl
  cases hc with
  | stay | make | letGo | go | provide | demote | demoteJoin | «open» | miss | sweep => exact .inl rfl
  | @begin b gated errand allowed start =>
    cases errand with
    | release j =>
      refine stand (j := j) (q := .handedOver) ?_
      rintro rfl
      exact start ▸ .hands b gated
    | _ => exact .inl rfl
  | drop there held move =>
    refine stand ?_
    rintro rfl
    exact move ▸ .drops
  | work actor work => exact .inl (by rw [work.frame.consumers.symm]; rfl)
  | giveUp actor place work => exact .inl (by rw [work.frame.consumers.symm]; rfl)
  | reuse => exact attach rfl
  | register actor place work => exact attach work.frame.consumers
  | refuse place there unfit actor =>
    refine stand ?_
    rintro rfl
    exact .releases actor place
  | detach turn place | last turn place =>
    refine stand ?_
    rintro rfl
    exact .releases (by rw [turn]; rfl) place

/-- A call that moves is given a new consumer of the source it asks for. -/
structure Gains (w w' : System) (c : CallId) : Prop where
  wish : ∃ a, (w.phaseOf c).wish? = some a ∧ ∃ x, w'.consumers.get? w.consumers.size = some x ∧
    x.broker = w.brokerOf c ∧ x.key = a.key
  size : w'.consumers.size = w.consumers.size + 1

theorem gains_attach {v : System} {a : Acquisition} (consumers : v.consumers = w.consumers)
    (broker : v.brokerOf c = w.brokerOf c) (wish : (w.phaseOf c).wish? = some a)
    (key : (v.stream s).key = a.key) : w.Gains (v.attach c s) c := by
  refine ⟨⟨a, wish, Ledger.consumerOf v c s, ?_, broker, key⟩, ?_⟩
  · rw [Ledger.get?_attach, if_pos (by rw [consumers])]
  · rw [← consumers]
    exact Table.size_add _ _

theorem Change.newConsumer (hc : Change m w w') (g : w.Sound) :
    w'.consumers.size = w.consumers.size ∨ ∃ c, m.actor = some c ∧ w.Gains w' c := by
  have standing : ∀ {j q}, (w.setStanding j q).consumers.size = w.consumers.size := Table.size_update _ _ _
  cases hc with
  | stay | make | letGo | go | provide | demote | demoteJoin | «open» | miss | sweep => exact .inl rfl
  | @begin b gated errand =>
    cases errand with
    | release i => exact .inl standing
    | _ => exact .inl rfl
  | drop | refuse | detach | last => exact .inl standing
  | work actor work => exact .inl (congrArg Table.size work.frame.consumers)
  | giveUp actor place work => exact .inl (congrArg Table.size work.frame.consumers)
  | @reuse c a s place shared counted live media actor =>
    refine .inr ⟨c, actor, gains_attach rfl rfl (a := a) (by rw [place]; rfl) ?_⟩
    rw [Ledger.key_setConsumers]
    exact ((g.flight.order _ _).connected s ((Slot.mem_streams _ _).2 (.inl shared))).2
  | @register w₁ c a s moves wait actor place work key =>
    refine .inr ⟨c, actor, gains_attach work.frame.consumers ?_ (a := a) (by rw [place]; rfl) ?_⟩
    · rw [brokerOf_endOpen, brokerOf_setStream, work.frame.brokerOf]
    · rw [stream_endOpen, Ledger.key_setConsumers]
      exact key

/-- A consumer changes only with a move about it. -/
theorem step_consumer (m : Move) (there : i < w.consumers.size) :
    (w.step m).consumers.get? i = w.consumers.get? i ∨ w.Handles i m := by
  obtain ⟨w₁, w₂, h₁, hc, h₂⟩ := step_books w m
  rw [← h₁.frame.consumers] at there
  rw [h₂.frame.consumers, ← h₁.frame.consumers]
  refine (hc.consumers there).imp_right fun handles => ?_
  cases handles with
  | drops => exact .drops
  | hands b gated => exact .hands b gated
  | releases actor place => exact .releases actor (h₁.frame.phaseOf _ ▸ place)

/-- A new consumer is given to the call that moves. -/
theorem Sound.newConsumer (g : w.Sound) (m : Move) : (w.step m).consumers.size = w.consumers.size ∨
    ∃ c, m.actor = some c ∧ w.Gains (w.step m) c := by
  obtain ⟨w₁, w₂, h₁, hc, h₂⟩ := step_books w m
  rw [h₂.frame.consumers, ← h₁.frame.consumers]
  refine (hc.newConsumer (g.frame h₁.frame)).imp_right fun ⟨c, actor, ⟨a, wish, x, hx, broker, key⟩, size⟩ =>
    ⟨c, actor, ⟨a, h₁.frame.phaseOf c ▸ wish, x, ?_, h₁.frame.brokerOf c ▸ broker, key⟩, ?_⟩
  · rw [h₂.frame.consumers, ← h₁.frame.consumers]
    exact hx
  · rw [h₂.frame.consumers, ← h₁.frame.consumers]
    exact size

/-- A release that goes on to close a stream has taken that of its consumer off the list. -/
theorem Change.tears (hc : Change m w w') {stage : Option CloseStage} (place : w.phaseOf c = .releasing i)
    (next : w'.phaseOf c = .tearing s stage) : ∃ x, w.consumers.get? i = some x ∧ x.stream = s ∧
      s ∈ (w.slot (w.brokerOf c) x.key).streams := by
  have still : w'.phaseOf c ≠ w.phaseOf c := fun same => by
    rw [same, place] at next
    cases next
  have moved : ∀ {v : System} {d : CallId} {p : Phase}, w'.phaseOf c = (v.setPhase d p).phaseOf c →
      v.phaseOf c = w.phaseOf c → c = d ∧ p = .tearing s stage := by
    intro v d p hw hv
    rcases v.setPhase_cases d c p with same | ⟨rfl, goes⟩
    · exact absurd (hw.trans (same.trans hv)) still
    · exact ⟨rfl, goes.symm.trans (hw.symm.trans next)⟩
  have releasing : ∀ {d : CallId} {p : Phase}, c = d → ¬ (w.phaseOf d).Leads p := by
    rintro d p rfl leads
    have releases := leads.releases.1
    rw [place] at releases
    cases releases
  cases hc with
  | stay | make | letGo | drop => exact absurd rfl still
  | begin =>
    rw [phaseOf_begin] at next still
    split at next
    · rename_i errand _ _ _
      cases errand <;> cases next
    · exact absurd (if_neg ‹_›) still
  | go actor leads => exact absurd leads (releasing (moved rfl rfl).1)
  | work actor work held leads => exact absurd leads (releasing (moved rfl (work.frame.phaseOf c)).1)
  | provide | miss | refuse | detach | demoteJoin | sweep => cases (moved rfl rfl).2
  | demote | «open» => cases (moved (v := System.addStream _ _) rfl rfl).2
  | reuse => cases (moved (v := (w.setStream _ _).addConsumer _) rfl rfl).2
  | register actor place' work =>
    cases (moved (v := ((System.setStream _ _ _).endOpen _ _ _).addConsumer _) rfl
      (work.frame.phaseOf c)).2
  | giveUp actor place' work exit =>
    have hq := (moved rfl (work.frame.phaseOf c)).2
    cases exit <;> cases hq
  | @last d j x turn place' there listed =>
    obtain ⟨rfl, hp⟩ := moved rfl rfl
    cases place.symm.trans place'
    cases hp
    exact ⟨x, there, rfl, (Slot.isRegistered_iff _ _).1 listed⟩

theorem step_tears (m : Move) {stage : Option CloseStage} (place : w.phaseOf c = .releasing i)
    (next : (w.step m).phaseOf c = .tearing s stage) : ∃ x, w.consumers.get? i = some x ∧ x.stream = s ∧
      s ∈ (w.slot (w.brokerOf c) x.key).streams := by
  obtain ⟨w₁, w₂, h₁, hc, h₂⟩ := step_books w m
  rw [h₂.frame.phaseOf] at next
  rw [← h₁.frame.phaseOf] at place
  simpa only [h₁.frame.consumers, h₁.frame.slot, h₁.frame.brokerOf] using hc.tears place next

/-! ### Calls and streams -/

/-- With a move one call begins at most. -/
theorem step_newCall (w : System) (m : Move) : (w.step m).calls.size = w.calls.size ∨
    (∃ b gated x, m = .start b gated x) ∧ (w.step m).calls.size = w.calls.size + 1 := by
  rcases w.step_course m with ⟨d, -, p, ticks, x, -, adv⟩ | ⟨b, gated, errand, hm, -, he⟩ | ⟨-, h⟩
  · exact .inl adv.calls
  · exact .inr ⟨⟨b, gated, errand, hm⟩, by rw [he, calls_begin, calls_size_addCall]⟩
  · exact .inl h.calls

theorem Change.newStream (hc : Change m w w') : w'.streams.size = w.streams.size ∨
    w'.streams.size = w.streams.size + 1 ∧ ((∃ r config, m = .make r config) ∨
      ∃ c, m.actor = some c ∧ w.streams.size ∈ (w'.phaseOf c).owns) := by
  have begun : ∀ {c : CallId} {a : Acquisition} {y : Slot}, m.actor = some c → w.phaseOf c = .seeking a →
      (w.beginOpen c a y).streams.size = w.streams.size + 1 ∧ ((∃ r config, m = .make r config) ∨
        ∃ d, m.actor = some d ∧ w.streams.size ∈ ((w.beginOpen c a y).phaseOf d).owns) := by
    intro c a y actor place
    refine ⟨streams_size_beginOpen .., .inr ⟨c, actor, ?_⟩⟩
    rw [phaseOf_beginOpen, if_pos ⟨rfl, w.lt_of_phaseOf c (by simp [place])⟩]
    exact List.mem_singleton_self _
  cases hc with
  | stay | drop | go | demoteJoin | miss | refuse | sweep => exact .inl rfl
  | begin => exact .inl (by rw [streams_begin])
  | make move => exact .inr ⟨streams_size_addStream _ _, .inl ⟨_, _, move⟩⟩
  | letGo | provide | reuse | detach | last => exact .inl (streams_size_setStream _ _ _)
  | work actor work => exact .inl work.frame.streams
  | giveUp actor place work => exact .inl work.frame.streams
  | register actor place work => exact .inl ((streams_size_setStream _ _ _).trans work.frame.streams)
  | demote place shared ended vacant actor | «open» place shared vacant actor =>
    exact .inr (begun actor place)

/-- A new stream is made by the move, or is that of the call that moves. -/
theorem step_newStream (w : System) (m : Move) : (w.step m).streams.size = w.streams.size ∨
    (w.step m).streams.size = w.streams.size + 1 ∧ ((∃ r config, m = .make r config) ∨
      ∃ c, m.actor = some c ∧ w.streams.size ∈ ((w.step m).phaseOf c).owns) := by
  obtain ⟨w₁, w₂, h₁, hc, h₂⟩ := step_books w m
  simpa only [h₂.frame.streams, h₂.frame.phaseOf, h₁.frame.streams] using hc.newStream

/-! ### Connections -/

/-- The tuner is asked for streams in `S` only; it treats each new connection as is next on its list. -/
structure Asks (S : Set StreamId) (w w' : System) : Prop where
  keeps : KeepsTerms w w'
  size : w.connections.size ≤ w'.connections.size
  terms : w'.terms = w.terms.drop (w'.connections.size - w.connections.size)
  place : ∀ n x, w.connections.get? n = none → w'.connections.get? n = some x → x.stream ∈ S

namespace Asks

theorem of_keeps (h : KeepsTerms w w') (size : w'.connections.size = w.connections.size)
    (terms : w'.terms = w.terms) : Asks S w w' where
  keeps := h
  size := size.ge
  terms := by rw [size, Nat.sub_self, terms, List.drop_zero]
  place n x hn hx := by
    rw [Table.get?_eq_none_iff, ← size, ← Table.get?_eq_none_iff, hx] at hn
    cases hn

theorem refl (w : System) : Asks S w w := .of_keeps (.refl w) rfl rfl

theorem trans (h : Asks S w w') (g : Asks S w' w'') : Asks S w w'' where
  keeps := h.keeps.trans g.keeps
  size := h.size.trans g.size
  terms := by
    have := h.size
    have := g.size
    rw [g.terms, h.terms, List.drop_drop]
    congr 1
    omega
  place n x hn hx := by
    cases hy : w'.connections.get? n with
    | none => exact g.place n x hy hx
    | some y =>
      obtain ⟨z, hz, same, -⟩ := g.keeps n y hy
      rw [hx] at hz
      cases hz
      exact same ▸ h.place n y hn hy

theorem mono (h : Asks S w w') (hST : S ⊆ T) : Asks T w w' :=
  { h with place := fun n x hn hx => hST (h.place n x hn hx) }

/-- What changes is neither the connections nor what the tuner has in store. -/
theorem eq (h : Asks S w w') (connections : w''.connections = w'.connections)
    (terms : w''.terms = w'.terms) : Asks S w w'' :=
  h.trans (.of_keeps (.of_eq connections) (congrArg Table.size connections) terms)

theorem setLink (h : Asks S w w') (n : ConnectionId) (l : LinkState) : Asks S w (w'.setLink n l) :=
  h.trans (.of_keeps ((KeepsTerms.refl w').setLink n l) (Table.size_update _ _ _) rfl)

theorem ask (w : System) (s : StreamId) : Asks {s} w (w.ask s) where
  keeps := .ask w s
  size := by
    show w.connections.size ≤ (w.connections.add _).size
    rw [Table.size_add]
    exact Nat.le_succ _
  terms := by
    show w.terms.tail = w.terms.drop ((w.connections.add _).size - w.connections.size)
    rw [Table.size_add, Nat.add_sub_cancel_left, List.drop_one]
  place n x hn hx := by
    have there : (w.connections.add { stream := s, terms := w.terms.headD {} }).get? n = some x := hx
    rw [Table.get?_add, hn] at there
    split at there
    · rw [← Option.some.inj there]
      exact Set.mem_singleton s
    · cases there

theorem detachPump (h : Asks S w w') (s : StreamId) : Asks S w (w'.detachPump s) := by
  have marked : Asks S w (w'.setStream s fun x => { x with stopping := true, detached := true }) :=
    h.eq rfl rfl
  simp only [System.detachPump]
  split
  · exact (marked.eq rfl rfl).setLink _ _ |>.eq rfl rfl
  · exact marked.eq rfl rfl
  · exact marked

theorem endPump (h : Asks S w w') (s : StreamId) (n : ConnectionId) : Asks S w (w'.endPump s n) := by
  simp only [System.endPump]
  split
  · exact (h.eq rfl rfl).setLink n .dropped |>.eq rfl rfl
  · exact h.eq rfl rfl

end Asks

theorem Drift.asks (h : Drift m w w') : Asks S w w' := by
  induction h with
  | @still w w' h => exact (Asks.refl w).eq h.connections h.terms
  | trans _ _ ih₁ ih₂ => exact ih₁.trans ih₂
  | push => exact (Asks.refl _).eq rfl rfl
  | stop => exact (Asks.refl _).endPump _ _
  | @crash w s n message => exact ((Asks.refl w).eq rfl rfl).setLink n .dropped |>.eq rfl rfl
  | lose => exact (Asks.refl _).detachPump _

theorem Work.asks (h : Work m s j l w w') : Asks {s} w w' := by
  induction h with
  | drift h => exact h.asks
  | trans _ _ ih₁ ih₂ => exact ih₁.trans ih₂
  | ask => exact .ask _ _
  | connect | fail | shut => exact ((Asks.refl _).setLink _ _).eq rfl rfl
  | forsake => exact (Asks.refl _).setLink _ _
  | void | halt | bury => exact (Asks.refl _).eq rfl rfl
  | @collect w n due => exact ((Asks.refl w).eq rfl rfl).setLink n .shutting |>.eq rfl rfl
  | leave => exact (Asks.refl _).detachPump _
  | quit => exact .refl _

theorem Change.asks (hc : Change m w w') :
    Asks {s | ∃ c, m.actor = some c ∧ s ∈ (w.phaseOf c).holds} w w' := by
  have works : ∀ {v : System} {t : StreamId} {c : CallId}, Asks {t} w v → m.actor = some c →
      t ∈ (w.phaseOf c).holds → Asks {s | ∃ c, m.actor = some c ∧ s ∈ (w.phaseOf c).holds} w v := by
    intro v t c h actor held
    refine h.mono fun s hs => ⟨c, actor, ?_⟩
    rwa [Set.mem_singleton_iff.1 hs]
  cases hc with
  | @begin b gated errand => cases errand <;> exact (Asks.refl w).eq rfl rfl
  | work actor work held => exact (works work.asks actor held).eq rfl rfl
  | register actor place work =>
    exact (works work.asks actor (by simp [place, Phase.holds])).eq rfl rfl
  | giveUp actor place work =>
    exact (works work.asks actor (by simp [place, Phase.holds])).eq rfl rfl
  | _ => exact (Asks.refl w).eq rfl rfl

/-- The tuner is asked for streams that the call holds that moves. -/
theorem step_asks (w : System) (m : Move) :
    Asks {s | ∃ c, m.actor = some c ∧ s ∈ (w.phaseOf c).holds} w (w.step m) := by
  obtain ⟨w₁, w₂, h₁, hc, h₂⟩ := step_books w m
  have asks := hc.asks
  simp only [h₁.frame.phaseOf] at asks
  exact (h₁.asks.trans asks).trans h₂.asks

/-- What the tuner still has in store after a run. -/
theorem terms_run (w : System) (moves : List Move) :
    (w.run moves).terms = w.terms.drop ((w.run moves).connections.size - w.connections.size) := by
  suffices Asks Set.univ w (w.run moves) from this.terms
  induction moves generalizing w with
  | nil => exact .refl w
  | cons m moves ih => exact ((w.step_asks m).mono (Set.subset_univ _)).trans (ih (w.step m))

end System

end TunerBroker
