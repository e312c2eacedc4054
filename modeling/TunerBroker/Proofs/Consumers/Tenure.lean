import TunerBroker.Proofs.Steps.Course
import TunerBroker.Proofs.Consumers.Discharge

/-! How long a consumer stays attached. A consumer that a call is given is attached to a stream that is
listed at its broker, under its key; and it stays attached until it is released to that broker, unless
a sweep takes its stream off the list. -/

namespace TunerBroker

namespace System

variable {m : Move} {w w' : System} {b : BrokerId} {k : SourceKey} {c : CallId} {s : StreamId}
  {i : ConsumerId} {x : Consumer}

/-- In the course of the run a sweep of the broker takes the stream off the list. -/
def IsSwept (w : System) (moves : List Move) (b : BrokerId) (s : StreamId) : Prop :=
  ∃ early c late, moves = early ++ .turn (.call c) :: late ∧ (w.run early).brokerOf c = b ∧
    (w.run early).phaseOf c = .sweepStart ∧ ∃ k, s ∈ (w.run early).listedAt b k

theorem IsSwept.append {moves : List Move} (h : w.IsSwept moves b s) (later : List Move) :
    w.IsSwept (moves ++ later) b s := by
  obtain ⟨early, c, late, rfl, swept⟩ := h
  exact ⟨early, c, late ++ later, by simp, swept⟩

/-- A stream that was swept is on no list any more. -/
theorem IsSwept.unlisted {moves : List Move} (h : w.IsSwept moves b s) (l : w.Ledger) (g : w.Sound)
    (b' : BrokerId) (k' : SourceKey) : s ∉ ((w.run moves).slot b' k').streams := by
  obtain ⟨early, c, late, rfl, rfl, place, k, listed⟩ := h
  have l₁ := l.run g early
  have g₁ := g.run early
  have spent := spent_of_sweep l₁ g₁ place listed
  rw [run_append]
  exact (spent.run (l₁.step g₁ _) (g₁.step _) late).1.unlisted b' k'

/-! ### Newcomers -/

theorem attached_attach (there : (w.attach c s).consumers.get? i = some x)
    (new : w.consumers.size ≤ i) (listed : s ∈ (w.slot (w.brokerOf c) (w.stream s).key).streams) :
    (w.attach c s).Attached i x.broker x.key x.stream := by
  have hx := there
  rw [Ledger.get?_attach] at hx
  split at hx
  · obtain rfl := Option.some.inj hx
    exact ⟨⟨_, there, rfl, by rintro ⟨⟩⟩, listed⟩
  · rw [(Table.get?_eq_none_iff _ _).2 new] at hx
    cases hx

/-- A consumer comes to be only where the stream on offer is given to a call that looks at the slot, and
where an open gives its stream. -/
theorem Change.attaches (hc : Change m w w') (new : w.consumers.size ≤ i)
    (there : w'.consumers.get? i = some x) :
    (∃ c a s, w.phaseOf c = .seeking a ∧ (w.slot (w.brokerOf c) a.key).shared = some s ∧
      (w.stream s).isLive ∧
      w' = (w.setStream s fun y => { y with consumers := y.consumers + 1 }).attach c s) ∨
    ∃ w₁ c a s moves wait, w.phaseOf c = .opening a s moves wait ∧ Frame {s} w w₁ ∧
      (w₁.stream s).key = a.key ∧ w' = ((w₁.setStream s fun y =>
        { y with consumers := y.consumers + 1 }).endOpen c a.key (some s)).attach c s := by
  have none : w.consumers.get? i = none := (Table.get?_eq_none_iff _ _).2 new
  have same : ∀ {v : System}, v.consumers = w.consumers → v.consumers.get? i ≠ some x := by
    intro v hv hx
    rw [hv, none] at hx
    cases hx
  have standing : ∀ {j q}, (w.setStanding j q).consumers.get? i ≠ some x := by
    intro j q hx
    rw [get?_setStanding, none] at hx
    split at hx <;> cases hx
  cases hc with
  | stay | make | letGo | go | provide | demote | demoteJoin | «open» | miss | sweep =>
    exact absurd there (same rfl)
  | @begin b gated errand =>
    cases errand with
    | release j => exact absurd there (standing (j := j) (q := .handedOver))
    | _ => exact absurd there (same rfl)
  | drop | refuse | detach | last => exact absurd there standing
  | work actor work => exact absurd there (same work.frame.consumers)
  | giveUp actor place work => exact absurd there (same work.frame.consumers)
  | reuse place shared counted live => exact .inl ⟨_, _, _, place, shared, live, rfl⟩
  | register actor place work key =>
    exact .inr ⟨_, _, _, _, _, _, place, work.frame, key, rfl⟩

/-- A consumer that was not there before is attached. -/
theorem Change.newcomer (hc : Change m w w') (g : w.Sound) (new : w.consumers.size ≤ i)
    (there : w'.consumers.get? i = some x) : w'.Attached i x.broker x.key x.stream := by
  rcases hc.attaches new there with ⟨c, a, s, place, shared, -, rfl⟩ |
    ⟨w₁, c, a, s, moves, wait, place, frame, key, rfl⟩
  · have listed : s ∈ (w.slot (w.brokerOf c) a.key).streams := (Slot.mem_streams _ _).2 (.inl shared)
    refine attached_attach there new ?_
    rw [Ledger.key_setConsumers, ((g.flight.order _ _).connected s listed).2]
    exact listed
  · refine attached_attach there (frame.consumers ▸ new) ?_
    rw [stream_endOpen, Ledger.key_setConsumers, key]
    refine mem_streams_endOpen (w₁.setStream s _) a.key c s ?_
    rw [brokerOf_setStream, brokers_setStream, frame.brokerOf, frame.brokers]
    exact g.flight.seated c (by rw [place]; rfl)

theorem Sound.newcomer (g : w.Sound) (m : Move) (new : w.consumers.size ≤ i)
    (there : (w.step m).consumers.get? i = some x) :
    (w.step m).Attached i x.broker x.key x.stream := by
  obtain ⟨w₁, w₂, h₁, hc, h₂⟩ := step_books w m
  rw [h₂.frame.consumers] at there
  rw [← h₁.frame.consumers] at new
  exact (hc.newcomer (g.frame h₁.frame) new there).frame h₂.frame

/-! ### The calls that consumers were given to -/

/-- A call that was given a consumer was given one of its own broker. -/
def Credited (w : System) : Prop :=
  ∀ c i, (w.phaseOf c).attached? = some i → ∃ x, w.consumers.get? i = some x ∧ x.broker = w.brokerOf c

/-- A stream attached to a call is attached to that call only, by a new consumer. -/
theorem credits_attach {v : System} {d : CallId} {a : Acquisition} (phases : v.phaseOf c = w.phaseOf c)
    (consumers : v.consumers = w.consumers) (wish : (w.phaseOf d).wish? = some a)
    (key : (v.stream s).key = a.key) (hi : ((v.attach d s).phaseOf c).attached? = some i) :
    (w.phaseOf c).attached? = some i ∨ w.consumers.size ≤ i ∧
      ∃ x, (v.attach d s).consumers.get? i = some x ∧ x.broker = (v.attach d s).brokerOf c ∧
        ∀ a, (w.phaseOf c).wish? = some a → x.key = a.key := by
  rw [phaseOf_attach] at hi
  split at hi
  · rename_i hcd
    obtain ⟨rfl, -⟩ := hcd
    obtain rfl : v.consumers.size = i := Option.some.inj hi
    refine .inr ⟨consumers ▸ Nat.le_refl _, _, by rw [Ledger.get?_attach, if_pos rfl], ?_, fun a' ha => ?_⟩
    · rw [brokerOf_attach]
      rfl
    · rw [wish] at ha
      exact key.trans (congrArg (·.key) (Option.some.inj ha))
  · rw [phases] at hi
    exact .inl hi

/-- A call that is given a consumer is given a new one, of its own broker and of the key it asks for. -/
theorem Change.credits (hc : Change m w w') (g : w.Sound) (hi : (w'.phaseOf c).attached? = some i) :
    (w.phaseOf c).attached? = some i ∨ w.consumers.size ≤ i ∧
      ∃ x, w'.consumers.get? i = some x ∧ x.broker = w'.brokerOf c ∧
        ∀ a, (w.phaseOf c).wish? = some a → x.key = a.key := by
  have moved : ∀ {v : System} {d : CallId} {p : Phase}, v.phaseOf c = w.phaseOf c → p.attached? = none →
      (v.setPhase d p).phaseOf c = w'.phaseOf c → (w.phaseOf c).attached? = some i := by
    intro v d p hv hp he
    rw [← he] at hi
    exact (attached_setPhase hv hi).resolve_right fun h => by simp [hp] at h
  cases hc with
  | stay | make | letGo | drop => exact .inl hi
  | @begin b gated errand =>
    rw [phaseOf_begin] at hi
    split at hi
    · cases errand <;> cases hi
    · exact .inl hi
  | go actor leads => exact .inl (moved rfl leads.attached.2 rfl)
  | work actor work held leads => exact .inl (moved (work.frame.phaseOf c) leads.attached.2 rfl)
  | provide | demoteJoin | miss | refuse | detach | last | sweep => exact .inl (moved rfl rfl rfl)
  | demote | «open» => exact .inl (moved (v := (w.putSlot _ _ _).addStream _) rfl rfl rfl)
  | giveUp actor place work exit =>
    exact .inl (moved (work.frame.phaseOf c) (by cases exit <;> rfl) rfl)
  | @reuse d a s place shared =>
    have listed : s ∈ (w.slot (w.brokerOf d) a.key).streams := (Slot.mem_streams _ _).2 (.inl shared)
    refine credits_attach (v := w.setStream s _) (a := a) rfl rfl (by rw [place]; rfl) ?_ hi
    rw [Ledger.key_setConsumers]
    exact ((g.flight.order _ _).connected s listed).2
  | @register w₁ d a s moves wait actor place work key =>
    refine credits_attach (v := (w₁.setStream s _).endOpen d a.key (some s)) (a := a)
      (work.frame.phaseOf c) work.frame.consumers (by rw [place]; rfl) ?_ hi
    rw [stream_endOpen, Ledger.key_setConsumers]
    exact key

/-- A call that is given a consumer with a move is given one that is attached under its key. -/
theorem Sound.given (g : w.Sound) (m : Move) {a : Acquisition} (wish : (w.phaseOf c).wish? = some a)
    (hi : ((w.step m).phaseOf c).attached? = some i) :
    ∃ x, (w.step m).consumers.get? i = some x ∧
      (w.step m).Attached i ((w.step m).brokerOf c) a.key x.stream := by
  have unattached : (w.phaseOf c).attached? ≠ some i := fun hn => by
    generalize w.phaseOf c = p at hn wish
    cases p with
    | finished => cases wish
    | _ => cases hn
  obtain ⟨w₁, w₂, h₁, hc, h₂⟩ := step_books w m
  rw [h₂.frame.phaseOf] at hi
  rw [← h₁.frame.phaseOf] at wish unattached
  have g₁ := g.frame h₁.frame
  obtain ⟨new, x, hx, broker, key⟩ := (hc.credits g₁ hi).resolve_left unattached
  have attached := (hc.newcomer g₁ new hx).frame h₂.frame
  rw [broker, key a wish, ← h₂.frame.brokerOf] at attached
  exact ⟨x, by rw [h₂.frame.consumers]; exact hx, attached⟩

namespace Credited

theorem step (h : w.Credited) (l : w.Ledger) (g : w.Sound) (m : Move) : (w.step m).Credited := by
  intro c i hi
  by_cases old : (w.phaseOf c).attached? = some i
  · have lt : c < w.calls.size := w.lt_of_phaseOf c fun hn => by simp [hn, Phase.attached?] at old
    obtain ⟨x, hx, broker⟩ := h c i old
    obtain ⟨y, hy, follows⟩ := consumer_step l g m hx
    exact ⟨y, hy, by rw [follows.broker, broker, (step_keeps lt m).2]⟩
  · obtain ⟨w₁, w₂, h₁, hc, h₂⟩ := step_books w m
    rw [h₂.frame.phaseOf] at hi
    rw [← h₁.frame.phaseOf] at old
    rw [h₂.frame.consumers, h₂.frame.brokerOf]
    obtain ⟨-, x, hx, broker, -⟩ := (hc.credits (g.frame h₁.frame) hi).resolve_left old
    exact ⟨x, hx, broker⟩

theorem run (h : w.Credited) (l : w.Ledger) (g : w.Sound) (moves : List Move) :
    (w.run moves).Credited := by
  induction moves generalizing w with
  | nil => exact h
  | cons m moves ih => exact ih (h.step l g m) (l.step g m) (g.step m)

end Credited

theorem credited_fresh (configs : List BrokerConfig) (desk : AccessDesk) (terms : List TunerTerms) :
    (fresh configs desk terms).Credited := by
  intro c i hi
  cases hi

/-- What holds of the stream of every consumer that is newly attached, and stays so with every move, holds
of the streams of all consumers. -/
theorem stream_of_consumer {w₀ : System} {P : List Move → BrokerId → SourceKey → StreamId → Prop}
    (g₀ : w₀.Sound) (l₀ : w₀.Ledger) (empty : w₀.consumers.size = 0)
    (new : ∀ {moves m i b k s}, (w₀.run (moves ++ [m])).Attached i b k s → P (moves ++ [m]) b k s)
    (keep : ∀ {moves m b k s}, s < (w₀.run moves).streams.size → P moves b k s →
      P (moves ++ [m]) b k s)
    (moves : List Move) (hx : (w₀.run moves).consumers.get? i = some x) :
    P moves x.broker x.key x.stream := by
  induction moves using List.reverseRecOn generalizing x with
  | nil =>
    have lt := Table.lt_size_of_get? hx
    rw [show (w₀.run []).consumers.size = 0 from empty] at lt
    cases lt
  | append_singleton moves m ih =>
    have g := g₀.run moves
    have l := l₀.run g₀ moves
    rw [run_concat] at hx
    rcases Nat.lt_or_ge i (w₀.run moves).consumers.size with old | fresh
    · obtain ⟨y, hy⟩ : ∃ y, (w₀.run moves).consumers.get? i = some y :=
        ⟨_, List.getElem?_eq_getElem old⟩
      obtain ⟨x', hx', follows⟩ := consumer_step l g m hy
      obtain rfl : x' = x := Option.some.inj (hx'.symm.trans hx)
      rw [follows.broker, follows.key, follows.stream]
      exact keep (l.placed hy).1 (ih hy)
    · exact new (i := i) (by rw [run_concat]; exact g.newcomer m fresh hx)

/-! ### Every step -/

/-- A move that disturbs a consumer without releasing it sweeps its stream off the list. -/
theorem Attached.step_or_swept (h : w.Attached i x.broker x.key x.stream) (l : w.Ledger)
    (g : w.Sound) (bound : w.attachments x.stream < 2 ^ 32) (hx : w.consumers.get? i = some x)
    (held : ∀ y, (w.step m).consumers.get? i = some y → y.standing ≠ .released) :
    (w.step m).Attached i x.broker x.key x.stream ∨
      ∃ c, m = .turn (.call c) ∧ w.brokerOf c = x.broker ∧ w.phaseOf c = .sweepStart := by
  by_cases quiet : w.disturbs x.broker i m = false
  · exact .inl (h.step g l m bound quiet)
  · refine .inr ?_
    rw [Bool.not_eq_false] at quiet
    unfold disturbs at quiet
    split at quiet
    · rename_i c
      rw [Bool.and_eq_true, decide_eq_true_eq] at quiet
      obtain ⟨broker, quiet⟩ := quiet
      split at quiet
      · rename_i j place
        obtain rfl : j = i := of_decide_eq_true quiet
        obtain ⟨y, hy, released⟩ := released_of_listed (k := x.key) l g bound place hx
          (by rw [broker]; exact h.listed)
        exact absurd released (held y hy)
      · exact ⟨c, rfl, broker, ‹_›⟩
      · cases quiet
    · cases quiet

/-! ### Every run -/

/-- At every moment of a run, a consumer that has not been released is attached, or its stream was swept
at its broker. -/
theorem attached_or_swept (configs : List BrokerConfig) (desk : AccessDesk)
    (terms : List TunerTerms) (moves : List Move) {i : ConsumerId} {x : Consumer}
    (bound : ((fresh configs desk terms).run moves).attachments x.stream < 2 ^ 32)
    (there : ((fresh configs desk terms).run moves).consumers.get? i = some x)
    (unreleased : x.standing ≠ .released) :
    ((fresh configs desk terms).run moves).Attached i x.broker x.key x.stream ∨
      (fresh configs desk terms).IsSwept moves x.broker x.stream := by
  have g₀ := sound_fresh configs desk terms
  have l₀ := ledger_fresh configs desk terms
  induction moves using List.reverseRecOn generalizing x with
  | nil => cases there
  | append_singleton moves m ih =>
    rw [run_concat] at there bound ⊢
    have g := g₀.run moves
    have l := l₀.run g₀ moves
    have bound' := Nat.lt_of_le_of_lt (attachments_le_step _ m _) bound
    rcases Nat.lt_or_ge i ((fresh configs desk terms).run moves).consumers.size with old | new
    · obtain ⟨y, hy⟩ : ∃ y, ((fresh configs desk terms).run moves).consumers.get? i = some y :=
        ⟨_, List.getElem?_eq_getElem old⟩
      obtain ⟨x', hx', follows⟩ := consumer_step l g m hy
      obtain rfl : x' = x := Option.some.inj (hx'.symm.trans there)
      rw [follows.stream] at bound'
      rw [follows.broker, follows.stream, follows.key]
      rcases ih bound' hy (fun hr => unreleased (follows.released hr)) with attached | swept
      · rcases attached.step_or_swept (m := m) l g bound' hy fun z hz => by
            rw [Option.some.inj (hz.symm.trans there)]; exact unreleased with still | ⟨c, hm, hb, hp⟩
        · exact .inl still
        · exact .inr ⟨moves, c, [], by rw [hm], hb, hp, _, attached.listed⟩
      · exact .inr (swept.append [m])
    · exact .inl (g.newcomer m new there)

end System

end TunerBroker
