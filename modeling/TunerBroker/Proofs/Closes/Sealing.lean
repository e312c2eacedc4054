import TunerBroker.Proofs.Consumers.Spent

/-! Streams that one call has to itself, or none. A stream that has left the list is never listed again, so
that only calls that are at work on it already can have anything to do with it: the one that took it off, and
once it is closed nobody. -/

namespace TunerBroker

namespace System

variable {m : Move} {w w' : System} {c d : CallId} {s : StreamId}

/-- A call comes to hold only a stream that was fresh, listed, or not there before. -/
theorem Change.holds (hc : Change m w w') (hs : s ∈ (w'.phaseOf d).holds) :
    s ∈ (w.phaseOf d).holds ∨ w.Fresh s ∨ (∃ b k, s ∈ (w.slot b k).streams) ∨
      w.streams.size ≤ s := by
  -- Only one call moves, and what matters is what it holds where it comes to.
  have moved : ∀ {v : System} {c : CallId} {p : Phase}, (∀ c, v.phaseOf c = w.phaseOf c) →
      (v.setPhase c p).phaseOf d = w'.phaseOf d →
      (s ∈ p.holds → s ∈ (w.phaseOf c).holds ∨ w.Fresh s ∨ (∃ b k, s ∈ (w.slot b k).streams) ∨
        w.streams.size ≤ s) →
      s ∈ (w.phaseOf d).holds ∨ w.Fresh s ∨ (∃ b k, s ∈ (w.slot b k).streams) ∨
        w.streams.size ≤ s := by
    intro v c p hv hd hp
    rw [← hd] at hs
    rcases v.setPhase_cases c d p with he | ⟨rfl, he⟩ <;> rw [he] at hs
    · exact .inl (hv d ▸ hs)
    · exact hp hs
  have nothing : ∀ {p : Phase}, p.holds = [] → s ∉ p.holds := by
    intro p hp hm
    rw [hp] at hm
    cases hm
  cases hc with
  | stay | make | letGo | drop => exact .inl hs
  | @begin b gated errand allowed =>
    rw [phaseOf_begin] at hs
    split at hs
    · have named : (w.stream s).named := by
        cases errand with
        | openStream t token | closeStream t =>
          rw [List.mem_singleton.1 hs]
          exact allowed
        | _ => cases hs
      exact .inr (.inl (.inl named))
    · exact .inl hs
  | go actor leads => exact moved (fun _ => rfl) rfl fun hp => .inl (leads.holds hp)
  | work actor work held leads =>
    exact moved work.frame.phaseOf rfl fun hp => .inl (leads.holds hp)
  | @provide c a t u moves place free =>
    refine moved (fun _ => rfl) rfl fun hp => .inr (.inl (.inl ?_))
    rw [List.mem_singleton.1 hp]
    exact ((w.isFree_iff u).1 free).1
  | demote | «open» =>
    refine moved (v := (w.putSlot _ _ _).addStream _) (fun _ => rfl) rfl fun hp => ?_
    exact .inr (.inr (.inr (List.mem_singleton.1 hp).ge))
  | demoteJoin => exact moved (fun _ => rfl) rfl fun hp => absurd hp (nothing rfl)
  | reuse =>
    exact moved (v := (w.setStream _ _).addConsumer _) (fun _ => rfl) rfl
      fun hp => absurd hp (nothing rfl)
  | @register w₁ c a t moves wait actor place work =>
    exact moved (v := ((w₁.setStream _ _).endOpen _ _ _).addConsumer _) work.frame.phaseOf rfl
      fun hp => absurd hp (nothing rfl)
  | giveUp actor place work exit =>
    refine moved work.frame.phaseOf rfl fun hp => .inl ?_
    rw [exit.holds hp, place]
    exact List.mem_singleton_self _
  | miss | refuse | detach =>
    exact moved (fun _ => rfl) rfl fun hp => absurd hp (nothing rfl)
  | @last c i x turn place there listed =>
    refine moved (fun _ => rfl) rfl fun hp => .inr (.inr (.inl ⟨w.brokerOf c, x.key, ?_⟩))
    rw [List.mem_singleton.1 hp]
    exact (Slot.isRegistered_iff _ _).1 listed
  | @sweep c turn place =>
    refine moved (v := w.setSlots _ _) (fun _ => rfl) rfl fun hp => .inr (.inr (.inl ?_))
    obtain ⟨k, hk⟩ := (w.mem_listed (w.brokerOf c) s).1 (by simpa [Phase.holds] using hp)
    exact ⟨_, k, hk⟩

/-- A stream stays at its place in life unless the call that moves holds it. -/
theorem Change.lifecycle (hc : Change m w w') (hs : s < w.streams.size)
    (idle : ∀ d, m.actor = some d → s ∉ (w.phaseOf d).holds) :
    (w'.stream s).lifecycle = (w.stream s).lifecycle := by
  have tuned : ∀ {v : System} {t : StreamId} {f : Stream → Stream}, v.stream s = w.stream s →
      (∀ x, (f x).lifecycle = x.lifecycle) →
      ((v.setStream t f).stream s).lifecycle = (w.stream s).lifecycle := by
    intro v t f hv hf
    rw [stream_setStream]
    split
    · rw [hf, hv]
    · rw [hv]
  have apart : ∀ {d : CallId} {t : StreamId}, m.actor = some d → t ∈ (w.phaseOf d).holds →
      s ∉ ({t} : Set StreamId) := by
    intro d t hd ht he
    exact idle d hd (Set.mem_singleton_iff.1 he ▸ ht)
  cases hc with
  | stay | drop | go | demoteJoin | miss | refuse | sweep => rfl
  | begin => rw [stream_begin]
  | make => rw [stream_addStream, if_neg (Nat.ne_of_lt hs)]
  | demote | «open» => rw [stream_beginOpen, if_neg (Nat.ne_of_lt hs)]
  | letGo | provide | reuse | detach | last => exact tuned rfl fun _ => rfl
  | work actor work held => exact work.frame.lifecycle s (apart actor held)
  | giveUp actor place work =>
    exact work.frame.lifecycle s (apart actor (by simp [place, Phase.holds]))
  | @register w₁ c a t moves wait actor place work =>
    have same := work.frame.lifecycle s (apart actor (by simp [place, Phase.holds]))
    rw [stream_attach, stream_endOpen, stream_setStream]
    split <;> exact same

/-- A stream stays at its place in life in a step of no call that holds it. -/
theorem lifecycle_step (made : s < w.streams.size)
    (idle : ∀ d, m.actor = some d → s ∉ (w.phaseOf d).holds) :
    ((w.step m).stream s).lifecycle = (w.stream s).lifecycle := by
  obtain ⟨w₁, w₂, h₁, hc, h₂⟩ := step_books w m
  have f₁ := h₁.frame
  rw [h₂.frame.lifecycle s (Set.notMem_empty s), hc.lifecycle (f₁.streams ▸ made), f₁.lifecycle s
    (Set.notMem_empty s)]
  intro d hd
  rw [f₁.phaseOf]
  exact idle d hd

/-- The stream has left the list for good, and no call but `c` is at work on it. -/
structure Sealed (w : System) (c : CallId) (s : StreamId) : Prop where
  spent : w.Spent s
  alone : ∀ d, s ∈ (w.phaseOf d).holds → d = c

namespace Sealed

variable (h : w.Sealed c s)

include h

theorem frame {S : Set StreamId} (g : Frame S w w') : w'.Sealed c s where
  spent := by
    refine ⟨?_, fun b k => ?_⟩
    · rw [attachments_congr g.consumers]
      exact h.spent.used
    · rw [g.slot]
      exact h.spent.unlisted b k
  alone d hd := by
    rw [g.phaseOf] at hd
    exact h.alone d hd

theorem step (l : w.Ledger) (g : w.Sound) (m : Move) : (w.step m).Sealed c s := by
  obtain ⟨w₁, w₂, h₁, hc, h₂⟩ := step_books w m
  refine ⟨(h.spent.step l g m).1, fun d hd => ?_⟩
  rw [h₂.frame.phaseOf] at hd
  have h' := h.frame h₁.frame
  rcases hc.holds hd with hd | fresh | ⟨b, k, hl⟩ | hn
  · exact h'.alone d hd
  · rw [h₁.frame.fresh] at fresh
    exact absurd fresh (h.spent.stale l)
  · exact absurd hl (h'.spent.unlisted b k)
  · rw [h₁.frame.streams] at hn
    exact absurd (h.spent.made l) (Nat.not_lt.2 hn)

theorem lifecycle_step (l : w.Ledger) (hm : m.actor ≠ some c) :
    ((w.step m).stream s).lifecycle = (w.stream s).lifecycle :=
  System.lifecycle_step (h.spent.made l) fun d hd hs => hm (h.alone d hs ▸ hd)

end Sealed

/-! ### Streams that have been closed -/

/-- The stream is off the lists for good and closed, and no call is at work on it. -/
structure Buried (w : System) (s : StreamId) : Prop where
  spent : w.Spent s
  closed : (w.stream s).lifecycle = .closed
  idle : ∀ c, s ∉ (w.phaseOf c).holds

theorem Buried.closed_step (h : w.Buried s) (l : w.Ledger) (m : Move) :
    ((w.step m).stream s).lifecycle = .closed :=
  (lifecycle_step (h.spent.made l) fun d _ => h.idle d).trans h.closed

theorem Buried.step (h : w.Buried s) (l : w.Ledger) (g : w.Sound) (m : Move) :
    (w.step m).Buried s where
  spent := (h.spent.step l g m).1
  closed := h.closed_step l m
  idle c hc := by
    -- Nobody holds the stream, so that whoever came to hold it would have to be somebody else.
    have sealing : w.Sealed (c + 1) s := ⟨h.spent, fun d hd => absurd hd (h.idle d)⟩
    exact Nat.succ_ne_self c ((sealing.step l g m).alone c hc).symm

end System

end TunerBroker
