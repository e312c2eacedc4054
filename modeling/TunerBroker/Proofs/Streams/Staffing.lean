import TunerBroker.Proofs.Invariants.WiringRuns

/-! Streams that are opening or closing have a call at work on them, as long as no call is abandoned. -/

namespace TunerBroker

/-- The stream is on its way from one place in life to another. -/
def Stream.IsBusy (x : Stream) : Prop := x.lifecycle = .opening ∨ x.lifecycle = .closing

theorem Stream.not_isBusy {x : Stream} (h : x.lifecycle ≠ .opening ∧ x.lifecycle ≠ .closing) :
    ¬ x.IsBusy :=
  not_or.2 h

namespace System

/-- Every stream that is opening or closing has a call with a job on it. -/
def Staffed (w : System) : Prop := ∀ s, (w.stream s).IsBusy → ∃ c j, w.jobs c = some (s, j)

variable {m : Move} {w w₁ w' : System} {c : CallId} {s t : StreamId} {i j : Option Job}
  {f : Stream → Stream}

theorem calm_of_size_le (h : w.streams.size ≤ s) : ¬ (w.stream s).IsBusy := by
  rw [w.stream_of_size_le s h]
  exact Stream.not_isBusy ⟨by rintro ⟨⟩, by rintro ⟨⟩⟩

/-- A stream that is given another place in life than these two is not busy. -/
theorem calm_setStream (hf : ∀ x, (f x).lifecycle ≠ .opening ∧ (f x).lifecycle ≠ .closing) :
    ¬ ((w.setStream s f).stream s).IsBusy := by
  rcases Nat.lt_or_ge s w.streams.size with hs | hs
  · rw [stream_setStream_self _ _ _ hs]
    exact Stream.not_isBusy (hf _)
  · exact calm_of_size_le (by simpa using hs)

/-- Work that is not abandoned leaves its stream busy only where it leaves a job, or where another call
has one. -/
theorem Work.staffed {other : Prop} (g : Work m s i j w w') (kept : ∀ c, m ≠ .abandon c)
    (h : (w.stream s).IsBusy → i.isSome ∨ other) : (w'.stream s).IsBusy → j.isSome ∨ other := by
  induction g with
  | drift g =>
    intro busy
    rw [Stream.IsBusy, g.frame.lifecycle s (Set.notMem_empty s)] at busy
    exact h busy
  | trans _ _ ih₁ ih₂ => exact ih₂ (ih₁ h)
  | ask | halt | collect => exact fun _ => .inl rfl
  | forsake dropped | leave dropped | quit dropped => exact absurd dropped (kept _)
  | connect | fail | void | bury | shut =>
    intro busy
    refine absurd busy (calm_setStream fun x => ?_)
    exact ⟨by rintro ⟨⟩, by rintro ⟨⟩⟩

namespace Staffed

/-- No job is given up, and no stream becomes busy. -/
theorem mono (h : w.Staffed) (busy : ∀ s, (w'.stream s).IsBusy → (w.stream s).IsBusy)
    (jobs : ∀ c x, w.jobs c = some x → w'.jobs c = some x) : w'.Staffed := by
  intro s hs
  obtain ⟨c, j, hj⟩ := h s (busy s hs)
  exact ⟨c, j, jobs c _ hj⟩

/-- The same streams are busy, and a call without a job goes on. -/
theorem pass (h : w.Staffed) (lifecycle : ∀ s, (w'.stream s).lifecycle = (w.stream s).lifecycle)
    (idle : (w.phaseOf c).job? = none) (others : ∀ d ≠ c, w'.phaseOf d = w.phaseOf d) :
    w'.Staffed := by
  refine h.mono (fun s => by rw [Stream.IsBusy, lifecycle]; exact id) fun d x hd => ?_
  by_cases he : d = c
  · rw [System.jobs, he, idle] at hd
    cases hd
  · rwa [System.jobs, others d he]

/-- A call works on a stream and goes on with the job that is left. -/
theorem work (h : w.Staffed) (kept : ∀ c, m ≠ .abandon c) (g : Work m s i j w w₁)
    (lifecycle : ∀ t, (w'.stream t).lifecycle = (w₁.stream t).lifecycle)
    (before : (w.phaseOf c).job? = i.map (s, ·)) (after : (w'.phaseOf c).job? = j.map (s, ·))
    (others : ∀ d ≠ c, w'.phaseOf d = w.phaseOf d) : w'.Staffed := by
  have other : ∀ d x, d ≠ c → w.jobs d = some x → w'.jobs d = some x := fun d x hd hj => by
    rwa [System.jobs, others d hd]
  intro t ht
  rw [Stream.IsBusy, lifecycle] at ht
  by_cases hs : t = s
  · subst hs
    have early : (w.stream t).IsBusy → i.isSome ∨ ∃ d x, d ≠ c ∧ w.jobs d = some (t, x) := by
      intro busy
      obtain ⟨d, x, hj⟩ := h t busy
      by_cases hd : d = c
      · rw [System.jobs, hd, before] at hj
        exact .inl (by cases i with | none => cases hj | some i => rfl)
      · exact .inr ⟨d, x, hd, hj⟩
    rcases g.staffed kept early ht with hj | ⟨d, x, hd, hj⟩
    · obtain ⟨x, rfl⟩ := Option.isSome_iff_exists.1 hj
      exact ⟨c, x, after⟩
    · exact ⟨d, x, other d _ hd hj⟩
  · rw [g.frame.lifecycle t hs] at ht
    obtain ⟨d, x, hj⟩ := h t ht
    refine ⟨d, x, other d _ ?_ hj⟩
    rintro rfl
    rw [System.jobs, before] at hj
    cases i with
    | none => cases hj
    | some i => exact hs (Prod.mk.inj (Option.some.inj hj)).1.symm

theorem drift (h : w.Staffed) (g : Drift m w w') : w'.Staffed :=
  h.mono (fun s => by rw [Stream.IsBusy, g.frame.lifecycle s (Set.notMem_empty s)]; exact id)
    fun c x hj => by rwa [g.frame.jobs]

end Staffed

theorem phaseOf_setPhase_ne {d : CallId} {p : Phase} (w : System) (h : d ≠ c) :
    (w.setPhase c p).phaseOf d = w.phaseOf d := by
  rw [phaseOf_setPhase, if_neg fun he => h he.1]

/-- A new stream is not busy. -/
theorem Staffed.beginOpen {a : Acquisition} {x : Slot} (h : w.Staffed)
    (place : w.phaseOf c = .seeking a) : (w.beginOpen c a x).Staffed := by
  refine h.mono (fun t ht => ?_) fun d y hd => ?_
  · rw [stream_beginOpen] at ht
    split at ht
    · exact absurd ht (Stream.not_isBusy ⟨by rintro ⟨⟩, by rintro ⟨⟩⟩)
    · exact ht
  · rw [jobs, phaseOf_beginOpen, if_neg]
    · exact hd
    · rintro ⟨rfl, -⟩
      rw [jobs, place] at hd
      cases hd

theorem lifecycle_setStream (hf : ∀ x, (f x).lifecycle = x.lifecycle) (t : StreamId) :
    ((w.setStream s f).stream t).lifecycle = (w.stream t).lifecycle := by
  rw [stream_setStream]
  split
  · exact hf _
  · rfl

theorem Change.staffed (hc : Change m w w') (kept : ∀ c, m ≠ .abandon c) (h : w.Staffed) :
    w'.Staffed := by
  have tuned : ∀ {v : System} {t : StreamId} {f : Stream → Stream}, v.streams = w.streams →
      (∀ x, (f x).lifecycle = x.lifecycle) → ∀ s,
        ((v.setStream t f).stream s).lifecycle = (w.stream s).lifecycle := by
    intro v t f streams hf s
    rw [lifecycle_setStream hf, System.stream, System.stream, streams]
  cases hc with
  | stay | drop => exact h
  | begin =>
    refine h.mono (fun s => by rw [stream_begin]; exact id) fun d x hd => ?_
    rw [jobs, phaseOf_begin, if_neg]
    · exact hd
    · rintro rfl
      rw [jobs, w.phaseOf_of_size_le _ (Nat.le_refl _)] at hd
      cases hd
  | make =>
    refine h.mono (fun s hs => ?_) fun _ _ => id
    rw [stream_addStream] at hs
    split at hs
    · exact absurd hs (Stream.not_isBusy ⟨by rintro ⟨⟩, by rintro ⟨⟩⟩)
    · exact hs
  | letGo =>
    refine h.mono (fun t ht => ?_) fun _ _ => id
    rw [Stream.IsBusy, lifecycle_setStream] at ht
    · exact ht
    · exact fun _ => rfl
  | go actor leads idle => exact h.pass (fun _ => rfl) idle fun d hd => phaseOf_setPhase_ne w hd
  | @work w₁ c s p i j actor work held leads before after =>
    have there : c < w₁.calls.size := work.frame.calls ▸ w.lt_of_phaseOf c fun hp => by
      rw [hp] at held
      cases held
    refine h.work kept work (fun _ => rfl) before ?_ fun d hd => ?_
    · rw [phaseOf_setPhase, if_pos ⟨rfl, there⟩]
      exact after
    · rw [phaseOf_setPhase_ne _ hd, work.frame.phaseOf]
  | provide place =>
    exact h.pass (tuned rfl fun _ => rfl) (by rw [place]; rfl) fun d hd => phaseOf_setPhase_ne _ hd
  | demote place | «open» place => exact h.beginOpen place
  | demoteJoin place | miss place | refuse place =>
    exact h.pass (fun _ => rfl) (by rw [place]; rfl) fun d hd => phaseOf_setPhase_ne _ hd
  | sweep turn place =>
    refine h.pass (fun _ => rfl) (by rw [place]; rfl) fun d hd => ?_
    rw [phaseOf_sweep, if_neg fun he => hd he.1]
  | reuse place | detach turn place | last turn place =>
    exact h.pass (tuned rfl fun _ => rfl) (by rw [place]; rfl) fun d hd => phaseOf_setPhase_ne _ hd
  | @register w₁ c a s moves wait actor place work =>
    have there : c < w₁.calls.size :=
      work.frame.calls ▸ w.lt_of_phaseOf c fun hp => by rw [hp] at place; cases place
    refine h.work (c := c) (i := wait.job?) kept work (lifecycle_setStream (w := w₁) fun _ => rfl)
      (by rw [place]; rfl) ?_ fun d hd => ?_
    · rw [phaseOf_attach, if_pos ⟨rfl, by simpa using there⟩]
      rfl
    · rw [phaseOf_attach, if_neg fun he => hd he.1]
      exact work.frame.phaseOf d
  | @giveUp w₁ c a s moves wait p actor place work exit =>
    have there : c < w₁.calls.size :=
      work.frame.calls ▸ w.lt_of_phaseOf c fun hp => by rw [hp] at place; cases place
    refine h.work (c := c) (i := wait.job?) kept work (fun _ => rfl) (by rw [place]; rfl) ?_
      fun d hd => ?_
    · rw [phaseOf_endOpen, phaseOf_setPhase, if_pos ⟨rfl, there⟩]
      exact exit.free
    · rw [phaseOf_endOpen, phaseOf_setPhase_ne _ hd, work.frame.phaseOf]

theorem staffed_fresh (configs : List BrokerConfig) (desk : AccessDesk) (terms : List TunerTerms) :
    (fresh configs desk terms).Staffed :=
  fun _ busy => absurd busy (calm_of_size_le (Nat.zero_le _))

namespace Staffed

theorem step (h : w.Staffed) (kept : ∀ c, m ≠ .abandon c) : (w.step m).Staffed := by
  obtain ⟨w₁, w₂, h₁, hc, h₂⟩ := step_books w m
  exact (hc.staffed kept (h.drift h₁)).drift h₂

theorem run (h : w.Staffed) {moves : List Move} (kept : ∀ c, .abandon c ∉ moves) :
    (w.run moves).Staffed := by
  induction moves generalizing w with
  | nil => exact h
  | cons m moves ih =>
    refine ih (h.step fun c hm => kept c ?_) fun c hc => kept c (List.mem_cons_of_mem m hc)
    rw [hm]
    exact List.mem_cons_self

/-- A stream is opening just where a call waits for its connection, and closing just where a call
waits in its close. -/
theorem waits (h : w.Staffed) (wired : w.Wired w.jobs) (s : StreamId) :
    ((w.stream s).lifecycle = .opening → ∃ c d, (w.phaseOf c).job? = some (s, .dial d)) ∧
      ((w.stream s).lifecycle = .closing → ∃ c stage, (w.phaseOf c).job? = some (s, .close stage)) := by
  constructor
  · intro opening
    obtain ⟨c, j, hj⟩ := h s (.inl opening)
    cases j with
    | dial d => exact ⟨c, d, hj⟩
    | close stage =>
      have manned := wired.manned hj
      cases stage <;> simp [Manned, opening] at manned
  · intro closing
    obtain ⟨c, j, hj⟩ := h s (.inr closing)
    cases j with
    | dial d =>
      have manned := wired.manned hj
      simp [Manned, closing] at manned
    | close stage => exact ⟨c, stage, hj⟩

end Staffed

end System

end TunerBroker
