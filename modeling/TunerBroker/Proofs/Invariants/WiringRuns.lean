import TunerBroker.Proofs.Invariants.WiringWork

/-! Streams and connections hang together in every run: each change of the books keeps them so, and with
it every step. -/

namespace TunerBroker

namespace System

variable {m : Move} {w w' : System} {J K : CallId → Option (StreamId × Job)} {c : CallId}
  {s t : StreamId} {n : ConnectionId} {i j : Option Job} {p : Phase} {f : Stream → Stream}

theorem Frame.jobs {S : Set StreamId} (g : Frame S w w') : w'.jobs = w.jobs :=
  funext fun c => by rw [System.jobs, System.jobs, g.phaseOf]

theorem jobs_setPhase (w : System) (hc : c < w.calls.size) :
    (w.setPhase c p).jobs = Function.update w.jobs c p.job? := by
  funext c'
  rw [jobs, phaseOf_setPhase, Function.update_apply]
  by_cases he : c' = c <;> simp [he, hc, jobs]

/-- A call without a job that goes on without one leaves the jobs as they are. -/
theorem jobs_eq (phase : ∀ c', w'.phaseOf c' = w.phaseOf c' ∨ c' = c ∧ w'.phaseOf c' = p)
    (idle : (w.phaseOf c).job? = none) (free : p.job? = none) : w'.jobs = w.jobs := by
  funext c'
  rw [jobs, jobs]
  rcases phase c' with he | ⟨rfl, he⟩
  · rw [he]
  · rw [he, free, idle]

namespace Wired

/-- The books change, and every stream that is kept alive was kept alive before. -/
theorem books (h : w.Wired K) (jobs : w'.jobs = K) (streams : ∀ s, (w.stream s).Alike (w'.stream s))
    (connections : w'.connections = w.connections) (sightings : w'.sightings = w.sightings)
    (phase : ∀ c', w'.phaseOf c' = w.phaseOf c' ∨ c' = c ∧ w'.phaseOf c' = p)
    (holds : ∀ s ∈ p.holds, w.isHeld s)
    (slots : ∀ b k, ∀ s ∈ (w'.slot b k).streams, w.isHeld s)
    (named : ∀ s, (w'.stream s).named → (w.stream s).named) : w'.Wired w'.jobs := by
  rw [jobs]
  refine h.alike streams connections sightings fun s hs => .inl ?_
  rcases (w'.isHeld_iff s).1 hs with hn | ⟨b, k, hl⟩ | ⟨c', hc⟩
  · exact (w.isHeld_iff s).2 (.inl (named s hn))
  · exact slots b k s hl
  · rcases phase c' with hp | ⟨-, hp⟩ <;> rw [hp] at hc
    · exact isHeld_of_holds hc
    · exact holds s hc

/-- A new stream hangs together with the rest. -/
theorem addStream (h : w.Wired J) (r : StreamRequest) (config : BrokerConfig) (named : Bool) :
    (w.addStream { Stream.ofRequest r config with named }).Wired J := by
  have new : (w.addStream { Stream.ofRequest r config with named }).stream w.streams.size =
      { Stream.ofRequest r config with named } := by
    rw [stream_addStream, if_pos rfl]
  have old : w.stream w.streams.size = .blank := w.stream_of_size_le _ (Nat.le_refl _)
  refine h.restream w.streams.size (fun t ht => by rw [stream_addStream, if_neg ht]) rfl rfl
    (fun t ht => ?_) ?_ ?_ (fun _ hc => ?_) (fun hj => h.jobs_stay (fun k hk => ?_) hj)
    fun hj hj' => h.sole hj hj'
  · by_cases he : t = w.streams.size
    · exact .inr he
    · refine .inl ((w.isHeld_iff t).2 ?_)
      have := (isHeld_iff _ _).1 ht
      rwa [stream_addStream, if_neg he] at this
  · rw [new]
    exact ⟨rfl, rfl, rfl⟩
  · rw [new, old]
    rfl
  · rw [new] at hc
    cases hc
  · rcases hk.lifecycle with hl | hl <;> rw [old] at hl <;> cases hl

theorem beginOpen {a : Acquisition} {x : Slot} (h : w.Wired w.jobs) (hp : w.phaseOf c = .seeking a)
    (hx : x.streams ⊆ (w.slot (w.brokerOf c) a.key).streams) :
    (w.beginOpen c a x).Wired (w.beginOpen c a x).jobs := by
  have hc : c < w.calls.size := w.lt_of_phaseOf _ (by simp [hp])
  have jobs : (w.beginOpen c a x).jobs = w.jobs := by
    refine jobs_eq (c := c) (p := w.openingPhase a) (fun c' => ?_) (by rw [hp]; rfl) ?_
    · rw [phaseOf_beginOpen]
      by_cases he : c' = c <;> simp [he, hc]
    · cases ho : a.plan.outside <;> simp [openingPhase, Phase.job?, OpenWait.job?, ho]
  rw [jobs]
  have h₁ := h.addStream a.plan.request a.plan.config false
  refine h₁.alike (fun s => .refl _) rfl rfl fun s hs => ?_
  by_cases he : s = w.streams.size
  · refine .inr ?_
    rw [stream_addStream, if_pos he]
    rintro ⟨⟩
  · refine .inl ((isHeld_iff _ _).2 ?_)
    rcases (isHeld_iff _ _).1 hs with hn | ⟨b, k, hl⟩ | ⟨c', hh⟩
    · exact .inl hn
    · refine .inr (.inl ⟨b, k, ?_⟩)
      rw [slot_beginOpen] at hl
      split at hl
      · rename_i hb
        rw [hb.1, hb.2.1]
        exact hx hl
      · exact hl
    · refine .inr (.inr ⟨c', ?_⟩)
      rw [phaseOf_beginOpen] at hh
      split at hh
      · exact absurd (List.mem_singleton.1 hh) he
      · exact hh

theorem begin {b : BrokerId} {gated : Bool} {errand : Errand} (h : w.Wired w.jobs)
    (allowed : errand.isAllowed w b) :
    (w.begin b gated errand).Wired (w.begin b gated errand).jobs := by
  have new : w.phaseOf w.calls.size = .abandoned := w.phaseOf_of_size_le _ (Nat.le_refl _)
  refine h.books (c := w.calls.size) (p := errand.origin) ?_ (fun s => ?_) (by cases errand <;> rfl)
    (by cases errand <;> rfl) (fun c' => ?_) (fun s hs => ?_)
    (fun b k s hs => isHeld_of_listed (by rwa [slot_begin] at hs)) (by simp)
  · funext c'
    rw [System.jobs, System.jobs, phaseOf_begin]
    split
    · rename_i he
      rw [he, new]
      cases errand <;> rfl
    · rfl
  · rw [stream_begin]
    exact .refl _
  · rw [phaseOf_begin]
    split
    · exact .inr ⟨‹_›, rfl⟩
    · exact .inl rfl
  · refine (w.isHeld_iff s).2 (.inl ?_)
    cases errand <;> simp_all [Errand.origin, Phase.holds, Errand.isAllowed]

/-- A call works on a stream it keeps alive, and goes on with the job that is left. -/
theorem worked (h : w.Wired w.jobs) (work : Work m s i j w w') (held : s ∈ (w.phaseOf c).holds)
    (leads : (w.phaseOf c).Leads p) (before : (w.phaseOf c).job? = i.map (s, ·))
    (after : p.job? = j.map (s, ·)) : (w'.setPhase c p).Wired (w'.setPhase c p).jobs := by
  have hc : c < w.calls.size := w.lt_of_phaseOf _ fun hp => by simp [hp, Phase.holds] at held
  refine (h.work work (isHeld_of_holds held) before).books (c := c) (p := p) ?_ (fun _ => .refl _)
    rfl rfl (fun _ => setPhase_cases _ _ _ _) (fun t ht => ?_) (fun b k t ht => ?_) fun _ => id
  · rw [jobs_setPhase _ (by rwa [work.frame.calls]), work.frame.jobs, after]
  · rw [work.frame.isHeld]
    exact isHeld_of_holds (leads.holds ht)
  · exact isHeld_of_listed (w := w') ht

/-- An open gives its stream, which is listed with its first consumer. -/
theorem register {a : Acquisition} {moves : List OpenMove} {wait : OpenWait} (h : w.Wired w.jobs)
    (place : w.phaseOf c = .opening a s moves wait) (work : Work m s wait.job? none w w') :
    (((w'.setStream s fun x => { x with consumers := x.consumers + 1 }).endOpen c a.key
      (some s)).attach c s).Wired (((w'.setStream s fun x =>
        { x with consumers := x.consumers + 1 }).endOpen c a.key (some s)).attach c s).jobs := by
  have hc : c < w'.calls.size := work.frame.calls ▸ w.lt_of_phaseOf _ (by simp [place])
  have held : s ∈ (w.phaseOf c).holds := by simp [place, Phase.holds]
  refine (h.work work (isHeld_of_holds held) (by rw [System.jobs, place]; rfl)).books (c := c)
    (p := .finished (.attached w'.consumers.size)) ?_ (alike_setStream fun x => ⟨rfl, rfl, rfl, rfl, rfl⟩)
    rfl rfl (fun c' => setPhase_cases _ _ _ _) (by simp [Phase.holds]) (fun b k t ht => ?_)
    (named_setStream fun _ => rfl)
  · rw [attach_eq, jobs_setPhase _ (by exact hc)]
    exact congrArg (Function.update · c none) work.frame.jobs
  · rw [slot_attach, slot_endOpen] at ht
    split at ht
    · rcases (mem_streams_endedSlot _ _ _ _ _).1 ht with ht | ht
      · exact isHeld_of_listed (w := w') ht
      · obtain rfl : s = t := Option.some.inj ht
        rw [work.frame.isHeld]
        exact isHeld_of_holds held
    · exact isHeld_of_listed (w := w') ht

/-- An open ends without a stream for the slot. -/
theorem giveUp {a : Acquisition} {moves : List OpenMove} {wait : OpenWait} (h : w.Wired w.jobs)
    (place : w.phaseOf c = .opening a s moves wait) (work : Work m s wait.job? none w w')
    (exit : p.Exit s) :
    ((w'.setPhase c p).endOpen c a.key none).Wired ((w'.setPhase c p).endOpen c a.key none).jobs := by
  have hc : c < w'.calls.size := work.frame.calls ▸ w.lt_of_phaseOf _ (by simp [place])
  have held : s ∈ (w.phaseOf c).holds := by simp [place, Phase.holds]
  refine (h.work work (isHeld_of_holds held) (by rw [System.jobs, place]; rfl)).books (c := c) (p := p)
    ?_ (fun _ => .refl _) rfl rfl (fun c' => setPhase_cases _ _ _ _) (fun t ht => ?_)
    (fun b k t ht => ?_) fun _ => id
  · refine (jobs_setPhase w' hc).trans ?_
    rw [exit.free, work.frame.jobs]
    rfl
  · rw [exit.holds ht, work.frame.isHeld]
    exact isHeld_of_holds held
  · rw [slot_endOpen] at ht
    split at ht
    · exact isHeld_of_listed (w := w') ((within_endedSlot _ _ _).subset ht)
    · exact isHeld_of_listed (w := w') ht

/-- All streams of a broker are taken off the lists. -/
theorem sweep (h : w.Wired w.jobs) (place : w.phaseOf c = .sweepStart) :
    (w.sweep c).Wired (w.sweep c).jobs := by
  refine h.books (p := .sweeping none (w.listed (w.brokerOf c)) 0)
    (jobs_eq (fun _ => setPhase_cases _ _ _ _) (by rw [place]; rfl) rfl) (fun _ => .refl _) rfl rfl
    (fun _ => setPhase_cases _ _ _ _) (fun t ht => ?_) (fun b k t ht => ?_) fun _ => id
  · obtain ⟨k, hk⟩ := (w.mem_listed _ t).1 (by simpa [Phase.holds] using ht)
    exact isHeld_of_listed hk
  · rw [slot_sweep] at ht
    split at ht
    · simp [Slot.streams] at ht
    · exact isHeld_of_listed ht

theorem change (h : w.Wired w.jobs) (hc : Change m w w') : w'.Wired w'.jobs := by
  have kept : ∀ b k, ∀ s ∈ (w.slot b k).streams, w.isHeld s := fun _ _ _ => isHeld_of_listed
  have put : ∀ {b k x}, x.streams ⊆ (w.slot b k).streams →
      ∀ b' k', ∀ s ∈ ((w.putSlot b k x).slot b' k').streams, w.isHeld s := by
    intro b k x hx b' k' s hs
    rw [slot_putSlot] at hs
    split at hs
    · exact kept _ _ s (hx hs)
    · exact kept _ _ s hs
  cases hc with
  | stay => exact h
  | begin allowed => exact h.begin allowed
  | make => exact h.addStream _ _ _
  | @letGo s =>
    refine h.books (c := 0) (p := .abandoned) rfl (alike_setStream fun x => ⟨rfl, rfl, rfl, rfl, rfl⟩)
      rfl rfl (fun _ => .inl rfl) (by simp [Phase.holds]) kept fun t ht => ?_
    rw [stream_setStream] at ht
    split at ht
    · cases ht
    · exact ht
  | drop there held => exact h.alike (fun _ => .refl _) rfl rfl fun _ => .inl
  | @go c p actor leads idle free =>
    exact h.books (jobs_eq (fun _ => setPhase_cases _ _ _ _) idle free) (fun _ => .refl _) rfl rfl
      (fun _ => setPhase_cases _ _ _ _) (fun s hs => isHeld_of_holds (leads.holds hs)) kept fun _ => id
  | work actor work held leads before after => exact h.worked work held leads before after
  | @provide c a s t moves place free =>
    refine h.books (c := c) (p := .opening a t moves .nowhere)
      (jobs_eq (fun _ => setPhase_cases _ _ _ _) (by rw [place]; rfl) rfl)
      (alike_setStream fun x => ⟨rfl, rfl, rfl, rfl, rfl⟩) rfl rfl (fun _ => setPhase_cases _ _ _ _)
      (fun s hs => ?_) kept fun s hs => ?_
    · rw [List.mem_singleton.1 hs]
      exact (w.isHeld_iff t).2 (.inl ((w.isFree_iff t).1 free).1)
    · rw [stream_setPhase, stream_setStream] at hs
      split at hs
      · cases hs
      · exact hs
  | demote place shared ended vacant => exact h.beginOpen place Slot.within_demote.subset
  | @demoteJoin c o a s place shared ended taken =>
    exact h.books (p := .waiting a o)
      (jobs_eq (fun _ => setPhase_cases _ _ _ _) (by rw [place]; rfl) rfl) (fun _ => .refl _) rfl rfl
      (fun _ => setPhase_cases _ _ _ _) (by simp [Phase.holds]) (put Slot.within_demote.subset)
      fun _ => id
  | «open» place shared vacant => exact h.beginOpen place (fun _ => id)
  | @reuse c a s place shared counted live media =>
    exact h.books (p := .finished (.attached w.consumers.size))
      (jobs_eq (fun _ => setPhase_cases _ _ _ _) (by rw [place]; rfl) rfl)
      (alike_setStream fun x => ⟨rfl, rfl, rfl, rfl, rfl⟩) rfl rfl (fun _ => setPhase_cases _ _ _ _)
      (by simp [Phase.holds]) kept (named_setStream fun _ => rfl)
  | register actor place work => exact h.register place work
  | giveUp actor place work exit => exact h.giveUp place work exit
  | @miss c k e place | @refuse c k x e place =>
    exact h.books (p := .finished (.failed e))
      (jobs_eq (fun _ => setPhase_cases _ _ _ _) (by rw [place]; rfl) rfl) (fun _ => .refl _) rfl rfl
      (fun _ => setPhase_cases _ _ _ _) (by simp [Phase.holds]) kept fun _ => id
  | @detach c k x turn place there listed others =>
    exact h.books (p := .finished .done)
      (jobs_eq (fun _ => setPhase_cases _ _ _ _) (by rw [place]; rfl) rfl)
      (alike_setStream (w := w) fun x => ⟨rfl, rfl, rfl, rfl, rfl⟩) rfl rfl
      (fun _ => setPhase_cases _ _ _ _) (by simp [Phase.holds]) kept
      (named_setStream (w := w) fun _ => rfl)
  | @last c k x turn place there listed alone =>
    refine h.books (p := .tearing x.stream none)
      (jobs_eq (fun _ => setPhase_cases _ _ _ _) (by rw [place]; rfl) rfl)
      (alike_setStream (w := w) fun x => ⟨rfl, rfl, rfl, rfl, rfl⟩) rfl rfl
      (fun _ => setPhase_cases _ _ _ _) (fun t ht => ?_) (put (Slot.within_deregister _).subset)
      (named_setStream (w := w) fun _ => rfl)
    rw [List.mem_singleton.1 ht]
    exact isHeld_of_listed ((Slot.isRegistered_iff _ _).1 listed)
  | sweep turn place => exact h.sweep place

end Wired

/-! ### Every run -/

theorem wired_fresh (configs : List BrokerConfig) (desk : AccessDesk) (terms : List TunerTerms) :
    (fresh configs desk terms).Wired (fresh configs desk terms).jobs where
  fit _ := ⟨rfl, rfl⟩
  linked := by rintro _ _ _ ⟨⟩
  pumped := by rintro _ _ ⟨⟩
  manned := by rintro _ _ _ ⟨⟩
  sole := by rintro _ _ _ _ _ ⟨⟩
  seen _ := ⟨rfl, rfl⟩
  whole _ := by rintro ⟨⟩

namespace Wired

theorem drifting (h : w.Wired w.jobs) (g : Drift m w w') : w'.Wired w'.jobs := by
  rw [g.frame.jobs]
  exact h.drift g

theorem step (h : w.Wired w.jobs) (m : Move) : (w.step m).Wired (w.step m).jobs := by
  obtain ⟨w₁, w₂, h₁, hc, h₂⟩ := step_books w m
  exact ((h.drifting h₁).change hc).drifting h₂

theorem run (h : w.Wired w.jobs) (moves : List Move) : (w.run moves).Wired (w.run moves).jobs := by
  induction moves generalizing w with
  | nil => exact h
  | cons m moves ih => exact ih (h.step m)

end Wired

end System

end TunerBroker
