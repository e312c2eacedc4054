import TunerBroker.Proofs.Invariants.WiringDrift

/-! Streams and connections hang together through the work of a call: what its job finds on its stream
is what the next step of the job needs. -/

namespace TunerBroker

namespace System

variable {m : Move} {w w' : System} {J K : CallId → Option (StreamId × Job)} {c : CallId}
  {s t : StreamId} {n : ConnectionId} {i j : Option Job} {p : Phase} {f : Stream → Stream}

namespace Wired

theorem mono (h : w.Wired J) (sub : ∀ {c x}, K c = some x → J c = some x) : w.Wired K :=
  { h with
    manned := fun hj => h.manned (sub hj)
    sole := fun hj hj' => h.sole (sub hj) (sub hj') }

/-- What a job in hand finds. -/
theorem inHand {k : Job} (h : w.Wired J) (hJ : J c = (some k).map (s, ·)) :
    w.Manned s k ∧ ∀ {c' k'}, J c' = some (s, k') → c' = c :=
  ⟨h.manned hJ, fun hk => h.alone hJ (by rintro ⟨⟩) hk⟩

theorem ask {d : Dial} (h : w.Wired J) (unopened : (w.stream s).lifecycle = .unopened)
    (next : d.connection = w.connections.size) :
    (w.ask s).Wired (Function.update J c (some (s, .dial d))) := by
  have hs : s < w.streams.size := lt_of_lifecycle (by simp [unopened])
  have fit := h.fit s
  have alone : ∀ {c' k}, J c' = some (s, k) → c' = c := fun hk =>
    absurd hk (h.free (by simp [unopened]) (by simp [unopened]) _ _)
  have frame : Frame {s} w (w.ask s) := (Work.ask (m := .elapse 0) unopened next).frame
  have stream : (w.ask s).stream s = { w.stream s with lifecycle := .opening } :=
    stream_setStream_self _ _ _ hs
  have idle : (w.stream s).pump = .idle := by
    cases hp : (w.stream s).pump <;> simp_all [Stream.IsFit]
  have connections : ∀ k, (w.ask s).connections.get? k = if k = w.connections.size then
      some { stream := s, terms := w.terms.headD {} } else w.connections.get? k :=
    Table.get?_add _ _
  have none : w.connections.get? w.connections.size = none :=
    (Table.get?_eq_none_iff _ _).2 (Nat.le_refl _)
  refine h.rewire s w.connections.size (fun t ht => stream_setStream_ne _ _ _ _ ht) connections rfl
    (by simp [none]) (by simp [Stream.link?, idle]) (fun t => by rw [frame.isHeld]; exact id)
    (by simp_all [Stream.IsFit]) (by simp [stream, Stream.link?, idle, LinkState.isEstablished])
    (by simp [stream]) (jobs_update (j := some (.dial d)) alone fun k hk => ?_)
    (sole_update (j := some (.dial d)) alone) (fun k _ => ?_) ?_
  · obtain rfl := Option.some.inj hk
    exact ⟨by simp [stream], _, by rw [connections, if_pos next], rfl, rfl⟩
  · exact ⟨shutdownsOf_witness _ _ _, dropsOf_witness _ _ _⟩
  · have seen := h.seen w.connections.size
    rw [none] at seen
    exact ⟨(shutdownsOf_witness _ _ _).trans seen.1, (dropsOf_witness _ _ _).trans seen.2⟩

/-- An attempt comes out, and the stream changes by `f`. -/
theorem dialed {d : Dial} {l : LinkState} (h : w.Wired J) (hJ : J c = some (s, .dial d))
    (hf : ∀ x : Stream, x.Kin (f x)) (fit : (f (w.stream s)).IsFit)
    (link : (f (w.stream s)).link? = if l.isEstablished then some (d.connection, l) else none)
    (whole : w.isHeld s → (f (w.stream s)).lifecycle = .connected → (f (w.stream s)).detached = false)
    (quiet : l.shutdowns = 0 ∧ l.drops = 0) :
    ((w.setLink d.connection l).setStream s f).Wired (Function.update J c none) := by
  obtain ⟨⟨hl, x, hx, place, state⟩, alone⟩ := h.inHand hJ
  have seen := h.seen d.connection
  have opening := h.fit s
  rw [hx, Option.elim_some, state] at seen
  refine h.relink (.work (.setLink (.refl w) _ _) hf) (lt_of_lifecycle (by simp [hl])) rfl rfl hx place
    (fun k l' hk => ?_) fit link whole (jobs_update (j := none) alone (by rintro _ ⟨⟩))
    (sole_update (j := none) alone) (fun _ _ => ⟨rfl, rfl⟩) ?_
  · cases hp : (w.stream s).pump <;> simp_all [Stream.IsFit, Stream.link?]
  · exact ⟨seen.1.trans quiet.1.symm, seen.2.trans quiet.2.symm⟩

theorem halt (h : w.Wired J) (connected : (w.stream s).lifecycle = .connected) (held : w.isHeld s) :
    (w.setStream s fun x => { x with lifecycle := .closing, feed := false, stopping := true }).Wired
      (Function.update J c (some (s, .close .joining))) := by
  have hs : s < w.streams.size := lt_of_lifecycle (by simp [connected])
  have fit := h.fit s
  have whole := h.whole held connected
  have alone : ∀ {c' k}, J c' = some (s, k) → c' = c := fun hk =>
    absurd hk (h.free (by simp [connected]) (by simp [connected]) _ _)
  refine h.tune hs (fun _ => ⟨rfl, rfl, rfl, rfl⟩) ?_ ?_ (by rintro _ ⟨⟩)
    (jobs_update (j := some (.close .joining)) alone fun k hk => ?_)
    (sole_update (j := some (.close .joining)) alone)
  · cases hp : (w.stream s).pump <;> simp_all [Stream.IsFit]
  · cases hp : (w.stream s).pump <;> simp_all [Stream.IsFit, Stream.link?]
  · obtain rfl := Option.some.inj hk
    simp only [Manned, stream_setStream_self _ _ _ hs]
    refine ⟨trivial, whole, fun n hp => ?_⟩
    simp [Stream.IsFit, connected, hp, whole] at fit

theorem collect {due : Nat} (h : w.Wired J) (stopped : (w.stream s).pump = .stopped n)
    (hJ : J c = some (s, .close .joining)) :
    (w.collect s n).Wired (Function.update J c (some (s, .close (.shutting due)))) := by
  obtain ⟨⟨hl, whole, -⟩, alone⟩ := h.inHand hJ
  have hs : s < w.streams.size := lt_of_lifecycle (by simp [hl])
  have fit := h.fit s
  have live : (w.stream s).link? = some (n, .live) := by simp [Stream.link?, stopped]
  obtain ⟨x, hx, place, seen⟩ := h.own live
  have frame : Frame {s} w (w.collect s n) :=
    (@Work.collect (.elapse 0) s w n due stopped).frame
  refine h.relink (l := .shutting) frame hs rfl rfl hx place (fun k l hk => ?_) ?_ ?_ (by simp [hl])
    (jobs_update (j := some (.close (.shutting due))) alone fun k hk => ?_)
    (sole_update (j := some (.close (.shutting due))) alone) (fun k hk => ?_) ?_
  · rw [live] at hk
    exact (Prod.mk.inj (Option.some.inj hk)).1.symm
  · simp_all [Stream.IsFit]
  · simp [Stream.link?, whole, hl, LinkState.isEstablished]
  · obtain rfl := Option.some.inj hk
    have stream : (w.collect s n).stream s = { w.stream s with pump := .collected n } :=
      stream_setStream_self _ _ _ hs
    simp only [Manned, stream]
    exact ⟨hl, whole, n, rfl⟩
  · rw [System.collect, shutdownsOf_witness, dropsOf_witness]
    simp only [TunerEvent.shuts?, TunerEvent.drops?, Option.some.injEq, Ne.symm hk, reduceCtorEq,
      if_false]
    exact ⟨rfl, rfl⟩
  · rw [Seen, System.collect, shutdownsOf_witness, dropsOf_witness]
    simp only [TunerEvent.shuts?, TunerEvent.drops?, reduceCtorEq, if_true, if_false]
    exact ⟨congrArg (· + 1) seen.1, seen.2⟩

theorem shut {due : Nat} (h : w.Wired J) (collected : (w.stream s).pump = .collected n)
    (hJ : J c = some (s, .close (.shutting due))) :
    ((w.setLink n .shut).setStream s fun x => { x with lifecycle := .closed }).Wired
      (Function.update J c none) := by
  obtain ⟨⟨hl, whole, -⟩, alone⟩ := h.inHand hJ
  have fit := h.fit s
  have link : (w.stream s).link? = some (n, .shutting) := by simp [Stream.link?, collected, whole, hl]
  obtain ⟨x, hx, place, seen⟩ := h.own link
  refine h.relink (l := .shut) (.work (.setLink (.refl w) _ _) fun _ => ⟨rfl, rfl, rfl, rfl⟩)
    (lt_of_lifecycle (by simp [hl])) rfl rfl hx place (fun k l hk => ?_) ?_ ?_ (by simp)
    (jobs_update (j := none) alone (by rintro _ ⟨⟩)) (sole_update (j := none) alone)
    (fun _ _ => ⟨rfl, rfl⟩) seen
  · rw [link] at hk
    exact (Prod.mk.inj (Option.some.inj hk)).1.symm
  · simp_all [Stream.IsFit]
  · simp [Stream.link?, collected, whole, LinkState.isEstablished]

/-- Work of a call on a stream it keeps alive takes its job further. -/
theorem work (h : w.Wired J) (g : Work m s i j w w') (held : w.isHeld s) (hJ : J c = i.map (s, ·)) :
    w'.Wired (Function.update J c (j.map (s, ·))) := by
  induction g generalizing J with
  | @drift j w w' g =>
    rw [← hJ, Function.update_eq_self]
    exact h.drift g
  | @trans i j k w w₁ w₂ first second ih₁ ih₂ =>
    have h₁ := ih₁ h held hJ
    have held₁ : w₁.isHeld s := by rwa [first.frame.isHeld]
    have h₂ := ih₂ h₁ held₁ (Function.update_self _ _ _)
    rwa [Function.update_idem] at h₂
  | ask unopened next => exact h.ask unopened next
  | @connect w d =>
    obtain ⟨⟨hl, -⟩, -⟩ := h.inHand hJ
    have fit := h.fit s
    refine h.dialed (l := .live) hJ (fun _ => ⟨rfl, rfl, rfl, rfl⟩) ?_ rfl (fun _ _ => ?_) ⟨rfl, rfl⟩
    all_goals cases hp : (w.stream s).pump <;> simp_all [Stream.IsFit]
  | @fail w d l lost =>
    obtain ⟨⟨hl, -⟩, -⟩ := h.inHand hJ
    have fit := h.fit s
    refine h.dialed (l := l) hJ (fun _ => ⟨rfl, rfl, rfl, rfl⟩) ?_ ?_ (by simp) ?_
    · cases hp : (w.stream s).pump <;> simp_all [Stream.IsFit]
    · cases hp : (w.stream s).pump <;> rcases lost with rfl | rfl <;>
        simp_all [Stream.IsFit, Stream.link?, LinkState.isEstablished]
    · rcases lost with rfl | rfl <;> exact ⟨rfl, rfl⟩
  | @forsake w d c =>
    obtain ⟨⟨hl, -⟩, -⟩ := h.inHand hJ
    have fit := h.fit s
    have same : (w.setLink d.connection .forsaken).setStream s id = w.setLink d.connection .forsaken := by
      simp [setStream, setLink, Table.update, List.modify_id]
    rw [← same]
    refine h.dialed (l := .forsaken) hJ (fun _ => .refl _) fit ?_ (by simp [hl]) ⟨rfl, rfl⟩
    cases hp : (w.stream s).pump <;> simp_all [Stream.IsFit, Stream.link?, LinkState.isEstablished]
  | @void w unopened =>
    have fit := h.fit s
    have alone : ∀ {c' k}, J c' = some (s, k) → c' = c := fun hk =>
      absurd hk (h.free (by simp [unopened]) (by simp [unopened]) _ _)
    refine h.tune (lt_of_lifecycle (by simp [unopened])) (fun _ => ⟨rfl, rfl, rfl, rfl⟩) ?_ ?_ (by simp)
      (jobs_update (j := none) alone (by rintro _ ⟨⟩)) (sole_update (j := none) alone)
    all_goals cases hp : (w.stream s).pump <;> simp_all [Stream.IsFit, Stream.link?]
  | halt connected => exact h.halt connected held
  | collect stopped => exact h.collect stopped hJ
  | @bury w n message crashed =>
    obtain ⟨⟨hl, whole, -⟩, alone⟩ := h.inHand hJ
    refine h.tune (lt_of_lifecycle (by simp [hl])) (fun _ => ⟨rfl, rfl, rfl, rfl⟩) ?_ ?_ (by simp)
      (jobs_update (j := none) alone (by rintro _ ⟨⟩)) (sole_update (j := none) alone)
    · have fit := h.fit s
      simp_all [Stream.IsFit]
    · simp [Stream.link?, crashed]
  | shut collected => exact h.shut collected hJ
  | leave =>
    obtain ⟨⟨hl, whole, pump⟩, alone⟩ := h.inHand hJ
    exact h.detach (.inr hl) whole pump fun hk => jobs_drop alone hk
  | quit => exact h.mono fun hk => (jobs_drop (h.inHand hJ).2 hk).2

end Wired

end System

end TunerBroker
