import TunerBroker.Proofs.Invariants.Wiring

/-! Streams and connections hang together through the changes that come about by themselves: a pump
ends or dies, and a stream that nothing keeps alive is destroyed. -/

namespace TunerBroker

namespace System

variable {m : Move} {w w' : System} {J K : CallId → Option (StreamId × Job)} {c : CallId}
  {s t : StreamId} {n : ConnectionId} {i j : Option Job} {p : Phase} {f : Stream → Stream}

theorem get?_setLink (w : System) (n k : ConnectionId) (l : LinkState) :
    (w.setLink n l).connections.get? k =
      if k = n then (w.connections.get? k).map fun x => { x with state := l }
      else w.connections.get? k :=
  Table.get?_update _ _ _ _

theorem shutdownsOf_witness (w : System) (e : TunerEvent) (n : ConnectionId) :
    (w.witness e).shutdownsOf n = w.shutdownsOf n + if e.shuts? = some n then 1 else 0 := by
  simp [shutdownsOf, witness, List.countP_cons]

theorem dropsOf_witness (w : System) (e : TunerEvent) (n : ConnectionId) :
    (w.witness e).dropsOf n = w.dropsOf n + if e.drops? = some n then 1 else 0 := by
  simp [dropsOf, witness, List.countP_cons]

namespace Wired

variable (h : w.Wired J)

include h

/-- A connection that stands as its stream does. -/
theorem own {l : LinkState} (hl : (w.stream s).link? = some (n, l)) :
    ∃ x, w.connections.get? n = some x ∧ x.stream = s ∧ w.Seen n l := by
  obtain ⟨x, hx, hs, rfl⟩ := h.linked hl
  have := h.seen n
  rw [hx] at this
  exact ⟨x, hx, hs, this⟩

/-- A job on a stream whose place in life suits it has one holder. -/
theorem alone (hJ : J c = i.map (s, ·))
    (hi : i = none → (w.stream s).lifecycle ≠ .opening ∧ (w.stream s).lifecycle ≠ .closing)
    {c' : CallId} {k : Job} (hc : J c' = some (s, k)) : c' = c := by
  cases i with
  | none => exact absurd hc (h.free (hi rfl).1 (hi rfl).2 c' k)
  | some i => exact h.sole hc hJ

end Wired

/-! ### Jobs that change hands -/

section Jobs

variable (alone : ∀ {c' k}, J c' = some (s, k) → c' = c)

include alone

theorem jobs_update (manned : ∀ k ∈ j, w'.Manned s k) {c' : CallId} {k : Job}
    (hk : Function.update J c (j.map (s, ·)) c' = some (t, k)) :
    t ≠ s ∧ J c' = some (t, k) ∨ t = s ∧ w'.Manned s k := by
  by_cases hc : c' = c
  · subst hc
    rw [Function.update_self] at hk
    obtain ⟨k', hk', he⟩ := Option.map_eq_some_iff.1 hk
    obtain ⟨rfl, rfl⟩ := Prod.mk.inj he
    exact .inr ⟨rfl, manned _ hk'⟩
  · rw [Function.update_of_ne hc] at hk
    refine .inl ⟨?_, hk⟩
    rintro rfl
    exact hc (alone hk)

theorem sole_update {c₁ c₂ : CallId} {k₁ k₂ : Job}
    (h₁ : Function.update J c (j.map (s, ·)) c₁ = some (s, k₁))
    (h₂ : Function.update J c (j.map (s, ·)) c₂ = some (s, k₂)) : c₁ = c₂ := by
  have eq : ∀ {c' k}, Function.update J c (j.map (s, ·)) c' = some (s, k) → c' = c := by
    intro c' k hk
    by_cases hc : c' = c
    · exact hc
    · rw [Function.update_of_ne hc] at hk
      exact alone hk
  exact (eq h₁).trans (eq h₂).symm

theorem jobs_drop {c' : CallId} {k : Job} (hk : Function.update J c none c' = some (t, k)) :
    t ≠ s ∧ J c' = some (t, k) := by
  by_cases hc : c' = c
  · rw [hc, Function.update_self] at hk
    cases hk
  · rw [Function.update_of_ne hc] at hk
    refine ⟨?_, hk⟩
    rintro rfl
    exact hc (alone hk)

end Jobs

theorem Wired.jobs_stay (h : w.Wired J) (keep : ∀ k, w.Manned s k → w'.Manned s k) {k : Job}
    (hk : J c = some (t, k)) : t ≠ s ∧ J c = some (t, k) ∨ t = s ∧ w'.Manned s k := by
  by_cases ht : t = s
  · subst ht
    exact .inr ⟨rfl, keep k (h.manned hk)⟩
  · exact .inl ⟨ht, hk⟩

/-! ### Connections that come to stand elsewhere -/

namespace Wired

/-- The connection of a stream comes to stand at `l` while the stream changes by `f`. -/
theorem relink {x : Connection} {l : LinkState} (h : w.Wired J) (frame : Frame {s} w w')
    (hs : s < w.streams.size) (streams : w'.streams = (w.setStream s f).streams)
    (connections : w'.connections = (w.setLink n l).connections)
    (hx : w.connections.get? n = some x) (place : x.stream = s)
    (before : ∀ k l, (w.stream s).link? = some (k, l) → k = n) (fit : (f (w.stream s)).IsFit)
    (link : (f (w.stream s)).link? = if l.isEstablished then some (n, l) else none)
    (whole : w.isHeld s → (f (w.stream s)).lifecycle = .connected → (f (w.stream s)).detached = false)
    (jobs : ∀ {c t j}, K c = some (t, j) → t ≠ s ∧ J c = some (t, j) ∨ t = s ∧ w'.Manned s j)
    (sole : ∀ {c c' j j'}, K c = some (s, j) → K c' = some (s, j') → c = c')
    (unseen : ∀ k ≠ n, w'.shutdownsOf k = w.shutdownsOf k ∧ w'.dropsOf k = w.dropsOf k)
    (seen : w'.Seen n l) : w'.Wired K := by
  have stream : ∀ t, w'.stream t = (w.setStream s f).stream t := fun t => by
    simp only [System.stream, streams]
  have self : w'.stream s = f (w.stream s) := (stream s).trans (stream_setStream_self _ _ _ hs)
  refine h.rewire s n (x := { x with state := l })
    (fun t ht => (stream t).trans (stream_setStream_ne _ _ _ _ ht)) (fun k => ?_) place
    (fun y hy => ?_) before (fun t => by rw [frame.isHeld]; exact id) (self ▸ fit) (self ▸ link) ?_
    jobs sole unseen seen
  · rw [connections, get?_setLink]
    split
    · subst k
      exact congrArg _ hx
    · rfl
  · obtain rfl : x = y := Option.some.inj (hx.symm.trans hy)
    exact place
  · rw [frame.isHeld, self]
    exact whole

/-- The connection of a stream is lost while the stream changes by `f`. -/
theorem drop (h : w.Wired J) (hl : (w.stream s).link? = some (n, .live)) (hs : s < w.streams.size)
    (hf : ∀ x : Stream, x.Kin (f x)) (fit : (f (w.stream s)).IsFit)
    (link : (f (w.stream s)).link? = some (n, .dropped))
    (whole : w.isHeld s → (f (w.stream s)).lifecycle = .connected → (f (w.stream s)).detached = false)
    (jobs : ∀ {c t j}, K c = some (t, j) →
      t ≠ s ∧ J c = some (t, j) ∨ t = s ∧ ((w.setStream s f).dropLink n).Manned s j)
    (sole : ∀ {c c' j j'}, K c = some (s, j) → K c' = some (s, j') → c = c') :
    ((w.setStream s f).dropLink n).Wired K := by
  obtain ⟨x, hx, place, seen⟩ := h.own hl
  refine h.relink (.dropLink (.work (.refl w) hf) n) hs rfl rfl hx place (fun k l hk => ?_) fit link
    whole jobs sole (fun k hk => ?_) ?_
  · rw [hl] at hk
    exact (Prod.mk.inj (Option.some.inj hk)).1.symm
  · rw [dropLink, shutdownsOf_witness, dropsOf_witness]
    simp only [TunerEvent.shuts?, TunerEvent.drops?, Option.some.injEq, Ne.symm hk, reduceCtorEq,
      if_false]
    exact ⟨rfl, rfl⟩
  · rw [Seen, dropLink, shutdownsOf_witness, dropsOf_witness]
    simp only [TunerEvent.shuts?, TunerEvent.drops?, reduceCtorEq, if_true, if_false]
    exact ⟨seen.1, congrArg (· + 1) seen.2⟩

/-- A stream changes by `f` and its connection stays as it stands. -/
theorem tune (h : w.Wired J) (hs : s < w.streams.size) (hf : ∀ x : Stream, x.Kin (f x))
    (fit : (f (w.stream s)).IsFit) (link : (f (w.stream s)).link? = (w.stream s).link?)
    (whole : w.isHeld s → (f (w.stream s)).lifecycle = .connected → (f (w.stream s)).detached = false)
    (jobs : ∀ {c t j}, K c = some (t, j) →
      t ≠ s ∧ J c = some (t, j) ∨ t = s ∧ (w.setStream s f).Manned s j)
    (sole : ∀ {c c' j j'}, K c = some (s, j) → K c' = some (s, j') → c = c') :
    (w.setStream s f).Wired K := by
  have frame : Frame {s} w (w.setStream s f) := .work (.refl w) hf
  have self : (w.setStream s f).stream s = f (w.stream s) := stream_setStream_self _ _ _ hs
  refine h.restream s (fun t ht => stream_setStream_ne _ _ _ _ ht) rfl rfl
    (fun t ht => .inl (by rwa [frame.isHeld] at ht)) (self ▸ fit) (self ▸ link) ?_ jobs sole
  rw [frame.isHeld, self]
  exact whole

/-! ### Changes by themselves -/

/-- A stream destroyed, or left by the close that waits for its pump, loses its connection as soon as
the pump has ended. -/
theorem detach (h : w.Wired J)
    (hl : (w.stream s).lifecycle = .connected ∧ w.isHeld s = false ∨
      (w.stream s).lifecycle = .closing)
    (whole : (w.stream s).detached = false) (pump : ∀ n, (w.stream s).pump ≠ .collected n)
    (jobs : ∀ {c t j}, K c = some (t, j) → t ≠ s ∧ J c = some (t, j)) :
    (w.detachPump s).Wired K := by
  have hs : s < w.streams.size := lt_of_lifecycle (by rcases hl with hl | hl <;> simp [hl])
  have fit := h.fit s
  have sole : ∀ {c c' j j'}, K c = some (s, j) → K c' = some (s, j') → c = c' :=
    fun hj _ => absurd rfl (jobs hj).1
  have loose : w.isHeld s → (w.stream s).lifecycle ≠ .connected := by
    intro hh hc
    rcases hl with ⟨-, hn⟩ | hl
    · simp [hn] at hh
    · simp [hl] at hc
  have twice : ∀ f g : Stream → Stream,
      (w.setStream s f).setStream s g = w.setStream s fun x => g (f x) := by
    intro f g
    simp [setStream, Table.update, List.modify_modify_eq, Function.comp_def]
  simp only [detachPump, stream_setStream_self _ _ _ hs]
  cases hp : (w.stream s).pump with
  | idle => rcases hl with ⟨hl, -⟩ | hl <;> simp [Stream.IsFit, hl, hp] at fit
  | collected n => exact absurd hp (pump n)
  | reading n =>
    refine h.tune hs (fun _ => ⟨rfl, rfl, rfl, rfl⟩) ?_ ?_ (fun hh hc => absurd hc (loose hh))
      (fun hj => .inl (jobs hj)) sole
    · rcases hl with ⟨hl, -⟩ | hl <;> simp_all [Stream.IsFit]
    · simp [Stream.link?, hp]
  | crashed n message =>
    simp only [twice]
    refine h.tune hs (fun _ => ⟨rfl, rfl, rfl, rfl⟩) ?_ ?_ (fun hh hc => absurd hc (loose hh))
      (fun hj => .inl (jobs hj)) sole
    · rcases hl with ⟨hl, -⟩ | hl <;> simp_all [Stream.IsFit]
    · simp [Stream.link?, hp]
  | stopped n =>
    simp only [twice]
    refine h.drop (by simp [Stream.link?, hp]) hs (fun _ => ⟨rfl, rfl, rfl, rfl⟩) ?_ ?_
      (fun hh hc => absurd hc (loose hh)) (fun hj => .inl (jobs hj)) sole
    · rcases hl with ⟨hl, -⟩ | hl <;> simp_all [Stream.IsFit]
    · simp [Stream.link?]

theorem alike_setStream (hf : ∀ x : Stream, x.Alike (f x)) (t : StreamId) :
    (w.stream t).Alike ((w.setStream s f).stream t) := by
  rw [stream_setStream]
  split
  · exact hf _
  · exact .refl _

theorem named_setStream (hf : ∀ x : Stream, (f x).named = x.named) (t : StreamId)
    (ht : ((w.setStream s f).stream t).named) : (w.stream t).named := by
  rw [stream_setStream] at ht
  split at ht
  · rwa [hf] at ht
  · exact ht

/-- A pump ends. -/
theorem stop (h : w.Wired J) (reading : (w.stream s).pump = .reading n) :
    (w.endPump s n).Wired J := by
  have hs : s < w.streams.size := lt_of_pump (by simp [reading])
  have fit := h.fit s
  have live : (w.stream s).link? = some (n, .live) := by simp [Stream.link?, reading]
  simp only [endPump]
  split
  · rename_i detached
    refine h.drop live hs (fun _ => ⟨rfl, rfl, rfl, rfl⟩) ?_ (by simp [Stream.link?, detached])
      (fun hh hc => absurd (h.whole hh hc) (by simp [detached]))
      (fun hj => h.jobs_stay (fun k hk => ?_) hj) fun hj hj' => h.sole hj hj'
    · cases hl : (w.stream s).lifecycle <;> simp_all [Stream.IsFit]
    · rcases k with d | (_ | due)
      · simp [Stream.IsFit, hk.1, reading] at fit
      · simp [hk.2.1] at detached
      · simp [hk.2.1] at detached
  · rename_i attended
    refine h.tune hs (fun _ => ⟨rfl, rfl, rfl, rfl⟩) ?_ (by simp [Stream.link?, reading])
      (fun hh hc => h.whole hh hc) (fun hj => h.jobs_stay (fun k hk => ?_) hj)
      fun hj hj' => h.sole hj hj'
    · cases hl : (w.stream s).lifecycle <;> simp_all [Stream.IsFit]
    · rcases k with d | (_ | due)
      · simp [Stream.IsFit, hk.1, reading] at fit
      · obtain ⟨hl, hd, -⟩ := hk
        simp only [Manned, stream_setStream_self _ _ _ hs]
        exact ⟨hl, hd, by rintro _ ⟨⟩⟩
      · obtain ⟨n', hn⟩ := hk.2.2
        simp [hn] at reading

/-- A read kills the pump. -/
theorem crash (h : w.Wired J) {message : String} (reading : (w.stream s).pump = .reading n)
    (running : (w.stream s).stopping = false) :
    ((w.setStream s fun x => { x with pump := .crashed n message }).dropLink n).Wired J := by
  have hs : s < w.streams.size := lt_of_pump (by simp [reading])
  have fit := h.fit s
  have hc : (w.stream s).lifecycle = .connected := by
    cases hl : (w.stream s).lifecycle <;> simp_all [Stream.IsFit]
  refine h.drop (by simp [Stream.link?, reading]) hs (fun _ => ⟨rfl, rfl, rfl, rfl⟩) ?_
    (by simp [Stream.link?]) (fun hh hc => h.whole hh hc)
    (fun hj => h.jobs_stay (fun k hk => ?_) hj) fun hj hj' => h.sole hj hj'
  · simp_all [Stream.IsFit]
  · rcases hk.lifecycle with hl | hl <;> simp [hc] at hl

theorem drift (h : w.Wired J) (g : Drift m w w') : w'.Wired J := by
  induction g with
  | still g =>
    refine h.alike (fun s => ?_) g.connections g.sightings fun s hs => .inl ?_
    · rw [System.stream, System.stream, g.streams]
      exact .refl _
    · rwa [g.frame.isHeld] at hs
  | trans _ _ ih₁ ih₂ => exact ih₂ (ih₁ h)
  | @push w s n data chunk =>
    refine h.alike (alike_setStream fun x => ⟨rfl, rfl, rfl, rfl, rfl⟩) rfl rfl fun t ht => .inl ?_
    have frame : Frame {s} w (w.setStream s fun x => { x with buffer := x.buffer.push data }) :=
      .work (.refl w) fun _ => ⟨rfl, rfl, rfl, rfl⟩
    rwa [frame.isHeld] at ht
  | stop reading => exact h.stop reading
  | crash fatal reading running => exact h.crash reading running
  | @lose w s unheld connected whole =>
    refine h.detach (.inl ⟨connected, unheld⟩) whole (fun n hp => ?_) fun {c t j} hj => ⟨?_, hj⟩
    · have fit := h.fit s
      simp [Stream.IsFit, connected, hp, whole] at fit
    · rintro rfl
      exact h.free (by simp [connected]) (by simp [connected]) c j hj

end Wired

end System

end TunerBroker
