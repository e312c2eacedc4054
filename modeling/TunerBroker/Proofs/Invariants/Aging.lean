import TunerBroker.Proofs.Invariants.WiringRuns

/-! Streams and connections only grow older. A stream keeps the connection it was given; its pump, once
it has stopped or died, does not read again, and the feed, once cleared, does not open again. Payload
moves only when a connection delivers it. What the tuner has seen stays seen. -/

namespace TunerBroker

theorem Pump.connection?_eq_none {p : Pump} : p.connection? = none ↔ p = .idle := by
  cases p <;> simp [connection?]

/-- What the move `m` leaves of a stream. -/
structure Stream.Ages (m : Move) (x y : Stream) : Prop where
  capacity : y.capacity = x.capacity
  connection : ∀ n, x.pump.connection? = some n → y.pump.connection? = some n
  halted : x.pump ≠ .idle → x.pump.isReading = false → y.pump.isReading = false
  crashed : ∀ n message, x.pump = .crashed n message → y.pump = .crashed n message
  /-- Only a fatal read kills a pump. -/
  killed : ∀ n message, y.pump = .crashed n message →
    x.pump = .crashed n message ∨ m = .deliver n (.fatal message)
  detached : x.detached → y.detached
  feed : x.pump ≠ .idle → y.feed → x.feed
  /-- The fan-out starts empty with the connection, and takes only chunks that are delivered. -/
  buffer : (∀ n data, m ≠ .deliver n (.chunk data)) →
    y.buffer = x.buffer ∨ x.pump = .idle ∧ y.buffer = .ofCapacity x.capacity

namespace Stream.Ages

variable {m : Move} {x y z : Stream}

theorem refl (x : Stream) : Ages m x x :=
  ⟨rfl, fun _ => id, fun _ => id, fun _ _ => id, fun _ _ => .inl, id, fun _ => id, fun _ => .inl rfl⟩

theorem ne_idle (h : Ages m x y) (hx : x.pump ≠ .idle) : y.pump ≠ .idle := by
  intro hy
  cases hn : x.pump.connection? with
  | none => exact hx (Pump.connection?_eq_none.1 hn)
  | some n =>
    have := h.connection n hn
    rw [hy] at this
    cases this

theorem trans (h : Ages m x y) (g : Ages m y z) : Ages m x z where
  capacity := g.capacity.trans h.capacity
  connection n hn := g.connection n (h.connection n hn)
  halted hx hr := g.halted (h.ne_idle hx) (h.halted hx hr)
  crashed n message hx := g.crashed n message (h.crashed n message hx)
  killed n message hz := (g.killed n message hz).elim (h.killed n message) .inr
  detached hx := g.detached (h.detached hx)
  feed hx hz := h.feed hx (g.feed (h.ne_idle hx) hz)
  buffer hm := by
    have idle : y.pump = .idle → x.pump = .idle := fun hy => by
      by_contra hx
      exact h.ne_idle hx hy
    rcases g.buffer hm with hz | ⟨hy, hz⟩
    · rw [hz]
      exact h.buffer hm
    · exact .inr ⟨idle hy, by rw [hz, h.capacity]⟩

/-- A change that leaves the pump and the payload alone and opens no feed. -/
theorem of_pump (capacity : y.capacity = x.capacity) (pump : y.pump = x.pump)
    (buffer : y.buffer = x.buffer) (feed : y.feed → x.feed) (detached : x.detached → y.detached) :
    Ages m x y where
  capacity := capacity
  connection _ hn := pump ▸ hn
  halted _ hr := pump ▸ hr
  crashed _ _ hx := pump ▸ hx
  killed _ _ hy := .inl (pump ▸ hy)
  detached := detached
  feed _ := feed
  buffer _ := .inl buffer

/-- A pump comes to an end. -/
theorem of_end {n : ConnectionId} (capacity : y.capacity = x.capacity)
    (before : x.pump.connection? = some n) (alive : ∀ k message, x.pump ≠ .crashed k message)
    (pump : y.pump = .stopped n ∨ y.pump = .collected n)
    (buffer : y.buffer = x.buffer) (feed : y.feed → x.feed) (detached : x.detached → y.detached) :
    Ages m x y where
  capacity := capacity
  connection k hk := by
    obtain rfl : n = k := Option.some.inj (before.symm.trans hk)
    rcases pump with hy | hy <;> rw [hy] <;> rfl
  halted _ _ := by rcases pump with hy | hy <;> rw [hy] <;> rfl
  crashed k message hx := absurd hx (alive k message)
  killed k message hy := by rcases pump with hp | hp <;> rw [hp] at hy <;> cases hy
  detached := detached
  feed _ := feed
  buffer _ := .inl buffer

/-- A stream that has no connection yet is given one. -/
theorem of_idle {n : ConnectionId} (idle : x.pump = .idle) (pump : y.pump = .reading n)
    (capacity : y.capacity = x.capacity) (detached : y.detached = x.detached)
    (buffer : y.buffer = .ofCapacity x.capacity) : Ages m x y where
  capacity := capacity
  connection _ hk := by rw [idle] at hk; cases hk
  halted hx _ := absurd idle hx
  crashed _ _ hx := by rw [idle] at hx; cases hx
  killed _ _ hy := by rw [pump] at hy; cases hy
  detached hx := detached ▸ hx
  feed hx _ := absurd idle hx
  buffer _ := .inr ⟨idle, buffer⟩

end Stream.Ages

namespace System

/-- From `w` to `w'` every stream that is there grows older, and what the tuner has seen stays seen. -/
structure Ages (m : Move) (w w' : System) : Prop where
  streams : ∀ s < w.streams.size, (w.stream s).Ages m (w'.stream s)
  size : w.streams.size ≤ w'.streams.size
  shutdowns : ∀ n, w.shutdownsOf n ≤ w'.shutdownsOf n

variable {m : Move} {w w' w'' : System} {J : CallId → Option (StreamId × Job)} {c : CallId}
  {s t : StreamId} {n : ConnectionId} {i j : Option Job} {f : Stream → Stream}

namespace Ages

theorem refl (w : System) : Ages m w w := ⟨fun _ _ => .refl _, Nat.le_refl _, fun _ => Nat.le_refl _⟩

theorem trans (h : Ages m w w') (g : Ages m w' w'') : Ages m w w'' where
  streams s hs := (h.streams s hs).trans (g.streams s (Nat.lt_of_lt_of_le hs h.size))
  size := h.size.trans g.size
  shutdowns n := (h.shutdowns n).trans (g.shutdowns n)

/-- One stream grows older. -/
theorem setStream (h : Ages m w w') (hf : (w'.stream s).Ages m (f (w'.stream s))) :
    Ages m w (w'.setStream s f) := by
  refine h.trans ⟨fun t _ => ?_, by simp, fun _ => Nat.le_refl _⟩
  rw [stream_setStream]
  split
  · rename_i he
    rw [he.1]
    exact hf
  · exact .refl _

theorem setLink (h : Ages m w w') (n : ConnectionId) (l : LinkState) :
    Ages m w (w'.setLink n l) := { h with }

/-- What the tuner sees is added to what it has seen. -/
theorem witness (h : Ages m w w') (e : TunerEvent) : Ages m w (w'.witness e) := by
  refine h.trans ⟨fun _ _ => .refl _, Nat.le_refl _, fun k => ?_⟩
  rw [shutdownsOf_witness]
  exact Nat.le_add_right _ _

theorem dropLink (h : Ages m w w') (n : ConnectionId) : Ages m w (w'.dropLink n) :=
  (h.setLink n .dropped).witness (.dropped n)

/-- Nothing changes in the streams, nor in what the tuner has seen. -/
theorem of_eq (streams : w'.streams = w.streams) (sightings : w'.sightings = w.sightings) :
    Ages m w w' := by
  refine ⟨fun s _ => ?_, by rw [streams], fun n => by rw [shutdownsOf, shutdownsOf, sightings]⟩
  rw [System.stream, System.stream, streams]
  exact .refl _

/-- A stream is added. -/
theorem addStream (x : Stream) : Ages m w (w.addStream x) := by
  refine ⟨fun s hs => ?_, by simp, fun _ => Nat.le_refl _⟩
  rw [stream_addStream, if_neg (Nat.ne_of_lt hs)]
  exact .refl _

end Ages

theorem ages_detachPump (w : System) (s : StreamId) : Ages m w (w.detachPump s) := by
  have hs : Ages m w (w.setStream s fun x => { x with stopping := true, detached := true }) :=
    (Ages.refl w).setStream (.of_pump rfl rfl rfl id fun _ => rfl)
  simp only [detachPump]
  split
  · rename_i n stopped
    exact (hs.setStream (.of_end rfl (by rw [stopped]; rfl) (by simp [stopped]) (.inr rfl) rfl id
      id)).dropLink n
  · exact hs.setStream (.of_pump rfl rfl rfl (by rintro ⟨⟩) id)
  · exact hs

theorem ages_endPump (reading : (w.stream s).pump = .reading n) : Ages m w (w.endPump s n) := by
  have before : (w.stream s).pump.connection? = some n := by rw [reading]; rfl
  simp only [endPump]
  split
  · exact ((Ages.refl w).setStream (.of_end rfl before (by simp [reading]) (.inr rfl) rfl
      (by rintro ⟨⟩) id)).dropLink n
  · exact (Ages.refl w).setStream (.of_end rfl before (by simp [reading]) (.inl rfl) rfl
      (by rintro ⟨⟩) id)

theorem Drift.ages (h : Drift m w w') : Ages m w w' := by
  induction h with
  | still h => exact .of_eq h.streams h.sightings
  | trans _ _ ih₁ ih₂ => exact ih₁.trans ih₂
  | @push w s n data chunk =>
    refine (Ages.refl w).setStream ?_
    exact { Stream.Ages.refl _ with buffer := fun hm => absurd chunk (hm n data) }
  | stop reading => exact ages_endPump reading
  | @crash w s n message fatal reading running =>
    refine ((Ages.refl w).setStream ?_).dropLink n
    refine { Stream.Ages.refl (m := m) (w.stream s) with
      connection := fun k hk => by rwa [reading] at hk
      halted := fun _ _ => rfl
      crashed := fun k msg hx => by rw [reading] at hx; cases hx
      killed := fun k msg hy => ?_ }
    cases hy
    exact .inr fatal
  | lose unheld connected whole => exact ages_detachPump _ _

/-- Streams grow older with the work of a call. A stream is given a connection only once. -/
theorem Work.ages (g : Work m s i j w w') (h : w.Wired J) (held : w.isHeld s)
    (hJ : J c = i.map (s, ·)) : Ages m w w' := by
  induction g generalizing J with
  | drift g => exact g.ages
  | @trans i j k w w₁ w₂ first second ih₁ ih₂ =>
    have h₁ := h.work first held hJ
    have held₁ : w₁.isHeld s := by rwa [first.frame.isHeld]
    exact (ih₁ h held hJ).trans (ih₂ h₁ held₁ (Function.update_self _ _ _))
  | ask unopened next =>
    unfold System.ask
    refine Ages.setStream (Ages.witness ?_ _) (.of_pump rfl rfl rfl id id)
    exact .of_eq rfl rfl
  | @connect w d =>
    obtain ⟨⟨opening, -⟩, -⟩ := h.inHand hJ
    have fit := h.fit s
    have idle : (w.stream s).pump = .idle := by
      cases hp : (w.stream s).pump <;> simp_all [Stream.IsFit]
    exact ((Ages.refl w).setLink _ _).setStream (.of_idle idle rfl rfl rfl rfl)
  | fail lost => exact ((Ages.refl _).setLink _ _).setStream (.of_pump rfl rfl rfl id id)
  | forsake => exact (Ages.refl _).setLink _ _
  | void unopened => exact (Ages.refl _).setStream (.of_pump rfl rfl rfl id id)
  | halt connected => exact (Ages.refl _).setStream (.of_pump rfl rfl rfl (by rintro ⟨⟩) id)
  | @collect w n due stopped =>
    have before : (w.stream s).pump.connection? = some n := by rw [stopped]; rfl
    exact (((Ages.refl w).setStream (.of_end rfl before (by simp [stopped]) (.inr rfl) rfl id
      id)).setLink n _).witness _
  | bury crashed => exact (Ages.refl _).setStream (.of_pump rfl rfl rfl id id)
  | shut collected => exact ((Ages.refl _).setLink _ _).setStream (.of_pump rfl rfl rfl id id)
  | leave => exact ages_detachPump _ _
  | quit => exact .refl _

theorem ages_beginOpen (w : System) (c : CallId) (a : Acquisition) (x : Slot) :
    Ages m w (w.beginOpen c a x) := by
  have put : Ages m w (w.putSlot (w.brokerOf c) a.key { x with opening := some c }) :=
    .of_eq rfl rfl
  exact (put.trans (.addStream _)).trans (.of_eq rfl rfl)

theorem Change.ages (hc : Change m w w') (h : w.Wired w.jobs) : Ages m w w' := by
  have opened : ∀ {c a s moves wait w₁}, w.phaseOf c = .opening a s moves wait →
      Work m s wait.job? none w w₁ → Ages m w w₁ := by
    intro c a s moves wait w₁ place work
    exact work.ages h (isHeld_of_holds (c := c) (by simp [place, Phase.holds]))
      (by rw [jobs, place]; rfl)
  -- The count of consumers and the name of a stream do not matter.
  have aside : ∀ {v v' : System} {s : StreamId} {f : Stream → Stream},
      v'.streams = (v.setStream s f).streams → v'.sightings = v.sightings → Ages m w v →
      (∀ x : Stream, (f x).capacity = x.capacity ∧ (f x).pump = x.pump ∧ (f x).buffer = x.buffer ∧
        (f x).feed = x.feed ∧ (f x).detached = x.detached) → Ages m w v' := by
    intro v v' s f streams sightings hv hf
    obtain ⟨h₁, h₂, h₃, h₄, h₅⟩ := hf (v.stream s)
    exact (hv.setStream (.of_pump h₁ h₂ h₃ (h₄ ▸ id) (h₅ ▸ id))).trans (.of_eq streams sightings)
  cases hc with
  | stay => exact .refl w
  | @begin b gated errand => exact .of_eq (by simp) (by cases errand <;> rfl)
  | make => exact .addStream _
  | letGo => exact aside rfl rfl (.refl w) fun _ => ⟨rfl, rfl, rfl, rfl, rfl⟩
  | drop | go | demoteJoin | miss | refuse | sweep => exact .of_eq rfl rfl
  | work actor work held leads before =>
    exact (work.ages h (isHeld_of_holds held) before).trans (.of_eq rfl rfl)
  | demote | «open» => exact ages_beginOpen _ _ _ _
  | provide | reuse => exact aside rfl rfl (.refl w) fun _ => ⟨rfl, rfl, rfl, rfl, rfl⟩
  | register actor place work =>
    exact aside rfl rfl (opened place work) fun _ => ⟨rfl, rfl, rfl, rfl, rfl⟩
  | giveUp actor place work => exact (opened place work).trans (.of_eq rfl rfl)
  | detach | last => exact aside rfl rfl (.of_eq rfl rfl) fun _ => ⟨rfl, rfl, rfl, rfl, rfl⟩

theorem Wired.ages_step (h : w.Wired w.jobs) (m : Move) : Ages m w (w.step m) := by
  obtain ⟨w₁, w₂, h₁, hc, h₂⟩ := step_books w m
  exact (h₁.ages.trans (hc.ages (h.drifting h₁))).trans h₂.ages

end System

end TunerBroker
