import TunerBroker.Proofs.Closes.Sweep

/-! What the turns of a sweep change: the streams it is to close and their connections, nothing else.
Each of them goes towards an end that is known from the start, and that no other stream has a part in. -/

namespace TunerBroker

/-- Where a connection stands in the end if its stream is closed. -/
def LinkState.wornDown : LinkState → LinkState
  | live | shutting | shut => shut
  | state => state

/-- A connection in the end, if its stream is closed. -/
def Connection.wornDown (x : Connection) : Connection := { x with state := x.state.wornDown }

/-- The pump in the end, if its stream is closed. -/
def Pump.wornDown : Pump → Pump
  | reading n | stopped n => collected n
  | pump => pump

namespace Stream

/-- A stream in the end, if it is closed. -/
def wornDown (x : Stream) : Stream :=
  { x with lifecycle := .closed, feed := false, stopping := true, pump := x.pump.wornDown }

/-- The stream is connected, or its pump has been told to stop. -/
def Halts (x : Stream) : Prop := x.lifecycle = .connected ∨ x.stopping

/-- A stream that has been closed is at its end. -/
theorem wornDown_of_closed {x : Stream} (fit : x.IsFit) (halts : x.Halts)
    (closed : x.lifecycle = .closed) (shut : x.pump ≠ .idle) : x.wornDown = x := by
  have stopping : x.stopping = true := halts.resolve_left (by simp [closed])
  have parts : x.feed = false ∧ x.pump.wornDown = x.pump := by
    cases hp : x.pump with
    | idle => exact absurd hp shut
    | reading n | stopped n => simp [IsFit, closed, hp] at fit
    | crashed n message | collected n =>
      simp only [IsFit, closed, hp] at fit
      exact ⟨fit.1, rfl⟩
  rw [wornDown, ← closed, ← parts.1, ← stopping, parts.2]

end Stream

namespace System

variable {m : Move} {w w' w'' : System} {c : CallId} {s : StreamId} {n : ConnectionId}
  {l : List StreamId} {closed : List (StreamId × Except StreamError Unit)}

/-- From `w` to `w'` only the streams `l` and their connections change, towards the end they come to if
they are closed. -/
structure Wears (l : List StreamId) (w w' : System) : Prop where
  slots : ∀ b k, w'.slot b k = w.slot b k
  consumers : w'.consumers = w.consumers
  size : w'.streams.size = w.streams.size
  apart : ∀ t ∉ l, w'.stream t = w.stream t
  worn : ∀ t, (w'.stream t).wornDown = (w.stream t).wornDown
  halts : ∀ t, (w.stream t).Halts → (w'.stream t).Halts
  links : ∀ n, (w'.connections.get? n).map Connection.wornDown =
    (w.connections.get? n).map Connection.wornDown
  unlinked : ∀ {n x}, w.connections.get? n = some x → x.stream ∉ l →
    w'.connections.get? n = some x

namespace Wears

theorem refl (l : List StreamId) (w : System) : Wears l w w :=
  ⟨fun _ _ => rfl, rfl, rfl, fun _ _ => rfl, fun _ => rfl, fun _ => id, fun _ => rfl, fun hx _ => hx⟩

theorem trans (h : Wears l w w') (g : Wears l w' w'') : Wears l w w'' where
  slots b k := (g.slots b k).trans (h.slots b k)
  consumers := g.consumers.trans h.consumers
  size := g.size.trans h.size
  apart t ht := (g.apart t ht).trans (h.apart t ht)
  worn t := (g.worn t).trans (h.worn t)
  halts t ht := g.halts t (h.halts t ht)
  links n := (g.links n).trans (h.links n)
  unlinked hx hl := g.unlinked (h.unlinked hx hl) hl

variable (h : Wears l w w')

include h

theorem note (o : Option CallId) (e : Event) : Wears l w (w'.note o e) := { h with }
theorem witness (e : TunerEvent) : Wears l w (w'.witness e) := { h with }
theorem setPhase (c : CallId) (p : Phase) : Wears l w (w'.setPhase c p) := { h with }

theorem still (g : Still w' w'') : Wears l w w'' := by
  have streams : ∀ t, w''.stream t = w'.stream t := fun t => by rw [stream, stream, g.streams]
  refine h.trans ⟨g.frame.slot, g.frame.consumers, g.frame.streams, fun t _ => streams t,
    fun t => by rw [streams], fun t => by rw [streams]; exact id, fun n => by rw [g.connections],
    fun hx _ => by rw [g.connections, hx]⟩

theorem setStream (hs : s ∈ l) {f : Stream → Stream}
    (worn : (f (w'.stream s)).wornDown = (w'.stream s).wornDown)
    (halts : (w'.stream s).Halts → (f (w'.stream s)).Halts) : Wears l w (w'.setStream s f) := by
  refine h.trans { refl l w' with
    size := streams_size_setStream w' s f
    apart := fun t ht => stream_setStream_ne _ _ _ _ fun he => ht (he ▸ hs)
    worn := fun t => ?_
    halts := fun t ht => ?_ }
  · rw [stream_setStream]
    split
    · rename_i he
      rw [he.1, worn]
    · rfl
  · rw [stream_setStream]
    split
    · rename_i he
      rw [he.1] at ht ⊢
      exact halts ht
    · exact ht

theorem setLink {x : Connection} {state : LinkState} (hx : w'.connections.get? n = some x)
    (hs : x.stream ∈ l) (worn : state.wornDown = x.state.wornDown) :
    Wears l w (w'.setLink n state) := by
  refine h.trans { refl l w' with links := fun k => ?_, unlinked := fun {k y} hy hl => ?_ }
  · rw [System.setLink, Table.get?_update]
    split
    · rename_i hk
      rw [hk, hx]
      simp [Connection.wornDown, worn]
    · rfl
  · rw [System.setLink, Table.get?_update, if_neg, hy]
    rintro rfl
    rw [hx] at hy
    exact hl (Option.some.inj hy ▸ hs)

end Wears

/-! ### Turns of a close -/

theorem wears_startClose (c : CallId) (hs : s ∈ l) (connected : (w.stream s).lifecycle = .connected) :
    Wears l w (w.startClose c s).1 := by
  simp only [startClose, connected]
  exact (Wears.refl l w).setStream hs rfl fun _ => .inr rfl

theorem Wears.bury (h : Wears l w w') (hs : s ∈ l) (c : CallId) (fault : Option ShutdownFault)
    (halts : (w'.stream s).stopping) : Wears l w (w'.closed c s fault).1 := by
  obtain ⟨e, he, -⟩ := fst_closed w' c s fault
  rw [he]
  exact (h.setStream hs rfl fun _ => .inr halts).note _ _

theorem wears_advanceClose {J : CallId → Option (StreamId × Job)} {stage : CloseStage} (c : CallId)
    (wired : w.Wired J) (hs : s ∈ l) (manned : w.Manned s (.close stage)) :
    Wears l w (w.advanceClose c s stage).1 := by
  have fit := wired.fit s
  cases stage with
  | joining =>
    obtain ⟨closing, -, -⟩ := manned
    simp only [advanceClose]
    split
    · rename_i n stopped
      obtain ⟨x, hx, own, state⟩ := wired.linked (s := s) (n := n) (l := .live)
        (by rw [Stream.link?, stopped])
      have collected : Wears l w (w.setStream s fun x => { x with pump := .collected n }) := by
        refine (Wears.refl l w).setStream hs ?_ id
        rw [Stream.wornDown, Stream.wornDown, stopped]
        rfl
      exact (collected.setLink hx (own ▸ hs) (by rw [state]; rfl)).witness _
    · rename_i n message crashed
      refine (Wears.refl l w).bury hs c _ ?_
      simp only [Stream.IsFit, closing, crashed] at fit
      exact fit.2
    · exact .refl l w
  | shutting due =>
    obtain ⟨closing, detached, n, collected⟩ := manned
    obtain ⟨x, hx, own, state⟩ := wired.linked (s := s) (n := n) (l := .shutting)
      (by simp [Stream.link?, collected, detached, closing])
    simp only [advanceClose, collected]
    refine Wears.bury ((Wears.refl l w).setLink hx (own ▸ hs) (by rw [state]; rfl)) hs c _ ?_
    simp only [Stream.IsFit, closing, collected] at fit
    exact fit.2

/-- A close goes on, or comes out and leaves nothing to destroy. -/
theorem wears_settled {p : CloseStage → Phase} {q : Except StreamError Unit → Phase} {step : CloseStep}
    (h : Wears l w w') (c : CallId)
    (down : ∀ result, step = .finished result → (w'.stream s).lifecycle = .closed) :
    Wears l w (w'.settled c s p q step) := by
  cases step with
  | stage stage => exact h.setPhase c _
  | finished result =>
    have still := still_account w' (w'.brokerOf c) result
    have same : (((w'.account (w'.brokerOf c) result).setPhase c (q result)).stream s).lifecycle =
        .closed := by
      rw [stream_setPhase, stream, still.streams]
      exact down result rfl
    rw [settled, reap_of_closed same]
    exact (h.still still).setPhase c _

/-- A turn of a call that has a stream to close changes nothing but that stream and its connection. -/
theorem Regular.wears_closing {stage : Option CloseStage} (reg : w.Regular) (hs : s ∈ l)
    (closing : (w.phaseOf c).closing? = some (s, stage)) : Wears l w (w.step (.turn (.call c))) := by
  by_cases ready : w.ready (.call c)
  swap
  · rw [step_unready (Bool.eq_false_of_not_eq_true ready)]
    exact .refl l w
  have atHand := atHand_of_closing? reg.wired (fun t ht => reg.poised.ahead ht) closing
  obtain ⟨u, hu, turned⟩ := step_closing? closing ready
  rw [turned]
  cases stage with
  | none =>
    have connected : (w.stream s).lifecycle = .connected := atHand
    have noted : Wears l w u ∧ (u.stream s).lifecycle = .connected := by
      rcases hu with rfl | ⟨-, e, rfl⟩
      · exact ⟨.refl l u, connected⟩
      · exact ⟨(Wears.refl l w).note _ _, connected⟩
    refine wears_settled (noted.1.trans (wears_startClose c hs noted.2)) c fun result ends => ?_
    simp only [turnClose, startClose, noted.2] at ends
    cases ends
  | some stage =>
    obtain rfl : u = w := hu.resolve_right fun hn => by cases hn.1
    refine wears_settled (wears_advanceClose c reg.wired hs atHand) c fun result ends => ?_
    rcases advanceClose_ends c atHand with ⟨next, hn⟩ | ⟨-, down, -⟩
    · rw [turnClose, hn] at ends
      cases ends
    · exact congrArg Stream.lifecycle down

/-! ### Quiet moves -/

namespace Sweeping

variable (h : w.Sweeping c l closed)

include h

/-- What the sweep has still to close is among its streams. -/
theorem closes_subset : (w.phaseOf c).closes ⊆ l := by
  cases h.stands with
  | under place order =>
    rw [order]
    exact List.subset_append_right _ _
  | past place | left place =>
    rw [place]
    exact List.nil_subset l

/-- As long as the sweep goes on, it has yet to close a stream, or has closed it. -/
theorem pending_or_buried (kept : w.phaseOf c ≠ .abandoned) (hs : s ∈ l) :
    s ∈ (w.phaseOf c).closes ∨ ∃ x ∈ closed, x.1 = s := by
  have past : s ∈ closed.map (·.1) → ∃ x ∈ closed, x.1 = s := List.mem_map.1
  cases h.stands with
  | under place order =>
    rw [order] at hs
    exact (List.mem_append.1 hs).symm.imp id past
  | past place all => exact .inr (past (all ▸ hs))
  | left place => exact absurd place kept

variable (reg : w.Regular)

include reg

/-- As long as the sweep goes on, somebody will collect the connections of its streams. -/
theorem undetached (kept : w.phaseOf c ≠ .abandoned) (hs : s ∈ l) : (w.stream s).detached = false := by
  rcases h.pending_or_buried kept hs with closes | ⟨x, hx, rfl⟩
  · by_cases begun : s ∈ (w.phaseOf c).ahead
    · exact reg.wired.whole (isHeld_of_holds (Phase.owns_subset _ (Phase.closes_subset _ closes)))
        (reg.poised.ahead begun)
    · obtain ⟨stage, job⟩ := jobs_of_closes closes begun
      have manned := reg.wired.manned job
      cases stage <;> exact manned.2.1
  · have fit := reg.wired.fit x.1
    have down := (h.buried x hx).closed
    cases hp : (w.stream x.1).pump <;> simp [Stream.IsFit, down, hp] at fit <;> exact fit.2

/-- A turn of a sweep changes nothing but what it is to close. -/
theorem wears_turn : Wears l w (w.step (.turn (.call c))) := by
  by_cases ready : w.ready (.call c)
  swap
  · rw [step_unready (Bool.eq_false_of_not_eq_true ready)]
    exact .refl l w
  cases hc : (w.phaseOf c).closes with
  | nil =>
    cases h.stands with
    | under place =>
      rw [step_sweepEnd (place.trans (sweeping_of_closes_eq_nil (place ▸ hc)))]
      refine Wears.setPhase ?_ c _
      split
      · exact (Wears.refl l w).note _ _
      · exact .refl l w
    | past place | left place => simp [System.ready, phaseReady, place] at ready
  | cons s left =>
    have hs : s ∈ l := h.closes_subset (hc ▸ List.mem_cons_self)
    obtain ⟨stage, closing⟩ := Phase.closing?_of_closes hc
    exact reg.wears_closing hs closing

/-- The pump of one of the streams stops. -/
theorem wears_pump (kept : w.phaseOf c ≠ .abandoned) (hs : s ∈ l) :
    Wears l w (w.step (.turn (.pump s))) := by
  simp only [System.step, turn]
  split
  · simp only [turnPump]
    split
    · rename_i n reading
      split
      · rw [endPump, if_neg (by simp [h.undetached reg kept hs])]
        refine (Wears.refl l w).setStream hs ?_ id
        rw [Stream.wornDown, Stream.wornDown, reading]
        rfl
      · exact .refl l w
    · exact .refl l w
  · exact .refl l w

/-- A quiet move changes nothing but what the sweep is to close. -/
theorem wears_quiet (kept : w.phaseOf c ≠ .abandoned) (quiet : m.IsQuiet c l) :
    Wears l w (w.step m) := by
  cases m with
  | turn r =>
    cases r with
    | call d =>
      obtain rfl : d = c := quiet
      exact h.wears_turn reg
    | pump s => exact h.wears_pump reg kept quiet
  | elapse ms => exact { Wears.refl l w with }
  | _ => cases quiet

end Sweeping

end System

end TunerBroker
