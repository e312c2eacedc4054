import TunerBroker.Proofs.Closes.Closing
import TunerBroker.Proofs.Closes.Sealing
import TunerBroker.Proofs.Invariants.Aging
import TunerBroker.Proofs.Invariants.Wishes

/-! How a close comes out. A connection keeps its stream and its terms, and a stream that has been closed
keeps its pump as it was, so that the result of the close can be read off them at any later time. -/

namespace TunerBroker

namespace System

variable {m : Move} {w w' w'' : System} {c : CallId} {s : StreamId} {n : ConnectionId}
  {i j : Option Job} {f : Stream → Stream}

/-! ### Terms of connections -/

/-- Connections are those they were, whatever has become of them: they belong to their streams, and the
tuner treats them as it did. -/
def KeepsTerms (w w' : System) : Prop :=
  ∀ n x, w.connections.get? n = some x →
    ∃ y, w'.connections.get? n = some y ∧ y.stream = x.stream ∧ y.terms = x.terms

namespace KeepsTerms

theorem of_eq (h : w'.connections = w.connections) : KeepsTerms w w' :=
  fun _ x hx => ⟨x, by rw [h, hx], rfl, rfl⟩

theorem refl (w : System) : KeepsTerms w w := .of_eq rfl

theorem trans (h : KeepsTerms w w') (g : KeepsTerms w' w'') : KeepsTerms w w'' := by
  intro n x hx
  obtain ⟨y, hy, sy, ty⟩ := h n x hx
  obtain ⟨z, hz, sz, tz⟩ := g n y hy
  exact ⟨z, hz, sz.trans sy, tz.trans ty⟩

theorem setLink (h : KeepsTerms w w') (n : ConnectionId) (l : LinkState) :
    KeepsTerms w (w'.setLink n l) := by
  refine h.trans fun k x hx => ?_
  by_cases hk : k = n
  · exact ⟨{ x with state := l }, by simp [System.setLink, Table.get?_update, hk ▸ hx, hk], rfl, rfl⟩
  · exact ⟨x, by simp [System.setLink, Table.get?_update, hk, hx], rfl, rfl⟩

theorem setStream (h : KeepsTerms w w') (s : StreamId) (f : Stream → Stream) :
    KeepsTerms w (w'.setStream s f) := h.trans (.of_eq rfl)

theorem dropLink (h : KeepsTerms w w') (n : ConnectionId) : KeepsTerms w (w'.dropLink n) :=
  h.setLink n .dropped

theorem detachPump (h : KeepsTerms w w') (s : StreamId) : KeepsTerms w (w'.detachPump s) := by
  have marked := h.setStream s fun x => { x with stopping := true, detached := true }
  simp only [System.detachPump]
  split
  · exact (marked.setStream s _).dropLink _
  · exact marked.setStream s _
  · exact marked

theorem endPump (h : KeepsTerms w w') (s : StreamId) (n : ConnectionId) :
    KeepsTerms w (w'.endPump s n) := by
  simp only [System.endPump]
  split
  · exact (h.setStream s _).dropLink n
  · exact h.setStream s _

/-- A new connection leaves those that are there. -/
theorem ask (w : System) (s : StreamId) : KeepsTerms w (w.ask s) := by
  intro n x hx
  refine ⟨x, ?_, rfl, rfl⟩
  show (w.connections.add _).get? n = some x
  rw [Table.get?_add, if_neg (Nat.ne_of_lt (Table.lt_size_of_get? hx)), hx]

theorem terms (h : KeepsTerms w w') (there : n < w.connections.size) :
    (w'.connection n).terms = (w.connection n).terms := by
  cases hx : w.connections.get? n with
  | none => exact absurd ((Table.get?_eq_none_iff _ _).1 hx) (Nat.not_le.2 there)
  | some x =>
    obtain ⟨y, hy, -, same⟩ := h n x hx
    rw [connection, connection, hx, hy]
    exact same

end KeepsTerms

theorem Drift.keepsTerms (h : Drift m w w') : KeepsTerms w w' := by
  induction h with
  | still h => exact .of_eq h.connections
  | trans _ _ ih₁ ih₂ => exact ih₁.trans ih₂
  | push => exact (KeepsTerms.refl _).setStream _ _
  | stop => exact (KeepsTerms.refl _).endPump _ _
  | crash => exact ((KeepsTerms.refl _).setStream _ _).dropLink _
  | lose => exact (KeepsTerms.refl _).detachPump _

theorem Work.keepsTerms (h : Work m s i j w w') : KeepsTerms w w' := by
  induction h with
  | drift h => exact h.keepsTerms
  | trans _ _ ih₁ ih₂ => exact ih₁.trans ih₂
  | ask => exact .ask _ _
  | connect | fail | shut => exact ((KeepsTerms.refl _).setLink _ _).setStream _ _
  | forsake => exact (KeepsTerms.refl _).setLink _ _
  | void | halt | bury => exact (KeepsTerms.refl _).setStream _ _
  | collect => exact ((KeepsTerms.refl _).setStream _ _).setLink _ _
  | leave => exact (KeepsTerms.refl _).detachPump _
  | quit => exact .refl _

theorem Change.keepsTerms (hc : Change m w w') : KeepsTerms w w' := by
  cases hc with
  | stay => exact .refl w
  | @begin b gated errand => exact .of_eq (by cases errand <;> rfl)
  | work actor work => exact work.keepsTerms.trans (.of_eq rfl)
  | register actor place work => exact work.keepsTerms.trans (.of_eq rfl)
  | giveUp actor place work => exact work.keepsTerms.trans (.of_eq rfl)
  | _ => exact .of_eq rfl

theorem keepsTerms_step (w : System) (m : Move) : KeepsTerms w (w.step m) := by
  obtain ⟨w₁, w₂, h₁, hc, h₂⟩ := step_books w m
  exact (h₁.keepsTerms.trans hc.keepsTerms).trans h₂.keepsTerms

/-! ### Results of closes -/

/-- The pump of a closed stream stays as it is: its connection has been shut down or lost, and that is not
undone. -/
theorem Buried.pump_step (h : w.Buried s) (l : w.Ledger) (wired : w.Wired w.jobs)
    (there : (w.stream s).pump ≠ .idle) (m : Move) :
    ((w.step m).stream s).pump = (w.stream s).pump := by
  have made := h.spent.made l
  have ages := wired.ages_step m
  have fit := wired.fit s
  have fit' := (wired.step m).fit s
  have closed := h.closed_step l m
  cases hp : (w.stream s).pump with
  | crashed n message => exact (ages.streams s made).crashed n message hp
  | reading n | stopped n => simp [Stream.IsFit, h.closed, hp] at fit
  | collected n =>
    have connection := (ages.streams s made).connection n (by rw [hp]; rfl)
    have shut : (w.step m).shutdownsOf n = 1 := Nat.le_antisymm ((wired.step m).shutdowns_le n)
      (wired.shut_of_closed h.closed hp ▸ ages.shutdowns n)
    cases hp' : ((w.step m).stream s).pump with
    | collected k =>
      rw [hp'] at connection
      exact congrArg Pump.collected (Option.some.inj connection)
    | crashed k message =>
      rw [hp'] at connection
      obtain rfl : k = n := Option.some.inj connection
      -- A connection that was lost has seen no shutdown.
      obtain ⟨x, hx, -, state⟩ := (wired.step m).linked (s := s) (n := k) (l := .dropped)
        (by simp [Stream.link?, hp'])
      have seen := ((wired.step m).seen k).1
      rw [hx, Option.elim_some, state, shut] at seen
      cases seen
    | idle =>
      rw [hp'] at connection
      cases connection
    | reading k | stopped k => simp [Stream.IsFit, closed, hp'] at fit'
  | idle => exact absurd hp there

/-- The result of a close can be read off the stream and its connection, whatever comes after. -/
theorem shutResult_congr (wired : w.Wired w.jobs) (made : s < w.streams.size) (m : Move)
    (pump : ((w.step m).stream s).pump = (w.stream s).pump) :
    (w.step m).shutFault s = w.shutFault s ∧ (w.step m).shutResult s = w.shutResult s := by
  have fault : (w.step m).shutFault s = w.shutFault s := by
    rw [shutFault, shutFault, pump]
    cases hp : (w.stream s).pump with
    | collected n =>
      obtain ⟨x, hx, -⟩ := wired.linked (s := s) (n := n) (by rw [Stream.link?, hp])
      exact congrArg (fun t : TunerTerms => t.shutdownFailure.map ShutdownFault.transport)
        ((keepsTerms_step w m).terms (Table.lt_size_of_get? hx))
    | _ => rfl
  refine ⟨fault, ?_⟩
  rw [shutResult, shutResult, fault, Stream.key, Stream.key, request_step made]

end System

end TunerBroker
