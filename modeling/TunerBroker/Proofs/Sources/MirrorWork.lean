import TunerBroker.Proofs.Sources.Mirrors

/-! The work on a stream that is shown, done alike in a system and in its mirror: opening, closing, its
pump, and what its connection delivers. -/

namespace TunerBroker

namespace Excerpt

open TunerBroker.System

variable {E : Excerpt} {g : BrokerId → Counters} {v w : System} {c d : CallId} {s : StreamId}
  {n : ConnectionId}

theorem Links.setLink {m : ConnectionId} (h : E.Links w n s) (l : LinkState) :
    E.Links (w.setLink m l) n s := by
  obtain ⟨shown, there, place⟩ := h
  refine ⟨shown, by simpa [System.setLink] using there, ?_⟩
  rw [← place]
  simp only [connection, System.setLink, Table.get?_update]
  split
  · cases w.connections.get? n <;> rfl
  · rfl

namespace Mirrors

variable (h : E.Mirrors g v w) (hs : s ∈ E.streams)

include h hs

/-! ### Opening -/

theorem startOpen (c d : CallId) (token : Option Token)
    (asks : (w.stream s).lifecycle = .unopened → w.hasFired token = false →
      w.connections.size ∈ E.connections ∧ v.terms.headD {} = w.terms.headD {}) :
    E.Mirrors g (v.startOpen d (E.streams s) token).1 (w.startOpen c s token).1 ∧
      (v.startOpen d (E.streams s) token).2 = E.openStep (w.startOpen c s token).2 := by
  simp only [System.startOpen, h.stream s hs, lifecycle_stream, key_stream, openTimeout_stream,
    h.hasFired]
  split
  · exact ⟨h.note _ _ _ _, rfl⟩
  · rename_i unopened
    split
    · exact ⟨h, rfl⟩
    · rename_i unfired
      obtain ⟨hn, answer⟩ := asks (not_not.1 unopened) (Bool.eq_false_iff.2 unfired)
      refine ⟨h.ask hs hn answer, ?_⟩
      simp only [openStep, dial, h.connections, h.clock, answer]

theorem connected (c d : CallId) (hn : E.Links w n s) :
    E.Mirrors g (v.connected d (E.streams s) (E.connections n)) (w.connected c s n) := by
  have linked := h.setLink (E.connections n) n .live .live
  refine note (linked.setStream hs ?_ fun m hm => ?_) _ _ _ _
  · rfl
  · rw [← Option.some.inj hm]
    exact hn.setLink _

theorem unconnected (n : ConnectionId) (l : LinkState) :
    E.Mirrors g (v.unconnected (E.streams s) (E.connections n) l) (w.unconnected s n l) :=
  (h.setLink _ _ l l).tuneStream hs rfl rfl

theorem finishOpen (c d : CallId) {x : Dial} (hx : E.Links w x.connection s) :
    E.Mirrors g (v.finishOpen d (E.streams s) (E.dial x)).1 (w.finishOpen c s x).1 ∧
      (v.finishOpen d (E.streams s) (E.dial x)).2 = E.result (w.finishOpen c s x).2 := by
  simp only [System.finishOpen, dial, h.stream s hs, key_stream, openTimeout_stream, h.hasFired, h.clock,
    h.terms _ hx.1]
  split
  · exact ⟨h.unconnected hs _ _, rfl⟩
  · split
    · split
      · exact ⟨h.unconnected hs _ _, rfl⟩
      · exact ⟨h.connected hs c d hx, rfl⟩
    · exact ⟨h.unconnected hs _ _, rfl⟩

/-! ### Closing -/

theorem startClose (c d : CallId) :
    E.Mirrors g (v.startClose d (E.streams s)).1 (w.startClose c s).1 ∧
      (v.startClose d (E.streams s)).2 = E.closeStep (w.startClose c s).2 := by
  simp only [System.startClose, h.stream s hs, lifecycle_stream, key_stream]
  cases (w.stream s).lifecycle with
  | connected => exact ⟨h.tuneStream hs rfl rfl, rfl⟩
  | unopened => exact ⟨h.tuneStream hs rfl rfl, rfl⟩
  | opening | closing | closed => exact ⟨h.note _ _ _ _, rfl⟩

theorem closed (c d : CallId) (f : Option ShutdownFault) :
    E.Mirrors g (v.closed d (E.streams s) (f.map E.fault)).1 (w.closed c s f).1 ∧
      (v.closed d (E.streams s) (f.map E.fault)).2 = E.closeStep (w.closed c s f).2 := by
  have ended := h.tuneStream hs (f := fun x => { x with lifecycle := .closed }) rfl rfl
  cases f with
  | none => exact ⟨ended.note _ _ _ _, rfl⟩
  | some f =>
    refine ⟨ended.note _ _ _ _, ?_⟩
    simp only [System.closed, Option.map_some, ended.stream s hs, key_stream]
    rfl

theorem advanceClose (c d : CallId) (stage : CloseStage) :
    E.Mirrors g (v.advanceClose d (E.streams s) stage).1 (w.advanceClose c s stage).1 ∧
      (v.advanceClose d (E.streams s) stage).2 = E.closeStep (w.advanceClose c s stage).2 := by
  cases stage with
  | joining =>
    simp only [System.advanceClose, h.stream s hs, pump_stream]
    cases hp : (w.stream s).pump with
    | stopped n =>
      have taken : E.Mirrors g (v.collect (E.streams s) (E.connections n)) (w.collect s n) := by
        refine witness (setLink (h.setPump hs (n := n) (by rw [hp]; rfl) ?_ rfl) _ _ _ _) _ _
        rfl
      refine ⟨taken, ?_⟩
      have hn := (h.pumps s hs n (by rw [hp]; rfl)).1
      simp only [pump, h.clock, h.terms n hn]
      rfl
    | crashed n message => exact h.closed hs c d (some (.readerDied n message))
    | idle | reading n | collected n => exact ⟨h, rfl⟩
  | shutting due =>
    simp only [System.advanceClose, h.stream s hs, pump_stream]
    cases hp : (w.stream s).pump with
    | collected n =>
      have hn := (h.pumps s hs n (by rw [hp]; rfl)).1
      have faults : ∀ f : Option String,
          (f.map ShutdownFault.transport).map E.fault = f.map ShutdownFault.transport := by
        rintro (_ | _) <;> rfl
      have ended := (h.setLink (E.connections n) n .shut .shut).closed hs c d
        ((w.connection n).terms.shutdownFailure.map .transport)
      simp only [pump, h.terms n hn]
      rwa [faults] at ended
    | idle | reading n | stopped n | crashed n message => exact ⟨h, rfl⟩

theorem turnClose (c d : CallId) (stage : Option CloseStage) :
    E.Mirrors g (v.turnClose d (E.streams s) stage).1 (w.turnClose c s stage).1 ∧
      (v.turnClose d (E.streams s) stage).2 = E.closeStep (w.turnClose c s stage).2 := by
  cases stage with
  | none => exact h.startClose hs c d
  | some stage => exact h.advanceClose hs c d stage

theorem abandonClose (stage : CloseStage) :
    E.Mirrors g (v.abandonClose (E.streams s) stage) (w.abandonClose s stage) := by
  cases stage with
  | joining => exact h.detachPump hs
  | shutting due => exact h

theorem abandonWait (x : OpenWait) :
    E.Mirrors g (v.abandonWait (E.streams s) (E.wait x)) (w.abandonWait s x) := by
  cases x with
  | dialing d => exact h.setLink _ _ _ _
  | closing stage => exact h.abandonClose hs stage
  | nowhere | outside | pausing | ending => exact h

/-! ### The pump -/

theorem endPump (hn : (w.stream s).pump.connection? = some n) :
    E.Mirrors g (v.endPump (E.streams s) (E.connections n)) (w.endPump s n) := by
  simp only [System.endPump, h.stream s hs, detached_stream]
  split
  · refine dropLink (h.setPump hs hn ?_ rfl) _ _
    rfl
  · exact h.setPump hs hn rfl rfl

theorem turnPump : E.Mirrors g (v.turnPump (E.streams s)) (w.turnPump s) := by
  simp only [System.turnPump, h.stream s hs, pump_stream, stopping_stream]
  cases hp : (w.stream s).pump with
  | reading n =>
    simp only [pump]
    split
    · exact h.endPump hs (by rw [hp]; rfl)
    · exact h
  | idle | stopped n | crashed n message | collected n => exact h

omit hs in
theorem accepts (hn : n ∈ E.connections) (there : n < w.connections.size)
    (hs : (w.connection n).stream ∈ E.streams) : v.accepts (E.connections n) = w.accepts n := by
  have reads : E.pump (w.stream (w.connection n).stream).pump = .reading (E.connections n) ↔
      (w.stream (w.connection n).stream).pump = .reading n := by
    cases hp : (w.stream (w.connection n).stream).pump with
    | reading m =>
      have hm := (h.pumps _ hs m (by rw [hp]; rfl)).1
      simp [pump, Pick.inj hm hn]
    | idle | stopped m | crashed m message | collected m => simp [pump]
  simp only [System.accepts, h.place n hn there, h.stream _ hs, pump_stream, stopping_stream, reads]

omit hs in
theorem deliver (hn : n ∈ E.connections) (there : n < w.connections.size)
    (hs : (w.connection n).stream ∈ E.streams) (e : SourceEvent) :
    E.Mirrors g (v.deliver (E.connections n) e) (w.deliver n e) := by
  simp only [System.deliver, h.accepts hn there hs, h.place n hn there]
  split
  · rename_i accepted
    have hp : (w.stream (w.connection n).stream).pump.connection? = some n := by
      simp only [System.accepts, Bool.and_eq_true, decide_eq_true_eq] at accepted
      rw [accepted.1]
      rfl
    cases e with
    | chunk data => exact h.tuneStream hs rfl rfl
    | finish | failure message => exact (h.note _ _ _ _).endPump hs hp
    | fatal message =>
      refine dropLink (h.setPump hs hp ?_ rfl) _ _
      rfl
  · exact h

end Mirrors

end Excerpt

end TunerBroker
