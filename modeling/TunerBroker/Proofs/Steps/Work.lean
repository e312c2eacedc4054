import TunerBroker.Proofs.Steps.Frame

/-! Work on streams and their connections, taken apart into its smallest changes. Some come about by
themselves: a pump stops or dies, and a stream that nothing keeps alive is destroyed. The others are
made by a call with a job on a stream, to open or to close it, and each takes that job further. -/

namespace TunerBroker

/-- What a call has under way on a stream. -/
inductive Job where
  | dial (dial : Dial)
  | close (stage : CloseStage)

/-- The job of an open that waits. -/
def OpenWait.job? : OpenWait → Option Job
  | dialing d => some (.dial d)
  | closing stage => some (.close stage)
  | _ => none

/-- The job of a call, with the stream it is on. -/
def Phase.job? : Phase → Option (StreamId × Job)
  | opening _ s _ wait => wait.job?.map (s, ·)
  | rejecting s stage _ | tearing s stage => stage.map (s, .close ·)
  | sweeping current _ _ => current.map fun x => (x.1, .close x.2)
  | dialing s d => some (s, .dial d)
  | closing s stage => some (s, .close stage)
  | _ => none

/-- The job that is left after a first attempt to open. -/
def OpenStep.job? : OpenStep → Option Job
  | dialing d => some (.dial d)
  | finished _ => none

/-- The job that is left after a turn of a close. -/
def CloseStep.job? : CloseStep → Option Job
  | stage next => some (.close next)
  | finished _ => none

namespace System

/-- Nothing changes but the log, the counters, the announcements and what comes from outside. -/
structure Still (w w' : System) : Prop where
  frame : Frame ∅ w w'
  streams : w'.streams = w.streams
  connections : w'.connections = w.connections
  sightings : w'.sightings = w.sightings
  terms : w'.terms = w.terms

/-- Changes that come about by themselves in the course of a move. -/
inductive Drift (m : Move) : System → System → Prop where
  | still {w w' : System} (still : Still w w') : Drift m w w'
  | trans {w w' w'' : System} (first : Drift m w w') (second : Drift m w' w'') : Drift m w w''
  /-- A chunk goes to the fan-out. -/
  | push {w : System} {s : StreamId} {n : ConnectionId} {data : Text.Bytes}
      (chunk : m = .deliver n (.chunk data)) :
      Drift m w (w.setStream s fun x => { x with buffer := x.buffer.push data })
  /-- A pump ends. -/
  | stop {w : System} {s : StreamId} {n : ConnectionId} (reading : (w.stream s).pump = .reading n) :
      Drift m w (w.endPump s n)
  /-- A read kills the pump. -/
  | crash {w : System} {s : StreamId} {n : ConnectionId} {message : String}
      (fatal : m = .deliver n (.fatal message)) (reading : (w.stream s).pump = .reading n)
      (running : (w.stream s).stopping = false) :
      Drift m w ((w.setStream s fun x => { x with pump := .crashed n message }).dropLink n)
  /-- A connected stream is destroyed. -/
  | lose {w : System} {s : StreamId} (unheld : w.isHeld s = false)
      (connected : (w.stream s).lifecycle = .connected) (whole : (w.stream s).detached = false) :
      Drift m w (w.detachPump s)

/-- Changes of the stream `s` by a call that has one job on it before and another after. -/
inductive Work (m : Move) (s : StreamId) : Option Job → Option Job → System → System → Prop where
  | drift {j : Option Job} {w w' : System} (drift : Drift m w w') : Work m s j j w w'
  | trans {i j k : Option Job} {w w' w'' : System} (first : Work m s i j w w')
      (second : Work m s j k w' w'') : Work m s i k w w''
  /-- The tuner is asked for a connection. -/
  | ask {w : System} {d : Dial} (unopened : (w.stream s).lifecycle = .unopened)
      (next : d.connection = w.connections.size) : Work m s none (some (.dial d)) w (w.ask s)
  /-- The tuner gives the connection. -/
  | connect {w : System} {d : Dial} : Work m s (some (.dial d)) none w
      ((w.setLink d.connection .live).setStream s fun x =>
        { x with lifecycle := .connected, feed := true, pump := .reading d.connection,
                 buffer := .ofCapacity x.capacity })
  /-- The tuner refuses, or is not waited for. -/
  | fail {w : System} {d : Dial} {l : LinkState} (lost : l = .refused ∨ l = .forsaken) :
      Work m s (some (.dial d)) none w (w.unconnected s d.connection l)
  /-- The call is abandoned while the tuner is asked. -/
  | forsake {w : System} {d : Dial} {c : CallId} (dropped : m = .abandon c) :
      Work m s (some (.dial d)) none w (w.setLink d.connection .forsaken)
  /-- A stream that was never opened is closed. -/
  | void {w : System} (unopened : (w.stream s).lifecycle = .unopened) :
      Work m s none none w (w.setStream s fun x => { x with lifecycle := .closed })
  /-- A close begins. -/
  | halt {w : System} (connected : (w.stream s).lifecycle = .connected) :
      Work m s none (some (.close .joining)) w (w.setStream s fun x =>
        { x with lifecycle := .closing, feed := false, stopping := true })
  /-- The connection is taken from the pump, and its shutdown begins. -/
  | collect {w : System} {n : ConnectionId} {due : Nat}
      (stopped : (w.stream s).pump = .stopped n) :
      Work m s (some (.close .joining)) (some (.close (.shutting due))) w (w.collect s n)
  /-- The pump that was to be stopped has died. -/
  | bury {w : System} {n : ConnectionId} {message : String}
      (crashed : (w.stream s).pump = .crashed n message) :
      Work m s (some (.close .joining)) none w (w.setStream s fun x => { x with lifecycle := .closed })
  /-- The shutdown is over. -/
  | shut {w : System} {n : ConnectionId} {due : Nat}
      (collected : (w.stream s).pump = .collected n) :
      Work m s (some (.close (.shutting due))) none w
        ((w.setLink n .shut).setStream s fun x => { x with lifecycle := .closed })
  /-- The call is abandoned while the pump stops. -/
  | leave {w : System} {c : CallId} (dropped : m = .abandon c) :
      Work m s (some (.close .joining)) none w (w.detachPump s)
  /-- The call is abandoned while the connection shuts down. -/
  | quit {w : System} {due : Nat} {c : CallId} (dropped : m = .abandon c) :
      Work m s (some (.close (.shutting due))) none w w

variable {m : Move} {s t : StreamId} {i j k : Option Job} {w w' w'' : System}

/-! ### Changes by themselves -/

theorem Still.refl (w : System) : Still w w := ⟨.refl w, rfl, rfl, rfl, rfl⟩

theorem Still.note (h : Still w w') (c : Option CallId) (e : Event) : Still w (w'.note c e) :=
  ⟨h.frame.note c e, h.streams, h.connections, h.sightings, h.terms⟩

theorem Still.record (h : Still w w') (b : BrokerId) (t : Tick) : Still w (w'.record b t) :=
  ⟨h.frame.record b t, h.streams, h.connections, h.sightings, h.terms⟩

theorem Still.announce (h : Still w w') (c : CallId) (a : Announcement) :
    Still w (w'.announce c a) :=
  ⟨h.frame.announce c a, h.streams, h.connections, h.sightings, h.terms⟩

theorem still_account (w : System) (b : BrokerId) (result : Except StreamError Unit) :
    Still w (w.account b result) := by
  cases result with
  | ok u => exact (Still.refl w).record _ _
  | error e =>
    simp only [account]
    split
    · exact .refl w
    · exact ((Still.refl w).record _ _).record _ _

namespace Drift

theorem refl (w : System) : Drift m w w := .still (.refl w)

theorem note (h : Drift m w w') (c : Option CallId) (e : Event) : Drift m w (w'.note c e) :=
  h.trans (.still (.note (.refl w') c e))

theorem record (h : Drift m w w') (b : BrokerId) (t : Tick) : Drift m w (w'.record b t) :=
  h.trans (.still (.record (.refl w') b t))

theorem reap (h : Drift m w w') (s : StreamId) : Drift m w (w'.reap s) := by
  simp only [System.reap]
  split
  · exact h
  · rename_i unheld
    split
    · rename_i he
      rw [Bool.and_eq_true, Bool.not_eq_true', Stream.isConnected, decide_eq_true_eq] at he
      exact (h.trans (.lose (Bool.eq_false_of_not_eq_true unheld) he.1 he.2)).note _ _
    · exact h

theorem foldl_reap (l : List StreamId) (h : Drift m w w') : Drift m w (l.foldl System.reap w') := by
  induction l generalizing w' with
  | nil => exact h
  | cons s l ih => exact ih (h.reap s)

end Drift

theorem drift_turnPump (w : System) (s : StreamId) : Drift m w (w.turnPump s) := by
  simp only [turnPump]
  split
  · rename_i n reading
    split
    · exact .stop reading
    · exact .refl w
  · exact .refl w

theorem drift_deliver (w : System) (n : ConnectionId) (e : SourceEvent)
    (hm : m = .deliver n e ∨ e = .finish) : Drift m w (w.deliver n e) := by
  simp only [deliver]
  split
  · rename_i accepts
    simp only [System.accepts, Bool.and_eq_true, decide_eq_true_eq, Bool.not_eq_true'] at accepts
    cases e with
    | chunk data => exact .push (hm.resolve_right (by rintro ⟨⟩))
    | finish => exact (Drift.refl w).note _ _ |>.trans (.stop accepts.1)
    | failure message => exact (Drift.refl w).note _ _ |>.trans (.stop accepts.1)
    | fatal message => exact .crash (hm.resolve_right (by rintro ⟨⟩)) accepts.1 accepts.2
  · exact .refl w

/-! ### Opening -/

namespace Work

theorem refl (w : System) : Work m s j j w w := .drift (.refl w)

theorem note (h : Work m s i j w w') (c : Option CallId) (e : Event) : Work m s i j w (w'.note c e) :=
  h.trans (.drift (.note (.refl w') c e))

end Work

theorem work_startOpen (w : System) (c : CallId) (s : StreamId) (token : Option Token) :
    Work m s none (w.startOpen c s token).2.job? w (w.startOpen c s token).1 := by
  simp only [startOpen]
  split
  · exact .note (.refl w) _ _
  · rename_i h
    split
    · exact .refl w
    · exact .ask (not_not.1 h) rfl

/-- An attempt that has come out leaves the stream unopened, or gives it the connection. -/
theorem finishOpen_cases (w : System) (c : CallId) (s : StreamId) (d : Dial) :
    (∃ l e, (l = .refused ∨ l = .forsaken) ∧
      w.finishOpen c s d = (w.unconnected s d.connection l, .error e)) ∨
    w.finishOpen c s d = (w.connected c s d.connection, .ok ()) := by
  simp only [finishOpen]
  split
  · exact .inl ⟨_, _, .inr rfl, rfl⟩
  · split
    · split
      · exact .inl ⟨_, _, .inl rfl, rfl⟩
      · exact .inr rfl
    · exact .inl ⟨_, _, .inr rfl, rfl⟩

theorem work_finishOpen (w : System) (c : CallId) (s : StreamId) (d : Dial) :
    Work m s (some (.dial d)) none w (w.finishOpen c s d).1 := by
  rcases w.finishOpen_cases c s d with ⟨l, e, lost, h⟩ | h <;> rw [h]
  · exact .fail lost
  · exact .note .connect _ _

/-! ### Closing -/

theorem work_startClose (w : System) (c : CallId) (s : StreamId) :
    Work m s none (w.startClose c s).2.job? w (w.startClose c s).1 := by
  simp only [startClose]
  split
  · exact .halt ‹_›
  · exact .void ‹_›
  · exact .note (.refl w) _ _

theorem fst_closed (w : System) (c : CallId) (s : StreamId) (fault : Option ShutdownFault) :
    ∃ e, (w.closed c s fault).1 =
      (w.setStream s fun x => { x with lifecycle := .closed }).note c e ∧
        (w.closed c s fault).2.job? = none := by
  cases fault <;> exact ⟨_, rfl, rfl⟩

theorem work_advanceClose (w : System) (c : CallId) (s : StreamId) (stage : CloseStage) :
    Work m s (some (.close stage)) (w.advanceClose c s stage).2.job? w
      (w.advanceClose c s stage).1 := by
  cases stage with
  | joining =>
    simp only [advanceClose]
    split
    · exact .collect ‹_›
    · rename_i n message crashed
      obtain ⟨e, he, hj⟩ := fst_closed w c s (some (.readerDied n message))
      rw [he, hj]
      exact .note (.bury crashed) _ _
    · exact .refl w
  | shutting due =>
    simp only [advanceClose]
    split
    · rename_i n collected
      obtain ⟨e, he, hj⟩ := fst_closed (w.setLink n .shut) c s
        ((w.connection n).terms.shutdownFailure.map .transport)
      rw [he, hj]
      exact .note (.shut collected) _ _
    · exact .refl w

theorem work_turnClose (w : System) (c : CallId) (s : StreamId) (stage : Option CloseStage) :
    Work m s (stage.map .close) (w.turnClose c s stage).2.job? w (w.turnClose c s stage).1 := by
  cases stage with
  | none => exact w.work_startClose c s
  | some stage => exact w.work_advanceClose c s stage

theorem work_abandonClose (w : System) (c : CallId) (s : StreamId) (stage : CloseStage) :
    Work (.abandon c) s (some (.close stage)) none w (w.abandonClose s stage) := by
  cases stage with
  | joining => exact .leave rfl
  | shutting due => exact .quit rfl

theorem work_abandonWait (w : System) (c : CallId) (s : StreamId) (wait : OpenWait) :
    Work (.abandon c) s wait.job? none w (w.abandonWait s wait) := by
  cases wait with
  | dialing d => exact .forsake rfl
  | closing stage => exact w.work_abandonClose c s stage
  | nowhere | outside | pausing | ending => exact .refl w

/-! ### Work keeps to its stream -/

theorem frame_detachPump (w : System) (s : StreamId) : Frame ∅ w (w.detachPump s) := by
  have h : Frame ∅ w (w.setStream s fun x => { x with stopping := true, detached := true }) :=
    (Frame.refl w).tuneStream s fun x => ⟨⟨rfl, rfl, rfl, rfl⟩, rfl, id⟩
  simp only [detachPump]
  split
  · refine .dropLink (.tuneStream h s fun x => ?_) _
    exact ⟨⟨rfl, rfl, rfl, rfl⟩, rfl, id⟩
  · exact h.tuneStream s fun x => ⟨⟨rfl, rfl, rfl, rfl⟩, rfl, by simp⟩
  · exact h

theorem frame_endPump (w : System) (s : StreamId) (n : ConnectionId) :
    Frame ∅ w (w.endPump s n) := by
  simp only [endPump]
  split
  · refine .dropLink (.tuneStream (.refl w) s fun x => ?_) _
    exact ⟨⟨rfl, rfl, rfl, rfl⟩, rfl, by simp⟩
  · exact (Frame.refl w).tuneStream s fun x => ⟨⟨rfl, rfl, rfl, rfl⟩, rfl, by simp⟩

theorem Drift.frame (h : Drift m w w') : Frame ∅ w w' := by
  induction h with
  | still h => exact h.frame
  | trans _ _ ih₁ ih₂ => exact ih₁.trans ih₂
  | @push w s n data chunk => exact (Frame.refl w).tuneStream s fun x => ⟨⟨rfl, rfl, rfl, rfl⟩, rfl, id⟩
  | stop reading => exact frame_endPump _ _ _
  | @crash w s n message fatal reading running =>
    refine .dropLink (.tuneStream (.refl w) s fun x => ?_) n
    exact ⟨⟨rfl, rfl, rfl, rfl⟩, rfl, id⟩
  | lose unheld connected whole => exact frame_detachPump _ _

theorem Work.frame (h : Work m s i j w w') : Frame {s} w w' := by
  induction h with
  | drift h => exact h.frame.mono (Set.empty_subset _)
  | trans _ _ ih₁ ih₂ => exact ih₁.trans ih₂
  | @ask w d unopened next =>
    simp only [System.ask]
    refine .work ?_ fun x => ?_
    · exact { Frame.refl w with }
    · exact ⟨rfl, rfl, rfl, rfl⟩
  | @connect w d | @fail w d l lost | @shut w n due collected =>
    refine .work (.setLink (.refl w) _ _) fun x => ?_
    exact ⟨rfl, rfl, rfl, rfl⟩
  | @forsake w d c => exact (Frame.refl w).setLink _ _
  | @void w | @halt w | @bury w =>
    refine .work (.refl w) fun x => ?_
    exact ⟨rfl, rfl, rfl, rfl⟩
  | @collect w n due stopped =>
    refine .witness (.setLink (.work (.refl w) fun x => ?_) _ _) _
    exact ⟨rfl, rfl, rfl, rfl⟩
  | leave => exact (frame_detachPump _ _).mono (Set.empty_subset _)
  | @quit w due c => exact .refl w

end System

end TunerBroker
