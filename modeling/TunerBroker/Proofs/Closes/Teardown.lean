import TunerBroker.Proofs.Streams.Results

/-! The close of a stream by the release that took it off the list. From then on no other call is at work
on the stream, so that the close goes from the pump to the shutdown and to its end, which is counted
once; and the release comes out as the close does. -/

namespace TunerBroker

/-- A move of a call that closes streams by itself: a turn of the call, a turn of the pump of one of the
streams, or time that passes. -/
def Move.IsQuiet (c : CallId) (l : List StreamId) : Move → Prop
  | turn (.call d) => d = c
  | turn (.pump s) => s ∈ l
  | elapse _ => True
  | _ => False

namespace System

variable {m : Move} {w w' : System} {c d : CallId} {s : StreamId} {stage : CloseStage}

/-! ### Stages of the close -/

/-- The release has closed the stream and come out as the close did. The connection has been shut down once,
unless the pump had died. -/
structure Torn (w : System) (c : CallId) (s : StreamId) : Prop where
  place : w.phaseOf c = .finished (.ofClose (w.shutResult s))
  closed : (w.stream s).lifecycle = .closed
  shut : (∃ n, (w.stream s).pump = .collected n ∧ w.shutdownsOf n = 1) ∨
    ∃ n message, (w.stream s).pump = .crashed n message

/-- The release has the stream to close, is closing it, or has closed it. -/
inductive Closes (w : System) (c : CallId) (s : StreamId) : Prop where
  | ahead (place : w.phaseOf c = .tearing s none) (connected : (w.stream s).lifecycle = .connected)
  | under (stage : CloseStage) (place : w.phaseOf c = .tearing s (some stage))
  | past (torn : w.Torn c s)

theorem step_tearing (hp : w.phaseOf c = .tearing s none)
    (connected : (w.stream s).lifecycle = .connected) :
    w.step (.turn (.call c)) = (w.setStream s fun x =>
      { x with lifecycle := .closing, feed := false, stopping := true }).setPhase c
        (.tearing s (some .joining)) := by
  simp [step, turn, ready, phaseReady, turnCall, hp, turnTearing, turnClose, startClose, connected,
    settleTear]

theorem step_closing (hp : w.phaseOf c = .tearing s (some stage)) (due : w.stageDue s stage) :
    w.step (.turn (.call c)) =
      (w.advanceClose c s stage).1.settleTear c s (w.advanceClose c s stage).2 := by
  simp only [step, turn, ready, hp, phaseReady, due, if_true, turnCall, turnTearing, turnClose]

/-- What a close comes to decides where the release goes. -/
theorem phaseOf_settleTear (hc : c < w.calls.size) (s : StreamId) (step : CloseStep) :
    (w.settleTear c s step).phaseOf c = match step with
      | .stage next => .tearing s (some next)
      | .finished result => .finished (.ofClose result) := by
  cases step with
  | stage next =>
    rw [settleTear, phaseOf_setPhase, if_pos ⟨rfl, hc⟩]
  | finished result =>
    have adv := (((Advance.of_hushed (.refl w) c).account result).finish hc (.ofClose result)).reap s
    rw [settleTear_eq]
    exact (adv.phaseOf c).trans (if_pos rfl)

/-- The turn that ends the close leaves the release with the result of it. -/
theorem Concludes.torn (h : w.Concludes (w.step m) c s) (wired : w.Wired w.jobs)
    (place : w.phaseOf c = .tearing s (some stage)) : (w.step m).Torn c s := by
  have made : s < w.streams.size := by
    refine lt_of_pump ?_
    rcases h.shut with ⟨n, pump, -⟩ | ⟨n, message, pump⟩ <;> simp [pump]
  have pump : ((w.step m).stream s).pump = (w.stream s).pump := by rw [h.closed]
  have next := h.advance.phaseOf c
  rw [if_pos rfl, place] at next
  refine ⟨?_, by rw [h.closed], ?_⟩
  · rw [next, (shutResult_congr wired made m pump).2]
    rfl
  · rw [pump]
    exact h.shut

/-- What the release has come out with stays as it is. -/
theorem Torn.step (h : w.Torn c s) (sealing : w.Sealed c s) (l : w.Ledger) (wired : w.Wired w.jobs)
    (m : Move) : (w.step m).Torn c s := by
  have buried : w.Buried s := by
    refine ⟨sealing.spent, h.closed, fun d hd => ?_⟩
    obtain rfl := sealing.alone d hd
    rw [h.place] at hd
    cases hd
  have there : (w.stream s).pump ≠ .idle := by
    intro idle
    have shut := h.shut
    simp [idle] at shut
  have pump := buried.pump_step l wired there m
  have down := buried.closed_step l m
  refine ⟨?_, down, ?_⟩
  · rw [(shutResult_congr wired (buried.spent.made l) m pump).2, ← h.place]
    exact run_over [m] (by rw [h.place]; rfl) (w.lt_of_phaseOf c (by simp [h.place]))
  · rw [pump]
    refine h.shut.imp_left fun ⟨n, collected, _⟩ => ⟨n, collected, ?_⟩
    exact (wired.step m).shut_of_closed down (pump.trans collected)

namespace Closes

theorem lt (h : w.Closes c s) : c < w.calls.size := by
  cases h with
  | ahead place | under _ place => exact w.lt_of_phaseOf c (by simp [place])
  | past torn => exact w.lt_of_phaseOf c (by simp [torn.place])

/-- With a turn of its own the release goes on with the close, and counts it if that is the end. -/
theorem turn (h : w.Closes c s) (wired : w.Wired w.jobs) :
    (w.step (.turn (.call c))).Closes c s ∧
      ((∃ stage, w.phaseOf c = .tearing s (some stage)) ∧ w.Concludes (w.step (.turn (.call c))) c s ∨
        ∀ b, (w.step (.turn (.call c))).countersOf b = w.countersOf b) := by
  have lt := h.lt
  cases h with
  | ahead place connected =>
    rw [step_tearing place connected]
    refine ⟨.under .joining ?_, .inr fun _ => rfl⟩
    rw [phaseOf_setPhase, if_pos ⟨rfl, lt⟩]
  | under stage place =>
    have closing : (w.phaseOf c).closing? = some (s, some stage) := by rw [place]; rfl
    have begun : (w.phaseOf c).ahead = [] := by rw [place]; rfl
    rcases turn_tears wired (by simp [begun]) closing with ⟨-, p, hp, adv⟩ | ⟨-, ends⟩
    · have next := adv.phaseOf c
      rw [if_pos rfl] at next
      have goes : ∃ stage, p = .tearing s (some stage) := by
        rcases hp with ⟨-, rfl⟩ | ⟨x, rfl⟩
        · exact ⟨stage, place⟩
        · exact ⟨x, by rw [place]; rfl⟩
      obtain ⟨stage, rfl⟩ := goes
      refine ⟨.under stage next, .inr fun b => ?_⟩
      rw [adv.counters, Counters.recordAll_nil, ite_self]
    · exact ⟨.past (ends.torn wired place), .inl ⟨⟨stage, place⟩, ends⟩⟩
  | past torn =>
    rw [step_unready (by simp [ready, phaseReady, torn.place])]
    exact ⟨.past torn, .inr fun _ => rfl⟩

/-- Unless it is abandoned the release goes on with the close, and nobody interferes. -/
theorem step (h : w.Closes c s) (sealing : w.Sealed c s) (l : w.Ledger) (wired : w.Wired w.jobs)
    (hm : m ≠ .abandon c) : (w.step m).Closes c s ∧ (m.actor = some c →
      (∃ stage, w.phaseOf c = .tearing s (some stage)) ∧ w.Concludes (w.step m) c s ∨
        ∀ b, (w.step m).countersOf b = w.countersOf b) := by
  by_cases actor : m.actor = some c
  · cases m with
    | turn r =>
      cases r with
      | call d =>
        obtain rfl := Option.some.inj actor
        exact ⟨(h.turn wired).1, fun _ => (h.turn wired).2⟩
      | pump t => cases actor
    | abandon d =>
      obtain rfl := Option.some.inj actor
      exact absurd rfl hm
    | provide d result =>
      obtain rfl := Option.some.inj actor
      have idle : w.step (.provide d result) = w := by
        cases h with
        | ahead place | under _ place => simp [System.step, provide, place]
        | past torn => simp [System.step, provide, torn.place]
      rw [idle]
      exact ⟨h, fun _ => .inr fun _ => rfl⟩
    | _ => cases actor
  · have same := (step_other h.lt actor).1
    have still := sealing.lifecycle_step l actor
    refine ⟨?_, fun hn => absurd hn actor⟩
    cases h with
    | ahead place connected => exact .ahead (same.trans place) (still.trans connected)
    | under stage place => exact .under stage (same.trans place)
    | past torn => exact .past (torn.step sealing l wired m)

theorem run (h : w.Closes c s) (sealing : w.Sealed c s) (l : w.Ledger) (g : w.Sound)
    (wired : w.Wired w.jobs) (moves : List Move) (hm : .abandon c ∉ moves) :
    (w.run moves).Closes c s ∧ (w.run moves).Sealed c s := by
  induction moves generalizing w with
  | nil => exact ⟨h, sealing⟩
  | cons m moves ih =>
    rw [List.mem_cons, not_or] at hm
    exact ih (h.step sealing l wired (Ne.symm hm.1)).1 (sealing.step l g m) (l.step g m) (g.step m)
      (wired.step m) hm.2

end Closes

/-! ### The end of the close -/

/-- Left to itself with the stream, the release takes the close to its end. -/
def Endable (w : System) (c : CallId) (s : StreamId) : Prop :=
  ∃ moves, (∀ m ∈ moves, m.IsQuiet c [s]) ∧
    ∃ result, (w.run moves).phaseOf c = .finished (.ofClose result)

theorem Endable.before (h : (w.step m).Endable c s) (hm : m.IsQuiet c [s]) : w.Endable c s := by
  obtain ⟨moves, quiet, ends⟩ := h
  exact ⟨m :: moves, List.forall_mem_cons.2 ⟨hm, quiet⟩, ends⟩

theorem endable_shutting {due : Nat} (wired : w.Wired w.jobs)
    (hp : w.phaseOf c = .tearing s (some (.shutting due))) : w.Endable c s := by
  have hc : c < w.calls.size := w.lt_of_phaseOf c (by simp [hp])
  obtain ⟨-, -, n, collected⟩ : w.Manned s (.close (.shutting due)) :=
    wired.manned (c := c) (by rw [jobs, hp]; rfl)
  -- The shutdown is over once its time has passed.
  refine ⟨[.elapse due, .turn (.call c)], by simp [Move.IsQuiet], ?_⟩
  have later : (w.step (.elapse due)).stageDue s (.shutting due) := by
    simp [stageDue, step]
  have place : (w.step (.elapse due)).phaseOf c = .tearing s (some (.shutting due)) := hp
  have size := (calm_advanceClose (w.step (.elapse due)) c s (.shutting due)).calls
  show ∃ result, ((w.step (.elapse due)).step (.turn (.call c))).phaseOf c = _
  rw [step_closing place later, phaseOf_settleTear (size ▸ hc)]
  have collected' : ((w.step (.elapse due)).stream s).pump = .collected n := collected
  simp only [advanceClose, collected', snd_closed]
  exact ⟨_, rfl⟩

theorem endable_stopped (wired : w.Wired w.jobs) (hp : w.phaseOf c = .tearing s (some .joining))
    (stopped : (w.stream s).pump.isReading = false) : w.Endable c s := by
  have hc : c < w.calls.size := w.lt_of_phaseOf c (by simp [hp])
  have manned : w.Manned s (.close .joining) := wired.manned (c := c) (by rw [jobs, hp]; rfl)
  have size := (calm_advanceClose w c s .joining).calls
  have due : w.stageDue s .joining := by simp [stageDue, stopped]
  refine .before (m := .turn (.call c)) ?_ rfl
  have place : (w.step (.turn (.call c))).phaseOf c = match (w.advanceClose c s .joining).2 with
      | .stage next => .tearing s (some next)
      | .finished result => .finished (.ofClose result) := by
    rw [step_closing hp due, phaseOf_settleTear (size ▸ hc)]
  cases hq : (w.stream s).pump with
  | idle =>
    have fit := wired.fit s
    simp [Stream.IsFit, manned.1, hq] at fit
  | reading n => simp [hq, Pump.isReading] at stopped
  | stopped n =>
    simp only [advanceClose, hq] at place
    exact endable_shutting (wired.step _) place
  | crashed n message =>
    simp only [advanceClose, hq, snd_closed] at place
    exact ⟨[], by simp, _, place⟩
  | collected n => exact absurd hq (manned.2.2 n)

/-- A pump that was told to stop does so with its turn. -/
theorem step_pump {n : ConnectionId} (reading : (w.stream s).pump = .reading n)
    (stopping : (w.stream s).stopping) : w.step (.turn (.pump s)) = w.endPump s n := by
  simp [step, turn, ready, reading, Pump.isReading, stopping, turnPump]

theorem isReading_endPump {n : ConnectionId} (made : s < w.streams.size) :
    ((w.endPump s n).stream s).pump.isReading = false := by
  rw [endPump]
  split
  · show ((w.setStream s _).stream s).pump.isReading = false
    rw [stream_setStream_self _ _ _ made]
    rfl
  · rw [stream_setStream_self _ _ _ made]
    rfl

theorem endable_joining (wired : w.Wired w.jobs) (hp : w.phaseOf c = .tearing s (some .joining)) :
    w.Endable c s := by
  have hc : c < w.calls.size := w.lt_of_phaseOf c (by simp [hp])
  obtain ⟨closing, -, -⟩ : w.Manned s (.close .joining) :=
    wired.manned (c := c) (by rw [jobs, hp]; rfl)
  by_cases reading : (w.stream s).pump.isReading
  · -- The pump has been told to stop, and does so with its turn.
    refine .before (m := .turn (.pump s)) ?_ (List.mem_singleton_self s)
    refine endable_stopped (wired.step _) ((step_other hc (by rintro ⟨⟩)).1.trans hp) ?_
    have fit := wired.fit s
    cases hq : (w.stream s).pump with
    | reading n =>
      simp only [Stream.IsFit, closing, hq] at fit
      rw [step_pump hq fit.2]
      exact isReading_endPump (lt_of_lifecycle (by simp [closing]))
    | _ => simp [hq, Pump.isReading] at reading
  · exact endable_stopped wired hp (Bool.eq_false_of_not_eq_true reading)

/-- A release that is left to itself with its stream takes the close to its end. -/
theorem Closes.endable (h : w.Closes c s) (wired : w.Wired w.jobs) : w.Endable c s := by
  have hc := h.lt
  cases h with
  | ahead place connected =>
    refine .before (m := .turn (.call c)) ?_ rfl
    refine endable_joining (wired.step _) ?_
    rw [step_tearing place connected, phaseOf_setPhase, if_pos ⟨rfl, hc⟩]
  | under stage place =>
    cases stage with
    | joining => exact endable_joining wired place
    | shutting due => exact endable_shutting wired place
  | past torn => exact ⟨[], by simp, _, torn.place⟩

/-- A run without an abandonment of the release takes the close to its end. -/
def Closable (w : System) (c : CallId) (s : StreamId) : Prop :=
  ∃ moves, .abandon c ∉ moves ∧ (w.run moves).Torn c s

/-- Unless it is abandoned, a release can always take its close to the end. -/
theorem Closes.closable (h : w.Closes c s) (sealing : w.Sealed c s) (l : w.Ledger) (g : w.Sound)
    (wired : w.Wired w.jobs) : w.Closable c s := by
  obtain ⟨moves, quiet, result, ends⟩ := h.endable wired
  have kept : .abandon c ∉ moves := fun left => quiet _ left
  refine ⟨moves, kept, ?_⟩
  cases (h.run sealing l g wired moves kept).1 with
  | ahead place | under _ place =>
    rw [ends] at place
    cases place
  | past torn => exact torn

end System

end TunerBroker
