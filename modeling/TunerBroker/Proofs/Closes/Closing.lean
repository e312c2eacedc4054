import TunerBroker.Proofs.Invariants.Tidy
import TunerBroker.Proofs.Invariants.WiringRuns
import TunerBroker.Proofs.Steps.Course

/-! One turn of a close, of a release or of a sweep. A close goes from the pump to the shutdown and to its
end, with the result that the pump or the tuner gives; then it is counted, and its stream is left closed. -/

namespace TunerBroker

namespace Phase

/-- The place of a call whose close has come to a stage. -/
def onward : Phase → CloseStage → Phase
  | tearing s _, stage => tearing s (some stage)
  | sweeping (some (s, _)) rest n, stage => sweeping (some (s, stage)) rest n
  | sweeping none (s :: rest) n, stage => sweeping (some (s, stage)) rest n
  | p, _ => p

/-- The place of a call whose close has come to its end. -/
def ended : Phase → Except StreamError Unit → Phase
  | tearing _ _, result => finished (.ofClose result)
  | sweeping (some _) rest n, _ => sweeping none rest (n + 1)
  | sweeping none (_ :: rest) n, _ => sweeping none rest (n + 1)
  | p, _ => p

variable {p : Phase} {s : StreamId} {stage : Option CloseStage} {rest : List StreamId}

theorem closing?_of_closes (h : p.closes = s :: rest) : ∃ stage, p.closing? = some (s, stage) := by
  cases p with
  | tearing t stage =>
    obtain ⟨rfl, -⟩ := List.cons.inj h
    exact ⟨stage, rfl⟩
  | sweeping current left n =>
    rcases current with - | ⟨t, stage⟩
    · obtain rfl : left = s :: rest := h
      exact ⟨none, rfl⟩
    · obtain ⟨rfl, -⟩ := List.cons.inj h
      exact ⟨some stage, rfl⟩
  | _ => cases h

theorem closing?_of_closes_eq_nil (h : p.closes = []) : p.closing? = none := by
  cases p with
  | tearing => cases h
  | sweeping current left n => cases current <;> cases left <;> simp [closes, closing?] at h ⊢
  | _ => rfl

/-- What is left to close after a stage of the first close. -/
theorem onward_closes (h : p.closing? = some (s, stage)) (hs : p.closes = s :: rest) (x : CloseStage) :
    (p.onward x).closes = s :: rest ∧ (p.onward x).ahead ⊆ rest := by
  cases p with
  | tearing t stage => exact ⟨hs, List.nil_subset _⟩
  | sweeping current left n =>
    rcases current with - | ⟨t, stage⟩
    · obtain rfl : left = s :: rest := hs
      exact ⟨rfl, List.Subset.refl _⟩
    · obtain ⟨-, rfl⟩ := List.cons.inj hs
      exact ⟨hs, List.Subset.refl _⟩
  | _ => cases h

/-- What is left to close once the first close has come to its end. -/
theorem ended_closes (h : p.closing? = some (s, stage)) (hs : p.closes = s :: rest)
    (result : Except StreamError Unit) :
    (p.ended result).closes = rest ∧ (p.ended result).ahead ⊆ rest := by
  cases p with
  | tearing t stage =>
    obtain ⟨-, rfl⟩ := List.cons.inj hs
    exact ⟨rfl, List.Subset.refl _⟩
  | sweeping current left n =>
    rcases current with - | ⟨t, stage⟩
    · obtain rfl : left = s :: rest := hs
      exact ⟨rfl, List.Subset.refl _⟩
    · obtain ⟨-, rfl⟩ := List.cons.inj hs
      exact ⟨rfl, List.Subset.refl _⟩
  | _ => cases h

end Phase

namespace System

variable {w w' : System} {c : CallId} {s : StreamId} {stage : Option CloseStage}

/-! ### How a close comes out -/

/-- Why the close of a stream fails, if it does: its pump has died, or its connection fails to shut
down. -/
def shutFault (w : System) (s : StreamId) : Option ShutdownFault :=
  match (w.stream s).pump with
  | .crashed n message => some (.readerDied n message)
  | .collected n => (w.connection n).terms.shutdownFailure.map .transport
  | _ => none

/-- How the close of a stream comes out. -/
def shutResult (w : System) (s : StreamId) : Except StreamError Unit :=
  match w.shutFault s with
  | none => .ok ()
  | some f => .error (.shutdown (w.stream s).key f)

theorem shutResult_error {e : StreamError} (h : w.shutResult s = .error e) :
    ∃ f, w.shutFault s = some f ∧ e = .shutdown (w.stream s).key f := by
  rw [shutResult] at h
  cases hf : w.shutFault s with
  | none => simp [hf] at h
  | some f =>
    simp only [hf, Except.error.injEq] at h
    exact ⟨f, rfl, h.symm⟩

/-- A close that is let in does not come out as a breach. -/
theorem shutResult_proper {e : StreamError} (h : w.shutResult s = .error e) : e.isViolation = false := by
  obtain ⟨f, -, rfl⟩ := shutResult_error h
  rfl

theorem stream_closed (w : System) (c : CallId) (s : StreamId) (fault : Option ShutdownFault)
    (made : s < w.streams.size) :
    (w.closed c s fault).1.stream s = { w.stream s with lifecycle := .closed } := by
  obtain ⟨e, he, -⟩ := fst_closed w c s fault
  rw [he, stream_note, stream_setStream_self _ _ _ made]

theorem snd_closed (w : System) (c : CallId) (s : StreamId) (fault : Option ShutdownFault) :
    (w.closed c s fault).2 = .finished (match fault with
      | none => .ok ()
      | some f => .error (.shutdown (w.stream s).key f)) := by
  have key : ((w.setStream s fun x => { x with lifecycle := .closed }).stream s).key =
      (w.stream s).key := by
    rw [stream_setStream]
    split <;> rfl
  cases fault with
  | none => rfl
  | some f =>
    rw [← key]
    rfl

/-- A close under way goes to its next stage, or comes out as it has to and leaves its stream closed. -/
theorem advanceClose_ends {stage : CloseStage} (c : CallId) (manned : w.Manned s (.close stage)) :
    (∃ next, (w.advanceClose c s stage).2 = .stage next) ∨
    (w.advanceClose c s stage).2 = .finished (w.shutResult s) ∧
      (w.advanceClose c s stage).1.stream s = { w.stream s with lifecycle := .closed } ∧
      ((∃ n, (w.stream s).pump = .collected n) ∨ ∃ n message, (w.stream s).pump = .crashed n message) := by
  have made : s < w.streams.size :=
    lt_of_lifecycle (by rcases manned.lifecycle with h | h <;> simp [h])
  cases stage with
  | joining =>
    simp only [advanceClose]
    split
    · exact .inl ⟨_, rfl⟩
    · rename_i n message crashed
      refine .inr ⟨?_, stream_closed w c s _ made, .inr ⟨n, message, crashed⟩⟩
      rw [snd_closed, shutResult, shutFault, crashed]
    · exact .inl ⟨_, rfl⟩
  | shutting due =>
    obtain ⟨-, -, n, collected⟩ := manned
    have how : w.advanceClose c s (.shutting due) = (w.setLink n .shut).closed c s
        ((w.connection n).terms.shutdownFailure.map .transport) := by
      simp only [advanceClose, collected]
    rw [how, snd_closed, shutResult, shutFault, collected]
    exact .inr ⟨rfl, stream_closed (w.setLink n .shut) c s _ made, .inl ⟨n, rfl⟩⟩

/-- No connection is shut down twice. -/
theorem Wired.shutdowns_le {J : CallId → Option (StreamId × Job)} (wired : w.Wired J)
    (n : ConnectionId) : w.shutdownsOf n ≤ 1 := by
  rw [(wired.seen n).1]
  generalize (w.connections.get? n).elim LinkState.dialing (·.state) = state
  cases state <;> decide

/-- A closed stream whose connection was collected from its pump has shut it down, once. -/
theorem Wired.shut_of_closed {n : ConnectionId} (wired : w.Wired w.jobs)
    (closed : (w.stream s).lifecycle = .closed) (collected : (w.stream s).pump = .collected n) :
    w.shutdownsOf n = 1 := by
  have fit := wired.fit s
  simp only [Stream.IsFit, closed, collected] at fit
  obtain ⟨x, hx, -, state⟩ := wired.linked (s := s) (n := n) (l := .shut)
    (by simp [Stream.link?, collected, closed, fit.2])
  have seen := (wired.seen n).1
  rw [hx, Option.elim_some, state] at seen
  exact seen

/-! ### What a close is settled with -/

/-- A close goes on at `p`, or is counted and leaves its call at `q`. -/
def settled (w : System) (c : CallId) (s : StreamId) (p : CloseStage → Phase)
    (q : Except StreamError Unit → Phase) : CloseStep → System
  | .stage stage => w.setPhase c (p stage)
  | .finished result => ((w.account (w.brokerOf c) result).setPhase c (q result)).reap s

theorem settleTear_eq (w : System) (c : CallId) (s : StreamId) (step : CloseStep) :
    w.settleTear c s step =
      w.settled c s (fun stage => .tearing s (some stage)) (fun result => .finished (.ofClose result))
        step := by
  cases step with
  | stage next => rfl
  | finished result => cases result <;> rfl

theorem settleSweep_eq (w : System) (c : CallId) (s : StreamId) (rest : List StreamId) (n : Nat)
    (step : CloseStep) : w.settleSweep c s rest n step =
      w.settled c s (fun stage => .sweeping (some (s, stage)) rest n)
        (fun _ => .sweeping none rest (n + 1)) step := by
  cases step <;> rfl

theorem reap_of_closed (closed : (w.stream s).lifecycle = .closed) : w.reap s = w := by
  simp [System.reap, Stream.isConnected, closed]

/-- The stream is where the next turn of its close finds it. -/
def AtHand (w : System) (s : StreamId) : Option CloseStage → Prop
  | none => (w.stream s).lifecycle = .connected
  | some stage => w.Manned s (.close stage)

/-- A turn of a close takes it to a stage, or ends it without a breach. -/
theorem turnClose_cases (c : CallId) (h : w.AtHand s stage) :
    (∃ next, (w.turnClose c s stage).2 = .stage next) ∨
    ∃ result, (w.turnClose c s stage).2 = .finished result ∧
      ∀ e, result = .error e → e.isViolation = false := by
  cases stage with
  | none =>
    have connected : (w.stream s).lifecycle = .connected := h
    exact .inl ⟨.joining, by simp [turnClose, startClose, connected]⟩
  | some stage =>
    rcases advanceClose_ends c h with next | ⟨ends, -, -⟩
    · exact .inl next
    · exact .inr ⟨w.shutResult s, ends, fun e => shutResult_proper⟩

/-! ### A turn of the call -/

theorem step_unready (h : w.ready (.call c) = false) : w.step (.turn (.call c)) = w := by
  simp [step, turn, h]

/-- The stream whose teardown the next turn of a call takes to its end, and the result. -/
def tornDown (w : System) (c : CallId) : List (StreamId × Except StreamError Unit) :=
  if w.ready (.call c) then
    match (w.phaseOf c).closing? with
    | some (s, stage) =>
      match (w.turnClose c s stage).2 with
      | .finished result => [(s, result)]
      | .stage _ => []
    | none => []
  else []

theorem tornDown_eq_nil (h : (w.phaseOf c).closes = []) : w.tornDown c = [] := by
  rw [tornDown, Phase.closing?_of_closes_eq_nil h]
  exact ite_self _

/-- A turn of a call that has a stream to close is a turn of that close; a sweep has said before that it
comes to the stream. -/
theorem step_closing? (closing : (w.phaseOf c).closing? = some (s, stage))
    (ready : w.ready (.call c)) :
    ∃ u : System, (u = w ∨ stage = none ∧ ∃ e, u = w.note c e) ∧ w.step (.turn (.call c)) =
      (u.turnClose c s stage).1.settled c s (w.phaseOf c).onward (w.phaseOf c).ended
        (u.turnClose c s stage).2 := by
  simp only [step, turn, ready, if_true]
  cases hp : w.phaseOf c with
  | tearing t x =>
    rw [hp] at closing
    obtain ⟨rfl, rfl⟩ := Prod.mk.inj (Option.some.inj closing)
    refine ⟨w, .inl rfl, ?_⟩
    simp only [turnCall, turnTearing, settleTear_eq]
    rfl
  | sweeping current left n =>
    rw [hp] at closing
    rcases current with - | ⟨t, x⟩
    · cases left with
      | nil => cases closing
      | cons t left =>
        obtain ⟨rfl, rfl⟩ := Prod.mk.inj (Option.some.inj closing)
        refine ⟨w.note c (.sweeping (w.stream t).key (w.stream t).consumers), .inr ⟨rfl, _, rfl⟩, ?_⟩
        simp only [turnCall, turnSweeping, settleSweep_eq]
        rfl
    · obtain ⟨rfl, rfl⟩ := Prod.mk.inj (Option.some.inj closing)
      refine ⟨w, .inl rfl, ?_⟩
      simp only [turnCall, turnSweeping, settleSweep_eq]
      rfl
  | _ => simp [hp, Phase.closing?] at closing

/-- No stream moves in its life when a turn of a close is settled. -/
theorem lifecycle_settled (w : System) (c : CallId) (s t : StreamId) (p : CloseStage → Phase)
    (q : Except StreamError Unit → Phase) (step : CloseStep) :
    ((w.settled c s p q step).stream t).lifecycle = (w.stream t).lifecycle := by
  cases step with
  | stage next => rfl
  | finished result =>
    have still := still_account w (w.brokerOf c) result
    refine ((Drift.reap (m := .elapse 0) (.refl _) s).frame.lifecycle t (Set.notMem_empty t)).trans ?_
    exact still.frame.lifecycle t (Set.notMem_empty t)

/-- A turn of a call that has a stream to close moves no other in its life. -/
theorem lifecycle_turn {t : StreamId} (closing : (w.phaseOf c).closing? = some (s, stage)) (ht : t ≠ s) :
    ((w.step (.turn (.call c))).stream t).lifecycle = (w.stream t).lifecycle := by
  by_cases ready : w.ready (.call c)
  · obtain ⟨u, hu, turned⟩ := step_closing? closing ready
    have frame := (u.work_turnClose (m := .elapse 0) c s stage).frame
    have same : u.stream t = w.stream t := by
      rcases hu with rfl | ⟨-, e, rfl⟩ <;> rfl
    rw [turned, lifecycle_settled, frame.lifecycle t ht, same]
  · rw [step_unready (Bool.eq_false_of_not_eq_true ready)]

/-- With its turn from `w` to `w'` a call ends the close of a stream: the stream is closed, its
connection shut down once unless the pump had died, and the close is counted. -/
structure Concludes (w w' : System) (c : CallId) (s : StreamId) : Prop where
  closed : w'.stream s = { w.stream s with lifecycle := .closed }
  shut : (∃ n, (w.stream s).pump = .collected n ∧ w'.shutdownsOf n = 1) ∨
    ∃ n message, (w.stream s).pump = .crashed n message
  advance : Advance c ((w.phaseOf c).ended (w.shutResult s)) (closeTicks (w.shutResult s)) none w w'

/-- A call that has a stream to close finds it where the stage of the close has it. -/
theorem atHand_of_closing? (wired : w.Wired w.jobs)
    (connected : ∀ t ∈ (w.phaseOf c).ahead, (w.stream t).lifecycle = .connected)
    (closing : (w.phaseOf c).closing? = some (s, stage)) : w.AtHand s stage := by
  have manned : ∀ {x}, (w.phaseOf c).job? = some (s, .close x) → w.AtHand s (some x) :=
    fun job => wired.manned (c := c) job
  cases hp : w.phaseOf c with
  | tearing t x =>
    rw [hp] at closing connected manned
    obtain ⟨rfl, rfl⟩ := Prod.mk.inj (Option.some.inj closing)
    cases x with
    | none => exact connected t (List.mem_singleton_self t)
    | some x => exact manned rfl
  | sweeping current left n =>
    rw [hp] at closing connected manned
    rcases current with - | ⟨t, x⟩
    · cases left with
      | nil => cases closing
      | cons t left =>
        obtain ⟨rfl, rfl⟩ := Prod.mk.inj (Option.some.inj closing)
        exact connected t List.mem_cons_self
    · obtain ⟨rfl, rfl⟩ := Prod.mk.inj (Option.some.inj closing)
      exact manned rfl
  | _ => simp [hp, Phase.closing?] at closing

/-- A turn of a call that has something to close goes on with the close of the first stream and counts
nothing, or ends it. -/
theorem turn_tears (wired : w.Wired w.jobs)
    (connected : ∀ t ∈ (w.phaseOf c).ahead, (w.stream t).lifecycle = .connected)
    (closing : (w.phaseOf c).closing? = some (s, stage)) :
    (w.tornDown c = [] ∧ ∃ p, (w.ready (.call c) = false ∧ p = w.phaseOf c ∨
        ∃ x, p = (w.phaseOf c).onward x) ∧
      Advance c p [] none w (w.step (.turn (.call c)))) ∨
    w.tornDown c = [(s, w.shutResult s)] ∧ w.Concludes (w.step (.turn (.call c))) c s := by
  have hc : c < w.calls.size := w.lt_of_phaseOf c fun hp => by simp [hp, Phase.closing?] at closing
  have atHand := atHand_of_closing? wired connected closing
  by_cases ready : w.ready (.call c)
  swap
  · have waits := Bool.eq_false_of_not_eq_true ready
    rw [step_unready waits]
    exact .inl ⟨by simp [tornDown, ready], _, .inl ⟨waits, rfl⟩, .of_hushed (.refl w) c⟩
  have torn : w.tornDown c = match (w.turnClose c s stage).2 with
      | .finished result => [(s, result)]
      | .stage _ => [] := by
    simp only [tornDown, ready, if_true, closing]
  obtain ⟨u, hu, turned⟩ := step_closing? closing ready
  have wired' := wired.step (.turn (.call c))
  cases stage with
  | none =>
    -- A close that begins does not end at once.
    have begins : ∀ v : System, v.stream s = w.stream s →
        (v.turnClose c s none).2 = .stage .joining := by
      intro v hv
      have here : (w.stream s).lifecycle = .connected := atHand
      simp only [turnClose, startClose, hv, here]
    have same : u.stream s = w.stream s ∧ Hushed w u := by
      rcases hu with rfl | ⟨-, e, rfl⟩
      · exact ⟨rfl, .refl _⟩
      · exact ⟨rfl, (Hushed.refl w).note _ _⟩
    rw [begins w rfl] at torn
    rw [turned, begins u same.1]
    exact .inl ⟨torn, _, .inr ⟨_, rfl⟩,
      (Advance.of_hushed (same.2.trans (hushed_turnClose u c s none)) c).setPhase hc _⟩
  | some stage =>
    obtain rfl : u = w := hu.resolve_right fun h => by cases h.1
    have hushed := (calm_advanceClose u c s stage).toHushed
    rcases advanceClose_ends c atHand with ⟨next, hn⟩ | ⟨hn, closed, how⟩
    · rw [turnClose, hn] at torn
      rw [turned, turnClose, hn]
      exact .inl ⟨torn, _, .inr ⟨_, rfl⟩, (Advance.of_hushed hushed c).setPhase hc _⟩
    · rw [turnClose, hn] at torn
      rw [turnClose, hn] at turned
      -- What is settled is a stream that has been closed, so that nothing is left to destroy.
      have same : (u.step (.turn (.call c))).stream s = (u.advanceClose c s stage).1.stream s := by
        have still : ∀ v : System, (((v.account (v.brokerOf c) (u.shutResult s)).setPhase c
            ((u.phaseOf c).ended (u.shutResult s))).stream s) = v.stream s := fun v => by
          rw [stream_setPhase, System.stream, (still_account v _ (u.shutResult s)).streams,
            System.stream]
        rw [turned, settled, reap_of_closed (by rw [still, closed]), still]
      have down := same.trans closed
      refine .inr ⟨torn, down, ?_, ?_⟩
      · rcases how with ⟨n, collected⟩ | died
        · exact .inl ⟨n, collected, wired'.shut_of_closed (by rw [down]) (by rw [down]; exact collected)⟩
        · exact .inr died
      · rw [turned]
        exact (((Advance.of_hushed hushed c).account (u.shutResult s)).setPhase hc
          ((u.phaseOf c).ended (u.shutResult s))).reap s

end System

end TunerBroker
