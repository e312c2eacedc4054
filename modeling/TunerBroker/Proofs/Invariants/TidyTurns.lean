import TunerBroker.Proofs.Invariants.Tidy
import TunerBroker.Proofs.Invariants.Wishes

/-! Turns of calls that keep streams alive, in orderly runs: an open asks the tuner once, and gives its
stream or lets it go; a close is under way until its stream has no connection left, and comes to no
breach. -/

namespace TunerBroker

namespace System

variable {m : Move} {w w' v : System} {c : CallId} {a : Acquisition} {s t : StreamId}
  {n : ConnectionId} {p : Phase} {f : Stream → Stream}

namespace Tidy

theorem turnOpening {moves : List OpenMove} {wait : OpenWait} (h : w.Tidy) (g : w.Sound)
    (faithful : w.Faithful) (hp : w.phaseOf c = .opening a s moves wait) :
    (w.turnOpening c a s moves wait).Tidy := by
  have own : s ∈ (w.phaseOf c).owns := by simp [hp, Phase.owns]
  have plain := h.plain c
  rw [hp] at plain
  obtain ⟨⟨r, token, config, rfl⟩, ⟨rfl, rfl⟩ | ⟨rfl, d, rfl⟩⟩ := plain
  · have unopened := h.unasked hp
    have hs : s < w.streams.size := lt_of_lifecycle (by simp [unopened])
    by_cases fired : w.hasFired token
    · have start : w.startOpen c s token = (w, .finished (.error (.cancelled (w.stream s).key))) := by
        simp [startOpen, unopened, fired]
      simp only [System.turnOpening, Acquisition.ofRequest, nextMove, start]
      exact h.failOpen g (.refl w) (fun _ _ => rfl) hp (h.intact s) (by simp [Stream.IsUp, unopened])
    · have start : w.startOpen c s token = (w.ask s, .dialing ⟨w.connections.size,
          w.clock + (w.terms.headD {}).delay, w.clock + (w.stream s).openTimeout.ceilMillis, token⟩) := by
        simp [startOpen, unopened, fired]
      have self : (w.ask s).stream s = { w.stream s with lifecycle := .opening } :=
        stream_setStream_self _ _ _ hs
      simp only [System.turnOpening, Acquisition.ofRequest, nextMove, start]
      refine h.work g (Work.ask (m := .elapse 0) (d := ⟨_, 0, 0, none⟩) unopened rfl).frame
        (fun t ht => stream_setStream_ne _ _ _ _ ht) own ?_ ?_ (by simp [hp, Phase.closes])
        ⟨⟨r, token, config, rfl⟩, .inr ⟨rfl, _, rfl⟩⟩ (by simp) (by simp [Phase.ahead])
      · rw [self]
        exact h.intact s
      · simp [self, Stream.IsUp]
  · obtain ⟨-, hs, request, -⟩ := faithful.opens hp rfl
    have frame := (w.work_finishOpen (m := .elapse 0) c s d).frame
    simp only [System.turnOpening]
    rcases w.finishOpen_cases c s d with ⟨l, e, -, he⟩ | he <;> simp only [he] at frame ⊢
    · have self : (w.unconnected s d.connection l).stream s =
          { w.stream s with lifecycle := .unopened } := stream_setStream_self _ _ _ hs
      refine h.failOpen g frame (fun t ht => stream_setStream_ne _ _ _ _ ht) hp ?_ ?_
      · rw [self]
        exact h.intact s
      · simp [self, Stream.IsUp]
    · have self : (w.connected c s d.connection).stream s = { w.stream s with
          lifecycle := .connected, feed := true, pump := .reading d.connection,
          buffer := .ofCapacity (w.stream s).capacity } := stream_setStream_self _ _ _ hs
      refine h.concludeOpen g frame (fun t ht => stream_setStream_ne _ _ _ _ ht) hp ?_ ?_ ?_
      · rw [self]
        exact ⟨(h.intact s).1, by rintro _ _ ⟨⟩⟩
      · rw [self]
      · rw [self]
        exact congrArg StreamRequest.key request

end Tidy

/-! ### Turns of a close -/

/-- A turn of a close leaves its stream intact. If the close is over with it the stream has no
connection left, and there was no breach. -/
structure CloseTurn (w : System) (s : StreamId) (r : System × CloseStep) : Prop where
  frame : Frame {s} w r.1
  others : ∀ t ≠ s, r.1.stream t = w.stream t
  intact : (r.1.stream s).IsIntact
  down : ∀ result, r.2 = .finished result → ¬ (r.1.stream s).IsUp
  unbreached : ∀ e, r.2 = .finished (.error e) → e.isViolation = false

theorem closeTurn_closed {fault : Option ShutdownFault} (frame : Frame {s} w v)
    (same : ∀ t, v.stream t = w.stream t) (hs : s < w.streams.size) (intact : (w.stream s).IsIntact) :
    w.CloseTurn s (v.closed c s fault) := by
  have self : (v.setStream s fun x => { x with lifecycle := .closed }).stream s =
      { w.stream s with lifecycle := .closed } := by
    rw [stream_setStream_self _ _ _ (by rwa [frame.streams]), same]
  have frame' : Frame {s} w (v.setStream s fun x => { x with lifecycle := .closed }) :=
    .work frame fun x => ⟨rfl, rfl, rfl, rfl⟩
  have others : ∀ t ≠ s, (v.setStream s fun x => { x with lifecycle := .closed }).stream t =
      w.stream t := fun t ht => (stream_setStream_ne _ _ _ _ ht).trans (same t)
  have intact' : ((v.setStream s fun x => { x with lifecycle := .closed }).stream s).IsIntact := by
    rw [self]
    exact intact
  have down : ¬ ((v.setStream s fun x => { x with lifecycle := .closed }).stream s).IsUp := by
    simp [self, Stream.IsUp]
  cases fault with
  | none => exact ⟨frame'.note _ _, others, intact', fun _ _ => down, by rintro _ ⟨⟩⟩
  | some f => exact ⟨frame'.note _ _, others, intact', fun _ _ => down, fun e he => by cases he; rfl⟩

theorem CloseTurn.account {result : Except StreamError Unit} (b : BrokerId)
    (h : w.CloseTurn s (v, .finished result)) :
    w.CloseTurn s (v.account b result, .finished result) := by
  have still := still_account v b result
  have same : ∀ t, (v.account b result).stream t = v.stream t := fun t => by
    rw [System.stream, still.streams]
    rfl
  refine ⟨h.frame.trans (still.frame.mono (Set.empty_subset _)), fun t ht => (same t).trans (h.others t ht),
    ?_, fun r hr => ?_, h.unbreached⟩
  · rw [same]
    exact h.intact
  · rw [same]
    exact h.down r hr

namespace Tidy

theorem closeTurn_start (h : w.Tidy) (connected : (w.stream s).lifecycle = .connected) :
    w.CloseTurn s (w.startClose c s) := by
  have start : w.startClose c s = (w.setStream s fun x =>
      { x with lifecycle := .closing, feed := false, stopping := true }, .stage .joining) := by
    simp [startClose, connected]
  have self : ((w.setStream s fun x =>
      { x with lifecycle := .closing, feed := false, stopping := true }).stream s) =
      { w.stream s with lifecycle := .closing, feed := false, stopping := true } :=
    stream_setStream_self _ _ _ (lt_of_lifecycle (by simp [connected]))
  rw [start]
  exact ⟨.work (.refl w) fun x => ⟨rfl, rfl, rfl, rfl⟩, fun t ht => stream_setStream_ne _ _ _ _ ht,
    self ▸ h.intact s, by rintro _ ⟨⟩, by rintro _ ⟨⟩⟩

theorem closeTurn_advance (h : w.Tidy) (stage : CloseStage) :
    w.CloseTurn s (w.advanceClose c s stage) := by
  have frame := (w.work_advanceClose (m := .elapse 0) c s stage).frame
  have stay : ∀ stage, w.CloseTurn s (w, .stage stage) := fun stage =>
    ⟨.refl w, fun _ _ => rfl, h.intact s, by rintro _ ⟨⟩, by rintro _ ⟨⟩⟩
  cases stage with
  | joining =>
    simp only [System.advanceClose] at frame ⊢
    split at frame
    · rename_i n stopped
      have self : (w.collect s n).stream s = { w.stream s with pump := .collected n } :=
        stream_setStream_self _ _ _ (lt_of_pump (by simp [stopped]))
      exact ⟨frame, fun t ht => stream_setStream_ne _ _ _ _ ht,
        self ▸ ⟨(h.intact s).1, by rintro _ _ ⟨⟩⟩, by rintro _ ⟨⟩, by rintro _ ⟨⟩⟩
    · rename_i n message crashed
      exact absurd crashed ((h.intact s).2 n message)
    · exact stay _
  | shutting due =>
    simp only [System.advanceClose]
    split
    · rename_i n collected
      exact closeTurn_closed (.setLink (.refl w) _ _) (fun _ => rfl)
        (lt_of_pump (by simp [collected])) (h.intact s)
    · exact stay _

/-- A turn of the close that a release or a sweep is on. -/
theorem closeTurn {stage : Option CloseStage} (h : w.Tidy) (hp : (w.phaseOf c).closing? = some (s, stage)) :
    w.CloseTurn s (w.turnClose c s stage) := by
  cases stage with
  | none =>
    refine h.closeTurn_start (h.ahead (c := c) ?_)
    simp only [Phase.closing?] at hp
    split at hp <;> simp_all [Phase.ahead]
  | some stage => exact h.closeTurn_advance stage

theorem settleTear {stage : Option CloseStage} {r : System × CloseStep} (h : w.Tidy) (g : w.Sound)
    (hp : w.phaseOf c = .tearing s stage) (turn : w.CloseTurn s r) : (r.1.settleTear c s r.2).Tidy := by
  have own : s ∈ (w.phaseOf c).owns := by simp [hp, Phase.owns]
  obtain ⟨v, step⟩ := r
  cases step with
  | stage next =>
    exact h.work g turn.frame turn.others own turn.intact (by simp [Phase.closes])
      (by simp [hp, Phase.closes]) trivial (by simp) (by simp [Phase.ahead])
  | finished result =>
    have settled := turn.account (v.brokerOf c)
    refine drift (m := .elapse 0) ?_ (.reap (.refl _) s) (by rintro _ _ ⟨⟩)
    exact h.work g settled.frame settled.others own settled.intact
      (fun up => absurd up (settled.down result rfl))
      (by simp [hp, Phase.closes]) trivial (by simp) (by simp [Phase.ahead])

theorem settleSweep {current : Option (StreamId × CloseStage)} {left rest : List StreamId}
    {n count : Nat} {r : System × CloseStep} (h : w.Tidy) (g : w.Sound)
    (hp : w.phaseOf c = .sweeping current left n) (closes : (w.phaseOf c).closes = s :: rest)
    (ahead : rest ⊆ left) (turn : w.CloseTurn s r) : (r.1.settleSweep c s rest count r.2).Tidy := by
  have owns : (w.phaseOf c).owns = s :: rest := by
    rw [← closes, hp]
    rfl
  have own : s ∈ (w.phaseOf c).owns := by simp [owns]
  have next : ∀ t ∈ rest, t ≠ s ∧ t ∈ (w.phaseOf c).ahead := by
    intro t ht
    have nodup : (w.phaseOf c).owns.Nodup := g.custody.nodup (.call c)
    rw [owns] at nodup
    refine ⟨?_, by rw [hp]; exact ahead ht⟩
    rintro rfl
    exact (List.nodup_cons.1 nodup).1 ht
  have left : ∀ t ∈ (w.phaseOf c).closes, t ≠ s → t ∈ rest := by
    intro t ht hs
    rw [closes] at ht
    exact (List.mem_cons.1 ht).resolve_left hs
  obtain ⟨v, step⟩ := r
  cases step with
  | stage stage =>
    exact h.work g turn.frame turn.others own turn.intact (by simp [Phase.closes])
      (fun t ht hs => List.mem_cons_of_mem _ (left t ht hs)) trivial (by simp) next
  | finished result =>
    have settled := turn.account (v.brokerOf c)
    refine drift (m := .elapse 0) ?_ (.reap (.refl _) s) (by rintro _ _ ⟨⟩)
    exact h.work g settled.frame settled.others own settled.intact
      (fun up => absurd up (settled.down result rfl))
      left trivial (by simp) next

theorem turnTearing {stage : Option CloseStage} (h : w.Tidy) (g : w.Sound)
    (hp : w.phaseOf c = .tearing s stage) : (w.turnTearing c s stage).Tidy :=
  h.settleTear g hp (h.closeTurn (c := c) (by rw [hp]; rfl))

theorem turnSweeping {current : Option (StreamId × CloseStage)} {rest : List StreamId} {n : Nat}
    (h : w.Tidy) (g : w.Sound) (hp : w.phaseOf c = .sweeping current rest n)
    (busy : (w.phaseOf c).holds ≠ []) : (w.turnSweeping c current rest n).Tidy := by
  rcases current with - | ⟨s, stage⟩
  · cases rest with
    | nil => simp [hp, Phase.holds] at busy
    | cons s rest =>
      set v := w.note c (.sweeping (w.stream s).key (w.stream s).consumers)
      have still : Still w v := .note (.refl w) _ _
      have h' : v.Tidy := h.drift (m := .elapse 0) (.still still) (by rintro _ _ ⟨⟩)
      have hp' : v.phaseOf c = .sweeping none (s :: rest) n := (still.frame.phaseOf c).trans hp
      exact h'.settleSweep (g.frame still.frame) hp' (by rw [hp']; rfl) (List.subset_cons_self s rest)
        (h'.closeTurn (c := c) (by rw [hp']; rfl))
  · exact h.settleSweep g hp (by rw [hp]; rfl) (fun _ => id) (h.closeTurn (c := c) (by rw [hp]; rfl))

/-! ### Turns of a call -/

/-- A turn of a call that keeps a stream alive. -/
theorem turnCall (h : w.Tidy) (g : w.Sound) (faithful : w.Faithful) (busy : (w.phaseOf c).holds ≠ []) :
    (w.turnCall c (w.phaseOf c)).Tidy := by
  have plain := h.plain c
  cases hp : w.phaseOf c with
  | opening a s moves wait => exact h.turnOpening g faithful hp
  | tearing s stage => exact h.turnTearing g hp
  | sweeping current rest n => exact h.turnSweeping g hp busy
  | rejecting | dialStart | dialing | closeStart | closing => simp [hp, Phase.IsPlain] at plain
  | _ => simp [hp, Phase.holds] at busy

/-- An open is abandoned while the tuner is asked. -/
theorem abandon (h : w.Tidy) (g : w.Sound) (wired : w.Wired w.jobs) (busy : (w.phaseOf c).holds ≠ [])
    (rest : (w.phaseOf c).closes = []) : (w.abandon c).Tidy := by
  simp only [System.abandon]
  split
  · exact h
  · rename_i suspended
    have plain := h.plain c
    cases hp : w.phaseOf c with
    | opening a s moves wait =>
      rw [hp] at plain
      rcases plain.2 with ⟨-, rfl⟩ | ⟨-, d, rfl⟩
      · simp [hp, Phase.isSuspended] at suspended
      · have opening : (w.stream s).lifecycle = .opening :=
          (wired.manned (c := c) (s := s) (j := .dial d) (by rw [jobs, hp]; rfl)).1
        have h₁ := h.giveUp (p := .abandoned) g (w.work_abandonWait c s (.dialing d)).frame
          (fun _ _ => rfl) hp (h.intact s)
          (show ¬ (w.stream s).IsUp by simp [Stream.IsUp, opening]) rfl
        exact h₁.drift (m := .elapse 0) (.note (.reap (.refl _) s) _ _) (by rintro _ _ ⟨⟩)
    | tearing s stage => simp [hp, Phase.closes] at rest
    | sweeping current left n => simp_all [Phase.closes, Phase.holds]
    | rejecting | dialStart | dialing | closeStart | closing => simp [hp, Phase.IsPlain] at plain
    | _ => simp [hp, Phase.holds] at busy

end Tidy

end System

end TunerBroker
