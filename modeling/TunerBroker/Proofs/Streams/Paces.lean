import TunerBroker.Proofs.Streams.States

/-! Streams go from state to state one at a time. What takes a stream further are the four procedures of
the calls that open and close it, and a turn of a call goes through one of them; only a connection that
is made goes with the next move at once. A stream comes to its end only by a close that is let in. -/

namespace TunerBroker

/-- The move changes nothing but the surroundings. -/
def Move.isAmbient : Move → Bool
  | cancel _ | setDesk _ | elapse _ => true
  | _ => false

/-- The close goes on, or ends otherwise than with a breach. -/
def CloseStep.isLetIn : CloseStep → Bool
  | .finished (.error e) => !e.isViolation
  | _ => true

namespace System

variable {m : Move} {w w₁ w' w'' v : System} {c : CallId} {a : Acquisition} {s t : StreamId}
  {n : ConnectionId} {p : Phase} {P Q : StreamId → Prop} {S : Set StreamId}

/-- The next turn of the call begins a close of `s`, and does so in `v`. -/
inductive BeginsClose (w : System) (c : CallId) (s : StreamId) : System → Prop where
  /-- The call closes the stream by itself. -/
  | alone (place : w.phaseOf c = .closeStart s) : BeginsClose w c s w
  /-- It refuses the stream of its open. -/
  | reject {e : StreamError} (place : w.phaseOf c = .rejecting s none e) : BeginsClose w c s w
  /-- It has released the last consumer. -/
  | tear (place : w.phaseOf c = .tearing s none) : BeginsClose w c s w
  | sweep {rest : List StreamId} {count : Nat} (place : w.phaseOf c = .sweeping none (s :: rest) count) :
      BeginsClose w c s (w.note c (.sweeping (w.stream s).key (w.stream s).consumers))
  /-- It is a move of its open. -/
  | move {a : Acquisition} {rest : List OpenMove}
      (place : w.phaseOf c = .opening a s (.close :: rest) .nowhere) : BeginsClose w c s w
  /-- It is the move after a connection that is made with this turn. -/
  | atOnce {a : Acquisition} {rest : List OpenMove} {d : Dial}
      (place : w.phaseOf c = .opening a s (.close :: rest) (.dialing d))
      (made : (w.finishOpen c s d).2 = .ok ()) : BeginsClose w c s (w.finishOpen c s d).1

/-- The next turn of the call lets in a close of `s`. -/
def LetsClose (w : System) (c : CallId) (s : StreamId) : Prop :=
  ∃ v, w.BeginsClose c s v ∧ (v.startClose c s).2.isLetIn

/-- The move is a turn that lets in a close of `s`. -/
def LetsIn (w : System) (m : Move) (s : StreamId) : Prop :=
  ∃ c, m = .turn (.call c) ∧ w.ready (.call c) ∧ w.LetsClose c s

/-- The streams that a turn of the call may touch. -/
def reach (w : System) (c : CallId) : Set StreamId :=
  match w.phaseOf c with
  | .seeking a => {s | (w.slot (w.brokerOf c) a.key).shared = some s}
  | .releasing i => {s | ∃ x, w.consumers.get? i = some x ∧ x.stream = s}
  | p => {s | s ∈ p.holds}

/-- The streams that a step may touch. -/
def touched (w : System) : Move → Set StreamId
  | .turn (.call c) => w.reach c
  | .turn (.pump s) | .provide _ (.ok s) | .letGo s => {s}
  | .deliver n _ => {(w.connection n).stream}
  | .abandon c => {s | s ∈ (w.phaseOf c).holds}
  | _ => ∅

/-! ### The four procedures -/

/-- From `w` to `w'` only streams in `S` are touched, each comes to the next state at most, new ones are
unopened, only those in `P` come to be closing or closed, and a shutdown begins only with a pump that has
stopped. Only an ambient move changes the surroundings. -/
structure Paces (m : Move) (S : Set StreamId) (P : StreamId → Prop) (w w' : System) : Prop where
  others : ∀ s ∉ S, s < w.streams.size → w'.stream s = w.stream s
  state : ∀ s < w.streams.size, (w.stream s).state.Passes (w'.stream s).state
  made : ∀ s < w'.streams.size, w.streams.size ≤ s → (w'.stream s).state = .unopened
  done : ∀ s, (w'.stream s).state.isDone → (w.stream s).state.isDone ∨ P s
  size : w.streams.size ≤ w'.streams.size
  shutdown : ∀ n, w'.shutdownsOf n ≠ w.shutdownsOf n → ∃ s, (w.stream s).pump = .stopped n
  surroundings : m.isAmbient = false → w'.clock = w.clock ∧ w'.desk = w.desk ∧ w'.fired = w.fired

theorem Fades.state (h : Fades S w w') (hs : s < w.streams.size) :
    (w.stream s).state.Fades (w'.stream s).state :=
  Stream.fades (h.lifecycle s hs) (h.feed s hs)

theorem Fades.unopened (h : Fades S w w') (hs : s < w'.streams.size) (hn : w.streams.size ≤ s) :
    (w'.stream s).state = .unopened := by
  have hl := h.made s hs hn
  rw [Stream.state_of_lifecycle (by simp [hl]), hl]
  rfl

/-- A stream does not come to its end by itself. -/
theorem Fades.done (h : Fades S w w') (done : (w'.stream s).state.isDone) :
    (w.stream s).state.isDone := by
  rcases Nat.lt_or_ge s w.streams.size with hs | hs
  · rcases h.state hs with he | ⟨-, he⟩
    · exact he ▸ done
    · rw [he] at done
      cases done
  · rw [w.stream_of_size_le s hs]
    rfl

theorem Fades.paces (h : Fades S w w') : Paces m S P w w' where
  others := h.others
  state _ hs := (h.state hs).passes
  made _ hs hn := h.unopened hs hn
  done _ hs := .inl (h.done hs)
  size := h.size
  shutdown n hn := absurd (h.shutdowns n) hn
  surroundings _ := h.surroundings

namespace Paces

theorem refl (w : System) : Paces m S P w w := (Fades.refl w).paces

theorem mono (h : Paces m S P w w') (hPQ : ∀ s, P s → Q s) : Paces m S Q w w' :=
  { h with done := fun s hs => (h.done s hs).imp_right (hPQ s) }

/-- What follows by itself does not count as another step. -/
theorem fades (h : Paces m S P w w') (g : Fades S w' w'') : Paces m S P w w'' where
  others s hS hs := (g.others s hS (hs.trans_le h.size)).trans (h.others s hS hs)
  state s hs := (h.state s hs).fades (g.state (hs.trans_le h.size))
  made s hs hn := by
    rcases Nat.lt_or_ge s w'.streams.size with hl | hl
    · have faded := g.state hl
      rw [h.made s hl hn] at faded
      rcases faded with he | ⟨⟨⟩, -⟩
      exact he
    · exact g.unopened hs hl
  done s hs := h.done s (g.done hs)
  size := h.size.trans g.size
  shutdown n hn := h.shutdown n (by rwa [g.shutdowns] at hn)
  surroundings hm := by
    obtain ⟨hc, hd, hf⟩ := h.surroundings hm
    exact ⟨g.surroundings.1.trans hc, g.surroundings.2.1.trans hd, g.surroundings.2.2.trans hf⟩

/-- A stream comes to its next state. -/
theorem setStream (hs : s ∈ S) {f : Stream → Stream} (hf : (w.stream s).state.Next (f (w.stream s)).state)
    (done : (f (w.stream s)).state.isDone → (w.stream s).state.isDone ∨ P s) :
    Paces m S P w (w.setStream s f) := by
  refine ⟨fun t ht _ => ?_, fun t _ => ?_, fun t ht hn => ?_, fun t ht => ?_, by simp,
    fun n hn => absurd rfl hn, fun _ => ⟨rfl, rfl, rfl⟩⟩
  · exact stream_setStream_ne _ _ _ _ (by rintro rfl; exact ht hs)
  · rw [stream_setStream]
    split
    · rename_i he
      rw [he.1]
      exact .inr (.inl hf)
    · exact .inl rfl
  · rw [streams_size_setStream] at ht
    exact absurd ht (Nat.not_lt.2 hn)
  · rw [stream_setStream] at ht
    split at ht
    · rename_i he
      rw [he.1] at ht ⊢
      exact done ht
    · exact .inl ht

end Paces

/-- The pump of a stream that is given its connection reads its own. -/
theorem own_connected {d : Dial} (manned : w.Manned s (.dial d)) (n : ConnectionId)
    (hn : ((w.connected c s d.connection).stream s).pump.connection? = some n) :
    ((w.connected c s d.connection).connection n).stream = s := by
  obtain ⟨hl, x, hx, place, -⟩ := manned
  have made : s < w.streams.size := lt_of_lifecycle (by simp [hl])
  have self : (w.connected c s d.connection).stream s = { w.stream s with
      lifecycle := .connected, feed := true, pump := .reading d.connection,
      buffer := .ofCapacity (w.stream s).capacity } :=
    stream_setStream_self _ _ _ made
  rw [self] at hn
  obtain rfl := Option.some.inj hn
  have there : (w.setLink d.connection .live).connections.get? d.connection =
      some { x with state := .live } := by
    simp [setLink, Table.get?_update, hx]
  show ((w.setLink d.connection .live).connection d.connection).stream = s
  rw [connection, there]
  exact place

section Procedures

variable (hs : s ∈ S)

include hs

theorem paces_startOpen (w : System) (c : CallId) (token : Option Token) :
    Paces m S P w (w.startOpen c s token).1 := by
  simp only [startOpen]
  split
  · exact ((Fades.refl w).note _ _).paces
  · rename_i unopened
    split
    · exact .refl w
    · have hl : (w.stream s).lifecycle = .unopened := not_not.1 unopened
      have asked : Paces m S P w (w.setStream s fun x => { x with lifecycle := .opening }) := by
        refine .setStream hs ?_ (by rintro ⟨⟩)
        rw [Stream.state_of_lifecycle (by simp [hl]), hl]
        exact .dial
      refine { asked with shutdown := fun n hn => ?_ }
      exact absurd (shutdownsOf_witness _ _ _) hn

/-- An attempt that has come out takes its stream back, or gives it the connection. -/
theorem paces_finishOpen {d : Dial} (manned : w.Manned s (.dial d)) :
    Paces m S P w (w.finishOpen c s d).1 := by
  have opening : (w.stream s).state = .opening := (Stream.state_eq_iff (by rintro ⟨⟩)).2 manned.1
  have linked : ∀ {l f}, StreamState.Next .opening (f (w.stream s)).state →
      (f (w.stream s)).state.isDone = false →
      Paces m S P w ((w.setLink d.connection l).setStream s f) := fun hf hd =>
    { Paces.setStream (w := w) hs (opening ▸ hf) (by simp [hd]) with }
  rcases w.finishOpen_cases c s d with ⟨l, e, -, h⟩ | h <;> rw [h]
  · exact linked .fail rfl
  · refine .fades (linked ?_ ?_) ((Fades.refl _).note _ _)
    · exact .connect
    · rfl

theorem paces_startClose (w : System) (c : CallId) :
    Paces m S (fun t => t = s ∧ (w.startClose c s).2.isLetIn) w (w.startClose c s).1 := by
  unfold startClose
  dsimp only
  split
  · rename_i connected
    refine .setStream hs ?_ fun _ => .inr ⟨rfl, rfl⟩
    rw [Stream.state_of_connected connected]
    split
    · exact .haltLive
    · exact .haltEnded
  · rename_i unopened
    refine .setStream hs ?_ fun _ => .inr ⟨rfl, rfl⟩
    rw [Stream.state_of_lifecycle (by simp [unopened]), unopened]
    exact .void
  · exact ((Fades.refl w).note _ _).paces

/-- The end of a close. -/
theorem paces_closed {fault : Option ShutdownFault} (closing : (w.stream s).lifecycle = .closing) :
    Paces m S P w (w.closed c s fault).1 := by
  have state : (w.stream s).state = .closing := (Stream.state_eq_iff (by rintro ⟨⟩)).2 closing
  obtain ⟨e, he, -⟩ := fst_closed w c s fault
  rw [he]
  refine .fades (.setStream hs ?_ fun _ => .inl (by rw [state]; rfl)) ((Fades.refl _).note _ _)
  rw [state]
  exact .shut

/-- A close takes the connection from the pump, or comes to its end. -/
theorem paces_advanceClose {stage : CloseStage} (manned : w.Manned s (.close stage)) :
    Paces m S P w (w.advanceClose c s stage).1 := by
  cases stage with
  | joining =>
    simp only [advanceClose]
    split
    · rename_i n stopped
      have taken : Paces m S P w (w.setStream s fun x => { x with pump := .collected n }) := by
        refine (Fades.setStream (.refl w) hs fun x => ?_).paces
        exact ⟨rfl, id⟩
      refine { taken with shutdown := fun k hk => ⟨s, ?_⟩ }
      have count : (w.collect s n).shutdownsOf k = w.shutdownsOf k + if some n = some k then 1 else 0 :=
        shutdownsOf_witness _ _ _
      by_cases he : n = k
      · rw [stopped, he]
      · rw [count, if_neg fun h => he (Option.some.inj h)] at hk
        exact absurd rfl hk
    · exact paces_closed hs manned.1
    · exact .refl w
  | shutting due =>
    simp only [advanceClose]
    split
    · rename_i n _
      have ended : Paces m S P (w.setLink n .shut) ((w.setLink n .shut).closed c s
          ((w.connection n).terms.shutdownFailure.map .transport)).1 := paces_closed hs manned.1
      exact { ended with }
    · exact .refl w

/-- A turn of a close that begins it only from no stage. -/
theorem paces_turnClose {stage : Option CloseStage}
    (manned : ∀ x, stage = some x → w.Manned s (.close x)) :
    Paces m S (fun t => t = s ∧ stage = none ∧ (w.startClose c s).2.isLetIn) w
      (w.turnClose c s stage).1 := by
  cases stage with
  | none => exact (paces_startClose hs w c).mono fun t ht => ⟨ht.1, rfl, ht.2⟩
  | some stage => exact paces_advanceClose hs (manned stage rfl)

/-! ### Turns of a call -/

theorem Fades.failOpen (h : Fades S w w') (c : CallId) (a : Acquisition) (e : StreamError) :
    Fades S w (w'.failOpen c a s e) :=
  (((((h.finish c _).endOpen c a.key none).reap hs).record _ _).note _ _).announce _

theorem fades_concludeOpen (w : System) (c : CallId) (a : Acquisition) :
    Fades S w (w.concludeOpen c a s) := by
  have h : Fades S w w := .refl w
  unfold concludeOpen
  dsimp only
  split
  · exact (((h.setPhase c _).endOpen c a.key none).note _ _).announce _
  · refine .announce (.note (.record (.attach (.endOpen (.setStream h hs fun x => ?_) c _ _) c s) _ _)
      _ _) _
    exact ⟨rfl, id⟩

/-- What follows when an open goes on to close its stream. -/
theorem fades_nextMove_close (w : System) (c : CallId) (a : Acquisition) (rest : List OpenMove) :
    Fades S (w.startClose c s).1 (w.nextMove c a s (.close :: rest)) := by
  simp only [nextMove]
  split <;> rename_i heq <;> rw [heq]
  · exact (Fades.refl _).setPhase c _
  · exact (Fades.refl _).setPhase c _
  · exact (Fades.refl _).failOpen hs c a _

/-- The next move of an open touches its stream only, whose pump reads its own connection. -/
theorem paces_nextMove (own : ∀ n, (w.stream s).pump.connection? = some n → (w.connection n).stream = s)
    (c : CallId) (a : Acquisition) (l : List OpenMove) :
    Paces m S (fun t => t = s ∧ (∃ rest, l = .close :: rest) ∧ (w.startClose c s).2.isLetIn) w
      (w.nextMove c a s l) := by
  cases l with
  | nil => exact (fades_concludeOpen hs w c a).paces
  | cons move rest =>
    cases move with
    | pause ms => exact ((Fades.refl w).setPhase c _).paces
    | fail e => exact ((Fades.refl w).failOpen hs c a e).paces
    | connect token =>
      have started := fun P => paces_startOpen (m := m) (P := P) hs w c token
      simp only [nextMove]
      split <;> rename_i heq <;> rw [heq] at started
      · exact (started _).fades ((Fades.refl _).setPhase c _)
      · exact (started _).fades ((Fades.refl _).setPhase c _)
      · exact (started _).fades ((Fades.refl _).failOpen hs c a _)
    | exhaust =>
      simp only [nextMove]
      split
      · rename_i n hn
        exact (((Fades.refl w).deliver (by rwa [own n hn]) _).setPhase c _).paces
      · exact ((Fades.refl w).setPhase c _).paces
    | close =>
      refine ((paces_startClose hs w c).mono fun t ht => ?_).fades (fades_nextMove_close hs w c a rest)
      exact ⟨ht.1, ⟨rest, rfl⟩, ht.2⟩

/-- A connection that is made goes with the next move at once. -/
theorem Paces.connected {d : Dial} (manned : w.Manned s (.dial d))
    (h : Paces m S P (w.connected c s d.connection) w') : Paces m S P w w' := by
  have made : s < w.streams.size := lt_of_lifecycle (by simp [manned.1])
  have self : (w.connected c s d.connection).stream s = { w.stream s with
      lifecycle := .connected, feed := true, pump := .reading d.connection,
      buffer := .ofCapacity (w.stream s).capacity } :=
    stream_setStream_self _ _ _ made
  have others : ∀ t ≠ s, (w.connected c s d.connection).stream t = w.stream t := fun t ht =>
    stream_setStream_ne _ _ _ _ ht
  have size : (w.connected c s d.connection).streams.size = w.streams.size :=
    streams_size_setStream _ _ _
  refine ⟨fun t hS ht => ?_, fun t ht => ?_, fun t ht hn => h.made t ht (size ▸ hn), fun t ht => ?_,
    size ▸ h.size, fun n hn => ?_, h.surroundings⟩
  · rw [h.others t hS (size ▸ ht), others t (by rintro rfl; exact hS hs)]
  · have passes := h.state t (size ▸ ht)
    by_cases he : t = s
    · subst he
      rw [self, Stream.state_of_connected rfl] at passes
      rw [Stream.state_of_lifecycle (by simp [manned.1]), manned.1]
      exact passes.of_live
    · rwa [others t he] at passes
  · refine (h.done t ht).imp_left fun done => ?_
    by_cases he : t = s
    · rw [he, self] at done
      cases done
    · rwa [others t he] at done
  · obtain ⟨t, stopped⟩ := h.shutdown n hn
    refine ⟨t, ?_⟩
    by_cases he : t = s
    · rw [he, self] at stopped
      cases stopped
    · rwa [others t he] at stopped

theorem paces_turnOpening {moves : List OpenMove} {wait : OpenWait}
    (place : w.phaseOf c = .opening a s moves wait)
    (own : ∀ n, (w.stream s).pump.connection? = some n → (w.connection n).stream = s)
    (manned : ∀ j, wait.job? = some j → w.Manned s j) :
    Paces m S (w.LetsClose c) w (w.turnOpening c a s moves wait) := by
  cases wait with
  | nowhere =>
    refine (paces_nextMove hs own c a moves).mono ?_
    rintro _ ⟨rfl, ⟨rest, rfl⟩, letIn⟩
    exact ⟨w, .move place, letIn⟩
  | outside => exact .refl w
  | pausing due | ending => exact ((Fades.refl w).setPhase c _).paces
  | dialing d =>
    simp only [turnOpening]
    rcases w.finishOpen_cases c s d with ⟨l, e, -, h⟩ | h
    · have ended := paces_finishOpen (m := m) (P := w.LetsClose c) (c := c) hs (manned _ rfl)
      rw [h] at ended ⊢
      exact ended.fades ((Fades.refl _).failOpen hs c a e)
    · have made : (w.finishOpen c s d).2 = .ok () := by rw [h]
      have begins : ∀ rest, moves = .close :: rest →
          w.BeginsClose c s (w.connected c s d.connection) := by
        rintro rest rfl
        have atOnce := BeginsClose.atOnce place made
        rwa [h] at atOnce
      rw [h]
      refine .connected hs (manned _ rfl) ((paces_nextMove hs (own_connected (manned _ rfl)) c a
        moves).mono ?_)
      rintro _ ⟨rfl, ⟨rest, hl⟩, letIn⟩
      exact ⟨_, begins rest hl, letIn⟩
  | closing stage =>
    have ended := paces_advanceClose (m := m) (P := w.LetsClose c) (c := c) hs (manned _ rfl)
    simp only [turnOpening]
    split <;> rename_i heq <;> rw [heq] at ended
    · exact ended.fades ((Fades.refl _).setPhase c _)
    · exact ended.fades ((Fades.refl _).setPhase c _)
    · exact ended.fades ((Fades.refl _).failOpen hs c a _)

theorem fades_settleRejection (w : System) (c : CallId) (e : StreamError) (step : CloseStep) :
    Fades S w (w.settleRejection c s e step) := by
  have h : Fades S w w := .refl w
  unfold settleRejection
  split
  · exact h.setPhase c _
  · exact (h.finish c _).reap hs
  · exact ((h.note _ _).finish c _).reap hs

theorem fades_settleTear (w : System) (c : CallId) (step : CloseStep) :
    Fades S w (w.settleTear c s step) := by
  cases step with
  | stage stage => exact (Fades.refl w).setPhase c _
  | finished result => exact (((Fades.refl w).account _ result).finish c _).reap hs

theorem fades_settleSweep (w : System) (c : CallId) (rest : List StreamId) (n : Nat)
    (step : CloseStep) : Fades S w (w.settleSweep c s rest n step) := by
  cases step with
  | stage stage => exact (Fades.refl w).setPhase c _
  | finished result => exact (((Fades.refl w).account _ result).setPhase c _).reap hs

theorem fades_settleClose (w : System) (c : CallId) (step : CloseStep) :
    Fades S w (w.settleClose c s step) := by
  have h : Fades S w w := .refl w
  unfold settleClose
  split
  · exact h.setPhase c _
  · exact (h.finish c _).reap hs
  · exact (h.finish c _).reap hs

theorem paces_turnDialStart (w : System) (c : CallId) (token : Option Token) :
    Paces m S P w (w.turnDialStart c s token) := by
  have started := paces_startOpen (m := m) (P := P) hs w c token
  simp only [turnDialStart]
  split <;> rename_i heq <;> rw [heq] at started
  · exact started.fades ((Fades.refl _).setPhase c _)
  · exact started.fades (((Fades.refl _).finish c _).reap hs)
  · exact started.fades (((Fades.refl _).finish c _).reap hs)

theorem paces_turnDialing {d : Dial} (manned : w.Manned s (.dial d)) :
    Paces m S P w (w.turnDialing c s d) := by
  have ended := paces_finishOpen (m := m) (P := P) (c := c) hs manned
  simp only [turnDialing]
  split <;> rename_i heq <;> rw [heq] at ended
  · exact ended.fades (((Fades.refl _).finish c _).reap hs)
  · exact ended.fades (((Fades.refl _).finish c _).reap hs)

end Procedures

theorem paces_turnSweeping {current : Option (StreamId × CloseStage)} {rest : List StreamId}
    {count : Nat} (place : w.phaseOf c = .sweeping current rest count)
    (manned : ∀ t x, current = some (t, x) → w.Manned t (.close x))
    (hS : ∀ t ∈ (Phase.sweeping current rest count).holds, t ∈ S) :
    Paces m S (w.LetsClose c) w (w.turnSweeping c current rest count) := by
  simp only [turnSweeping]
  split
  · rename_i t x
    have ht : t ∈ S := hS t List.mem_cons_self
    exact (paces_advanceClose ht (manned t x rfl)).fades (fades_settleSweep ht _ c _ _ _)
  · rename_i t rest
    have ht : t ∈ S := hS t List.mem_cons_self
    refine Paces.fades ?_ (fades_settleSweep ht _ c _ _ _)
    have started := paces_startClose (m := m) ht
      (w.note c (.sweeping (w.stream t).key (w.stream t).consumers)) c
    refine { started.mono ?_ with }
    rintro _ ⟨rfl, letIn⟩
    exact ⟨_, .sweep place, letIn⟩
  · refine Fades.paces (.finish ?_ c _)
    split
    · exact (Fades.refl w).note _ _
    · exact .refl w

/-- A pump has been started on a connection that is there, of its own stream. -/
theorem Wired.own_connection {J : CallId → Option (StreamId × Job)} (h : w.Wired J)
    (hn : (w.stream s).pump.connection? = some n) :
    n < w.connections.size ∧ (w.connection n).stream = s := by
  obtain ⟨x, hx, place⟩ := h.exists_connection hn
  rw [connection, hx]
  exact ⟨Table.lt_size_of_get? hx, place⟩

/-- What has not been dialed delivers nothing. -/
theorem Wired.deliver_missing {J : CallId → Option (StreamId × Job)} (h : w.Wired J)
    (missing : ¬ n < w.connections.size) (e : SourceEvent) : w.deliver n e = w := by
  have deaf : w.accepts n = false := by
    simp only [accepts, Bool.and_eq_false_iff, decide_eq_false_iff_not]
    refine .inl fun reads => missing (h.own_connection (s := (w.connection n).stream) ?_).1
    rw [reads]
    rfl
  simp [deliver, deaf]

theorem Wired.paces_turnCall (h : w.Wired w.jobs) (c : CallId) :
    Paces m (w.reach c) (w.LetsClose c) w (w.turnCall c (w.phaseOf c)) := by
  have manned : ∀ {t j}, (w.phaseOf c).job? = some (t, j) → w.Manned t j := fun hj => h.manned hj
  unfold reach
  cases hp : w.phaseOf c with
  | admission ctx a => exact (fades_enter w c ctx a).paces
  | seeking a => exact (fades_seek fun s hs => hs).paces
  | waiting a o => exact (fades_endWait w c a o).paces
  | opening a s moves wait =>
    refine paces_turnOpening (List.mem_singleton_self s) hp (fun n hn => (h.own_connection hn).2)
      fun j hj => manned ?_
    rw [hp, Phase.job?, hj]
    rfl
  | rejecting s stage e =>
    have hs := List.mem_singleton_self s
    refine ((paces_turnClose hs fun x hx => manned ?_).mono ?_).fades
      (fades_settleRejection hs _ c e _)
    · rw [hp, hx]
      rfl
    · rintro _ ⟨rfl, rfl, letIn⟩
      exact ⟨w, .reject hp, letIn⟩
  | releasing i =>
    refine Fades.paces (fades_release fun x hx => ?_)
    exact (⟨x, hx, rfl⟩ : ∃ y, w.consumers.get? i = some y ∧ y.stream = x.stream)
  | tearing s stage =>
    have hs := List.mem_singleton_self s
    refine ((paces_turnClose hs fun x hx => manned ?_).mono ?_).fades (fades_settleTear hs _ c _)
    · rw [hp, hx]
      rfl
    · rintro _ ⟨rfl, rfl, letIn⟩
      exact ⟨w, .tear hp, letIn⟩
  | sweepStart => exact Fades.paces (.of_eq rfl rfl ⟨rfl, rfl, rfl⟩)
  | sweeping current rest n =>
    refine paces_turnSweeping hp (fun t x hx => manned ?_) fun t ht => ht
    rw [hp, hx]
    rfl
  | dialStart s token => exact paces_turnDialStart (List.mem_singleton_self s) w c token
  | dialing s d => exact paces_turnDialing (List.mem_singleton_self s) (manned (by rw [hp]; rfl))
  | closeStart s =>
    have hs := List.mem_singleton_self s
    refine ((paces_startClose hs w c).mono ?_).fades (fades_settleClose hs _ c _)
    rintro _ ⟨rfl, letIn⟩
    exact ⟨w, .alone hp, letIn⟩
  | closing s stage =>
    have hs := List.mem_singleton_self s
    exact (paces_advanceClose hs (manned (by rw [hp]; rfl))).fades (fades_settleClose hs _ c _)
  | finished o => exact .refl w
  | abandoned => exact .refl w

/-- With a step each stream comes to the next state at most, and only those touched change at all. -/
theorem Wired.paces_step (h : w.Wired w.jobs) (m : Move) :
    Paces m (w.touched m) (w.LetsIn m) w (w.step m) := by
  cases m with
  | turn r =>
    simp only [System.step, System.turn]
    split
    · cases r with
      | call c => exact (h.paces_turnCall c).mono fun t ht => ⟨c, rfl, ‹_›, ht⟩
      | pump s => exact (fades_turnPump w s).paces
    · exact .refl w
  | start b gated errand =>
    simp only [System.step, System.start]
    split
    · exact (fades_begin w b gated errand).paces
    · exact .refl w
  | deliver n e => exact ((Fades.refl w).deliver (Set.mem_singleton _) e).paces
  | cancel t =>
    simp only [System.step]
    split
    · exact .refl w
    · exact { Paces.refl (m := .cancel t) w with surroundings := by rintro ⟨⟩ }
  | abandon c => exact (fades_abandon fun s hs => hs).paces
  | provide c result =>
    refine (fades_provide fun s hs => ?_).paces
    rw [hs]
    exact Set.mem_singleton s
  | dropConsumer i => exact (fades_dropConsumer w i).paces
  | make r config => exact ((Fades.refl w).addStream rfl).paces
  | letGo s =>
    refine Fades.paces (.reap (.setStream (.refl w) (Set.mem_singleton s) fun x => ?_)
      (Set.mem_singleton s))
    exact ⟨rfl, id⟩
  | setDesk desk => exact { Paces.refl (m := .setDesk desk) w with surroundings := by rintro ⟨⟩ }
  | elapse ms => exact { Paces.refl (m := .elapse ms) w with surroundings := by rintro ⟨⟩ }

end System

end TunerBroker
