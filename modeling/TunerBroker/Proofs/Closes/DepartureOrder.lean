import TunerBroker.Proofs.Closes.DepartureTales
import TunerBroker.Proofs.Sources.Footprint
import TunerBroker.Proofs.Closes.SweepOrder

/-! Consumers that leave, in whatever order. Their releases can always come to their end; and however they
are interleaved, they leave the same slots, consumers, streams, connections and counters. -/

namespace TunerBroker

/-- A move that begins nothing: a turn, or time that passes. -/
def Move.Settles : Move → Prop
  | turn _ | elapse _ => True
  | _ => False

theorem Move.Settles.departs {m : Move} (h : m.Settles) (b : BrokerId) (I : Finset ConsumerId) :
    m.Departs b I := by
  cases m with
  | turn | elapse => trivial
  | _ => cases h

theorem Move.IsQuiet.settles {m : Move} {c : CallId} {l : List StreamId} (h : m.IsQuiet c l) :
    m.Settles := by
  cases m with
  | turn | elapse => trivial
  | _ => cases h

namespace System

open scoped List

variable {moves moves' : List Move} {w v u u' : System} {b : BrokerId} {c : CallId} {s t : StreamId}
  {i : ConsumerId} {x : Consumer} {I : Finset ConsumerId} {stage : Option CloseStage}

/-- In the run each of the consumers `I` is released, with no other calls, until nobody has anything to do
any more. -/
structure Vacates (w : System) (b : BrokerId) (I : Finset ConsumerId) (moves : List Move) : Prop where
  departs : ∀ m ∈ moves, m.Departs b I
  asked : ∀ i ∈ I, ∃ gated, .start b gated (.release i) ∈ moves
  ended : ∀ c, ((w.run moves).phaseOf c).isOver
  rested : ∀ s, (w.run moves).ready (.pump s) = false

/-- Calls that were never made are over. -/
theorem isOver_of_made (made : ∀ c < w.calls.size, (w.phaseOf c).isOver) (c : CallId) :
    (w.phaseOf c).isOver := by
  rcases Nat.lt_or_ge c w.calls.size with hc | hc
  · exact made c hc
  · rw [phaseOf_of_size_le w c hc]
    rfl

/-- Streams that were never made have no pump to stop. -/
theorem rested_of_made (made : ∀ s < w.streams.size, w.ready (.pump s) = false) (s : StreamId) :
    w.ready (.pump s) = false := by
  rcases Nat.lt_or_ge s w.streams.size with hs | hs
  · exact made s hs
  · rw [ready, w.stream_of_size_le s hs]
    rfl

/-! ### Ends in reach -/

theorem calls_size_settles (settles : ∀ m ∈ moves, m.Settles) :
    (w.run moves).calls.size = w.calls.size := by
  induction moves generalizing w with
  | nil => rfl
  | cons m moves ih =>
    obtain ⟨here, later⟩ := List.forall_mem_cons.1 settles
    refine (ih later).trans ((step_newCall w m).resolve_right ?_)
    rintro ⟨⟨b, gated, x, rfl⟩, -⟩
    exact here

/-- A close that has been come to can be taken to its end. -/
theorem Regular.endable (reg : w.Regular) (place : w.phaseOf c = .tearing s stage) : w.Endable c s := by
  refine Closes.endable ?_ reg.wired
  cases stage with
  | none =>
    refine .ahead place (reg.poised.ahead (c := c) ?_)
    rw [place]
    exact List.mem_singleton_self s
  | some stage => exact .under stage place

section Progress

variable (come : w.Departing b I v) (attends : w.Attends b I)

include come attends

/-- Every call can come to its end. -/
theorem Departing.call_ends (c : CallId) :
    ∃ moves, (∀ m ∈ moves, m.Settles) ∧ ((v.run moves).phaseOf c).isOver := by
  have tearing : ∀ {v : System} {s : StreamId} {stage : Option CloseStage}, v.Regular →
      v.phaseOf c = .tearing s stage →
      ∃ moves : List Move, (∀ m ∈ moves, m.Settles) ∧ ((v.run moves).phaseOf c).isOver := by
    intro v s stage reg place
    obtain ⟨moves, quiet, result, ends⟩ := reg.endable place
    exact ⟨moves, fun m hm => (quiet m hm).settles, by rw [ends]; rfl⟩
  have here : (Move.turn (.call c)).Departs b I := trivial
  rcases come.places c with past | ⟨-, ⟨i, hi, place⟩ | ⟨s, stage, -, place⟩⟩
  · exact ⟨[], by simp, past⟩
  · rcases (come.departure attends here).turn_releasing place with ⟨x, -, done⟩ | ⟨x, takes⟩
    · refine ⟨[.turn (.call c)], by simp [Move.Settles], ?_⟩
      show ((v.step (.turn (.call c))).phaseOf c).isOver
      rw [done]
      rfl
    · obtain ⟨moves, settles, past⟩ := tearing (come.regular.step _) takes.next
      exact ⟨.turn (.call c) :: moves, List.forall_mem_cons.2 ⟨trivial, settles⟩, past⟩
  · exact tearing come.regular place

/-- All calls can come to their ends. -/
theorem Departing.calls_end :
    ∃ moves, (∀ m ∈ moves, m.Settles) ∧ ∀ c, ((v.run moves).phaseOf c).isOver := by
  -- One after another: those that are over stay so.
  have first : ∀ n ≤ v.calls.size, ∃ moves, (∀ m ∈ moves, m.Settles) ∧
      ∀ c < n, ((v.run moves).phaseOf c).isOver := by
    intro n
    induction n with
    | zero => exact fun _ => ⟨[], by simp, fun c hc => absurd hc (Nat.not_lt_zero c)⟩
    | succ n ih =>
      intro hn
      obtain ⟨moves, settles, past⟩ := ih (Nat.le_of_succ_le hn)
      obtain ⟨later, settles', past'⟩ :=
        (come.run attends fun m hm => (settles m hm).departs b I).call_ends attends n
      refine ⟨moves ++ later, List.forall_mem_append.2 ⟨settles, settles'⟩, fun c hc => ?_⟩
      rw [run_append]
      rcases Nat.lt_succ_iff_lt_or_eq.1 hc with hc | rfl
      · have there : c < (v.run moves).calls.size := by
          rw [calls_size_settles settles]
          exact Nat.lt_trans hc hn
        rw [run_over later (past c hc) there]
        exact past c hc
      · exact past'
  obtain ⟨moves, settles, past⟩ := first v.calls.size (Nat.le_refl _)
  exact ⟨moves, settles, isOver_of_made fun c hc => past c (calls_size_settles settles ▸ hc)⟩

end Progress

/-- A pump that has had its turn has nothing to do, and no other pump has more to do than before. -/
theorem ready_pump_step (h : (v.step (.turn (.pump s))).ready (.pump t)) : v.ready (.pump t) ∧ t ≠ s := by
  by_cases ready : v.ready (.pump s)
  · obtain ⟨reading, stopping⟩ := Bool.and_eq_true_iff.1 ready
    cases hp : (v.stream s).pump with
    | reading n =>
      have made : s < v.streams.size := lt_of_pump (by rw [hp]; rintro ⟨⟩)
      rw [step_pump hp stopping] at h
      have other : t ≠ s := by
        rintro rfl
        simp [System.ready, isReading_endPump (n := n) made] at h
      simp only [System.ready, stream_endPump made hp stopping, if_neg other] at h
      exact ⟨h, other⟩
    | _ => simp [hp, Pump.isReading] at reading
  · rw [show v.step (.turn (.pump s)) = v by simp [step, turn, ready]] at h
    exact ⟨h, by rintro rfl; exact ready h⟩

/-- All pumps can come to rest, and calls stay where they are. -/
theorem pumps_rest (v : System) : ∃ moves, (∀ m ∈ moves, m.Settles) ∧
    (∀ s, (v.run moves).ready (.pump s) = false) ∧ ∀ c, (v.run moves).phaseOf c = v.phaseOf c := by
  have first : ∀ n, ∃ moves, (∀ m ∈ moves, m.Settles) ∧
      (∀ s, (v.run moves).ready (.pump s) → v.ready (.pump s) ∧ n ≤ s) ∧
      ∀ c, (v.run moves).phaseOf c = v.phaseOf c := by
    intro n
    induction n with
    | zero => exact ⟨[], by simp, fun s hs => ⟨hs, Nat.zero_le s⟩, fun _ => rfl⟩
    | succ n ih =>
      obtain ⟨moves, settles, rest, same⟩ := ih
      refine ⟨moves ++ [.turn (.pump n)], ?_, fun s hs => ?_, fun c => ?_⟩
      · exact List.forall_mem_append.2 ⟨settles, by simp [Move.Settles]⟩
      · rw [run_concat] at hs
        obtain ⟨before, other⟩ := ready_pump_step hs
        obtain ⟨ready, le⟩ := rest s before
        exact ⟨ready, Nat.lt_of_le_of_ne le (Ne.symm other)⟩
      · have hushed := hushed_quiet (w := v.run moves) (m := .turn (.pump n)) (c := c) (l := [n])
          (List.mem_singleton_self n) (by rintro ⟨⟩)
        rw [run_concat, hushed.phaseOf, same]
  obtain ⟨moves, settles, rest, same⟩ := first v.streams.size
  refine ⟨moves, settles, fun s => Bool.eq_false_of_not_eq_true fun hs => ?_, same⟩
  obtain ⟨ready, le⟩ := rest s hs
  rw [System.ready, v.stream_of_size_le s le] at ready
  cases ready

/-- Wherever such a run has come to, it can go on to release all the consumers and to come to rest. -/
theorem Departing.vacates (h : w.Departing b I w) (attends : w.Attends b I)
    (departs : ∀ m ∈ moves, m.Departs b I) : ∃ later, w.Vacates b I (moves ++ later) := by
  have asks : ∀ m ∈ I.toList.map fun i => Move.start b false (.release i), m.Departs b I := by
    intro m hm
    obtain ⟨i, hi, rfl⟩ := List.mem_map.1 hm
    exact ⟨rfl, Finset.mem_toList.1 hi⟩
  have asked := List.forall_mem_append.2 ⟨departs, asks⟩
  obtain ⟨calls, settles, past⟩ := (h.run attends asked).calls_end attends
  obtain ⟨pumps, settles', rested, same⟩ :=
    pumps_rest ((w.run (moves ++ I.toList.map fun i => .start b false (.release i))).run calls)
  refine ⟨(I.toList.map fun i => .start b false (.release i)) ++ (calls ++ pumps), ?_, fun i hi => ?_,
    fun c => ?_, fun s => ?_⟩
  · rw [← List.append_assoc]
    exact List.forall_mem_append.2 ⟨asked, List.forall_mem_append.2
      ⟨fun m hm => (settles m hm).departs b I, fun m hm => (settles' m hm).departs b I⟩⟩
  · refine ⟨false, List.mem_append_right _ (List.mem_append_left _ ?_)⟩
    exact List.mem_map_of_mem (Finset.mem_toList.2 hi)
  all_goals rw [← List.append_assoc, run_append, run_append]
  · rw [same]
    exact past c
  · exact rested s

/-! ### What is left -/

section End

variable (h : w.Departing b I w) (attends : w.Attends b I) (vac : w.Vacates b I moves)

include h attends vac

namespace Vacates

/-- The tale of each consumer has come to its end. -/
theorem tale_ends (hi : i ∈ I) (hx : w.consumers.get? i = some x) :
    (w.run moves).consumers.get? i = some { x with standing := .released } ∧
      ∃ c, w.along (handsOver i) moves = [c] ∧ (c ∈ w.along (empties x.stream) moves ∨
        (w.run moves).phaseOf c = .finished .done ∧ w.Unwaiting moves c) := by
  have come := h.run attends vac.departs
  have left : ∀ {y : Consumer}, (w.run moves).consumers.get? i = some y → y.standing = .released →
      (w.run moves).consumers.get? i = some { x with standing := .released } := by
    intro y hy standing
    obtain ⟨z, hz, broker, stream, key⟩ := come.thins.consumer hy
    obtain rfl := Option.some.inj (hz.symm.trans hx)
    rw [hy, broker, stream, key, ← standing]
  cases h.tale attends vac.departs hi hx with
  | held unasked =>
    obtain ⟨gated, asked⟩ := vac.asked i hi
    exact absurd asked (unasked gated)
  | waits c sent place =>
    have past := vac.ended c
    rw [place] at past
    cases past
  | passes c sent past prompt there standing => exact ⟨left there standing, c, sent, .inr ⟨past, prompt⟩⟩
  | takes c sent last there standing => exact ⟨left there standing, c, sent, .inl last⟩

/-- The consumers `I` have been released, and no others. -/
theorem consumers (j : ConsumerId) : (w.run moves).consumers.get? j =
    if j ∈ I then (w.consumers.get? j).map fun x => { x with standing := .released }
    else w.consumers.get? j := by
  split
  · rename_i hj
    obtain ⟨x, hx, -⟩ := attends.held j hj
    rw [(vac.tale_ends h attends hj hx).1, hx]
    rfl
  · exact (h.run attends vac.departs).thins.apart j ‹_›

/-- A stream that its consumers leave has none left. -/
theorem unreleased (left : w.LeftBy I s) : (w.run moves).unreleased s = 0 := by
  refine List.countP_eq_zero.2 fun x hx => ?_
  obtain ⟨j, hj⟩ := (Table.mem_entries_iff _ _).1 hx
  rw [vac.consumers h attends] at hj
  rw [decide_eq_true_eq]
  rintro ⟨stream, counted⟩
  split at hj
  · obtain ⟨y, -, rfl⟩ := Option.map_eq_some_iff.1 hj
    exact counted rfl
  · exact ‹j ∉ I› (left.all j x hj stream counted)

/-- The release of its last consumer has closed it. -/
theorem fate_ends (left : w.LeftBy I s) : ∃ i ∈ I, ∃ x c, w.consumers.get? i = some x ∧ x.stream = s ∧
    w.along (handsOver i) moves = [c] ∧ w.along (empties s) moves = [c] ∧
    w.along (closersOf s) moves = [(c, (w.run moves).shutResult s)] ∧
    (w.run moves).phaseOf c = .finished (.ofClose ((w.run moves).shutResult s)) ∧
    ((w.run moves).stream s).lifecycle = .closed ∧ ((w.run moves).stream s).pump ≠ .idle := by
  cases h.fate attends vac.departs left with
  | used some => exact absurd (vac.unreleased h attends left) some
  | closes none mine there stream sent emptied closed place =>
    rw [Phase.closes_of_isOver (vac.ended _)] at place
    cases place
  | @past i x c result none mine there stream sent emptied closed place concluded =>
    obtain rfl : result = (w.run moves).shutResult s := concluded.result _ (List.mem_singleton_self _)
    obtain ⟨-, d, sent', -⟩ := vac.tale_ends h attends mine there
    obtain rfl : c = d := by
      rw [sent'] at sent
      exact List.mem_singleton.1 sent
    exact ⟨i, mine, x, c, there, stream, sent', emptied, closed, place,
      (concluded.buried _ (List.mem_singleton_self _)).closed,
      concluded.pumped _ (List.mem_singleton_self _)⟩

/-- What a stream comes to, but for how many consumers it counts. -/
theorem uncounted (s : StreamId) :
    (w.LeftBy I s → ((w.run moves).stream s).uncounted = (w.stream s).uncounted.wornDown) ∧
    (¬ w.LeftBy I s → ((w.run moves).stream s).uncounted = (w.stream s).uncounted.halted) := by
  have come := h.run attends vac.departs
  refine ⟨fun left => ?_, fun stays => ?_⟩
  · obtain ⟨i, hi, x, c, hx, rfl, -, -, -, -, closed, pumped⟩ := vac.fate_ends h attends left
    obtain ⟨y, hy, -, listed⟩ := attends.held i hi
    obtain rfl := Option.some.inj (hx.symm.trans hy)
    have up : (w.stream x.stream).lifecycle = .connected :=
      ((h.regular.sound.flight.order _ _).connected _ listed).1
    rw [← come.thins.worn, Stream.uncounted_wornDown, Stream.wornDown_of_closed
      (come.regular.wired.fit _) (come.thins.halts _ (.inl up)) closed pumped]
  · rw [← come.thins.kept s stays, Stream.uncounted_halted, Stream.halted_of_unready (vac.rested s)]

/-- What has been closed are the streams that their consumers have left. -/
theorem torn_iff (s : StreamId) :
    s ∈ (w.along (teardownsOn b) moves).map (·.1) ↔ w.LeftBy I s := by
  have buries := h.buries attends vac.departs
  constructor
  · intro hs
    obtain ⟨x, hx, rfl⟩ := List.mem_map.1 hs
    exact buries.left x hx
  · intro left
    refine (buries.all s left (vac.unreleased h attends left)).resolve_left ?_
    rintro ⟨c, hc⟩
    rw [Phase.closes_of_isOver (vac.ended c)] at hc
    cases hc

/-- As many closes have failed as there are streams whose shutdown has. -/
theorem countP_torn :
    (w.along (teardownsOn b) moves).countP (fun x => failsToShut x.2) =
      ((w.along (teardownsOn b) moves).map (·.1)).countP
        fun s => ((w.run moves).shutFault s).isSome := by
  rw [← countP_failsToShut, List.map_map]
  conv_lhs => rw [← List.map_id (w.along (teardownsOn b) moves)]
  refine congrArg _ (List.map_congr_left fun x hx => ?_)
  exact Prod.ext rfl ((h.buries attends vac.departs).result x hx)

end Vacates

end End

/-! ### Order -/

/-- In two states slots, consumers, streams, connections and counters stand the same, and the same
connections have been shut down or lost. -/
structure EndsAlike (u u' : System) : Prop where
  slots : ∀ b k, (u'.broker b).slots.get? k = (u.broker b).slots.get? k
  consumers : u'.consumers = u.consumers
  streams : ∀ s, u'.stream s = u.stream s
  connections : ∀ n, u'.connections.get? n = u.connections.get? n
  counters : ∀ b, u'.countersOf b = u.countersOf b
  shutdowns : ∀ n, u'.shutdownsOf n = u.shutdownsOf n
  drops : ∀ n, u'.dropsOf n = u.dropsOf n

/-- A slot is kept only if it is not empty. -/
theorem Trim.get?_slots (h : w.Trim) (b : BrokerId) (k : SourceKey) : (w.broker b).slots.get? k =
    if (w.slot b k).isEmpty then none else some (w.slot b k) := by
  cases hx : (w.broker b).slots.get? k with
  | none =>
    rw [System.slot, hx]
    rfl
  | some x =>
    have slot : w.slot b k = x := by rw [System.slot, hx]; rfl
    rw [slot, h b k x hx]
    rfl

/-- Connections stand the same if they have the same outlines and their streams stand the same. -/
theorem Wired.connections_eq {J J' : CallId → Option (StreamId × Job)} (wired : u.Wired J)
    (wired' : u'.Wired J') (streams : ∀ s, u'.stream s = u.stream s)
    (links : ∀ n, (u'.connections.get? n).map Connection.outline =
      (u.connections.get? n).map Connection.outline) (n : ConnectionId) :
    u'.connections.get? n = u.connections.get? n := by
  have same := links n
  cases hx : u.connections.get? n with
  | none =>
    rw [hx, Option.map_none, Option.map_eq_none_iff] at same
    exact same
  | some x =>
    rw [hx, Option.map_some, Option.map_eq_some_iff] at same
    obtain ⟨y, hy, same⟩ := same
    simp only [Connection.outline, Connection.mk.injEq] at same
    obtain ⟨stream, terms, state⟩ := same
    have state : y.state = x.state := by
      split at state
      · rename_i up'
        split at state
        · rename_i up
          have link := wired.pumped hx up
          have link' := wired'.pumped hy up'
          rw [stream, streams, link] at link'
          exact ((Prod.mk.inj (Option.some.inj link')).2).symm
        · rename_i down
          rw [← state] at down
          exact absurd rfl down
      · rename_i down
        split at state
        · rw [state] at down
          exact absurd rfl down
        · exact state
    obtain ⟨_, _, _⟩ := x
    obtain ⟨_, _, _⟩ := y
    simp_all

/-- However the consumers leave, they leave the same behind. -/
theorem Departing.endsAlike (h : w.Departing b I w) (attends : w.Attends b I) (trim : w.Trim)
    (vac : w.Vacates b I moves) (vac' : w.Vacates b I moves') :
    EndsAlike (w.run moves) (w.run moves') := by
  have come := h.run attends vac.departs
  have come' := h.run attends vac'.departs
  have consumers : (w.run moves').consumers = (w.run moves).consumers := Table.ext_get? fun j => by
    rw [vac.consumers h attends, vac'.consumers h attends]
  have unreleased := unreleased_congr consumers
  have streams : ∀ s, (w.run moves').stream s = (w.run moves).stream s := fun s => by
    refine Stream.eq_of_uncounted ?_ ?_
    · by_cases left : w.LeftBy I s
      · rw [(vac.uncounted h attends s).1 left, (vac'.uncounted h attends s).1 left]
      · rw [(vac.uncounted h attends s).2 left, (vac'.uncounted h attends s).2 left]
    · have counts := come'.thins.counts s
      rw [unreleased, ← come.thins.counts s] at counts
      exact add_right_cancel counts
  have connections := come.regular.wired.connections_eq come'.regular.wired streams fun n =>
    (come'.thins.links n).trans (come.thins.links n).symm
  have slots : ∀ b k, (w.run moves').slot b k = (w.run moves).slot b k := fun b k => by
    rw [come.thins.slots, come'.thins.slots]
    simp only [unreleased]
  have torn : (w.along (teardownsOn b) moves').map (·.1) ~ (w.along (teardownsOn b) moves).map (·.1) :=
    (List.perm_ext_iff_of_nodup (h.buries attends vac'.departs).nodup
      (h.buries attends vac.departs).nodup).2 fun s => by
        rw [vac.torn_iff h attends, vac'.torn_iff h attends]
  have faults : ∀ s, (w.run moves').shutFault s = (w.run moves).shutFault s := fun s => by
    simp only [shutFault, streams, connection, connections]
  have seen : ∀ n, (w.run moves').Seen n (((w.run moves).connections.get? n).elim .dialing (·.state)) :=
    fun n => connections n ▸ come'.regular.wired.seen n
  refine ⟨fun b k => ?_, consumers, streams, connections, fun b' => ?_,
    fun n => (seen n).1.trans (come.regular.wired.seen n).1.symm,
    fun n => (seen n).2.trans (come.regular.wired.seen n).2.symm⟩
  · rw [(trim.run moves).get?_slots, (trim.run moves').get?_slots, slots]
  · have closes := torn.length_eq
    rw [List.length_map, List.length_map] at closes
    rw [h.counters attends vac.departs, h.counters attends vac'.departs, vac.countP_torn h attends,
      vac'.countP_torn h attends, closes, torn.countP_eq]
    simp only [faults]

/-! ### Every run -/

/-- Let no call be under way, at any moment of any run with fewer than 2³² consumers attached to each
stream, and let the consumers `I` of a broker be held, and no sweep have taken their streams off the list.
When they are released, with no other calls, the releases can always go on until all is at rest. Slots,
consumers, streams, connections and counters then stand the same, in whatever order the releases were made
and however they were interleaved. Each consumer was handed over to one release. That has come out well
and never had to wait, unless it took the count of a stream to zero. For each stream that all its consumers
have left there is one such release: it alone has closed the stream, and gives the result of the close. No
other stream has been closed. -/
theorem releases_commute (configs : List BrokerConfig) (desk : AccessDesk) (terms : List TunerTerms)
    (before : List Move) (b : BrokerId) (I : Finset ConsumerId) :
    let w₀ := fresh configs desk terms
    let w := w₀.run before
    (∀ c, (w.phaseOf c).isOver) → (∀ s, w.attachments s < 2 ^ 32) →
    (∀ i ∈ I, ∃ x, w.consumers.get? i = some x ∧ x.standing = .held ∧ x.broker = b ∧
      ¬w₀.IsSwept before b x.stream) →
    (∀ moves, (∀ m ∈ moves, m.Departs b I) → ∃ later, w.Vacates b I (moves ++ later)) ∧
    (∀ moves moves', w.Vacates b I moves → w.Vacates b I moves' →
      EndsAlike (w.run moves) (w.run moves')) ∧
    ∀ moves, w.Vacates b I moves →
      let u := w.run moves
      (∀ i ∈ I, ∀ x, w.consumers.get? i = some x → ∃ c, w.along (handsOver i) moves = [c] ∧
        (w.along (empties x.stream) moves = [c] ∨
          u.phaseOf c = .finished .done ∧ w.Unwaiting moves c)) ∧
      (∀ s, w.LeftBy I s → ∃ i ∈ I, ∃ x c, w.consumers.get? i = some x ∧ x.stream = s ∧
        w.along (handsOver i) moves = [c] ∧ w.along (empties s) moves = [c] ∧
        w.along (closersOf s) moves = [(c, u.shutResult s)] ∧
        u.phaseOf c = .finished (.ofClose (u.shutResult s)) ∧
        (u.stream s).lifecycle = .closed ∧ u.IsDone s) ∧
      ∀ s, ¬w.LeftBy I s → w.along (empties s) moves = [] ∧ w.along (closersOf s) moves = [] := by
  intro w₀ w past few held
  have reg : w.Regular := (regular_fresh configs desk terms).run before
  have attends : w.Attends b I := by
    refine ⟨few, fun i hi => ?_⟩
    obtain ⟨x, hx, standing, rfl, unswept⟩ := held i hi
    have attached := (attached_or_swept configs desk terms before (few _) hx
      (by rw [standing]; rintro ⟨⟩)).resolve_right unswept
    exact ⟨x, hx, standing, attached.listed⟩
  have h : w.Departing b I w := reg.departing past b I
  refine ⟨fun moves departs => h.vacates attends departs, fun moves moves' vac vac' =>
    h.endsAlike attends ((trim_fresh configs desk terms).run before) vac vac', fun moves vac => ?_⟩
  intro u
  refine ⟨fun i hi x hx => ?_, fun s left => ?_, fun s stays => h.stays attends vac.departs stays⟩
  · obtain ⟨-, c, sent, last | passes⟩ := vac.tale_ends h attends hi hx
    · refine ⟨c, sent, .inl ?_⟩
      by_cases left : w.LeftBy I x.stream
      · obtain ⟨-, -, -, d, -, -, -, emptied, -⟩ := vac.fate_ends h attends left
        rw [emptied] at last ⊢
        rw [List.mem_singleton.1 last]
      · rw [(h.stays attends vac.departs left).1] at last
        cases last
    · exact ⟨c, sent, .inr passes⟩
  · obtain ⟨i, hi, x, c, hx, stream, sent, emptied, closed, place, down, pumped⟩ :=
      vac.fate_ends h attends left
    obtain ⟨n, connection⟩ := Option.ne_none_iff_exists'.1 fun none =>
      pumped (Pump.connection?_eq_none.1 none)
    exact ⟨i, hi, x, c, hx, stream, sent, emptied, closed, place, down,
      (h.run attends vac.departs).regular.wired.done_of_closed down connection⟩

/-- The sample source ends, and another stream of it replaces that stream and comes to two consumers. -/
def threeCome : List Move :=
  oneComes ++ [.deliver 0 .finish, .start 0 false sampleErrand, .turn (.call 1), .turn (.call 1),
    .turn (.call 1), .start 0 false sampleErrand, .turn (.call 2)]

/-- The three are released together, the eldest first. -/
def eldestFirst : List Move :=
  [.start 0 false (.release 0), .start 0 false (.release 1), .start 0 false (.release 2),
    .turn (.call 3), .turn (.call 4), .turn (.call 5), .turn (.call 3), .turn (.call 5), .turn (.pump 1),
    .turn (.call 5), .turn (.call 3), .turn (.call 3), .turn (.call 5)]

/-- The two that share a stream are released and it is closed, and then the eldest. -/
def eldestLast : List Move :=
  [.start 0 false (.release 2), .start 0 false (.release 1), .turn (.call 4), .turn (.call 3),
    .turn (.call 3), .turn (.pump 1), .turn (.call 3), .turn (.call 3), .start 0 false (.release 0),
    .turn (.call 5), .turn (.call 5), .turn (.call 5), .turn (.call 5)]

theorem releases_commute_threeCome :
    let w := (fresh [{}] {} secondStuck).run threeCome
    w.Vacates 0 {0, 1, 2} eldestFirst ∧ w.Vacates 0 {0, 1, 2} eldestLast ∧
      EndsAlike (w.run eldestFirst) (w.run eldestLast) ∧ w.LeftBy {0, 1, 2} 1 ∧
      w.along (empties 1) eldestFirst = [5] ∧
      w.along (closersOf 1) eldestLast = [(3, (w.run eldestLast).shutResult 1)] ∧
      failsToShut ((w.run eldestLast).shutResult 1) ∧ w.Unwaiting eldestFirst 4 ∧
      ∃ later, w.Vacates 0 {0, 1, 2} (.start 0 false (.release 1) :: later) := by
  intro w
  have eldest : w.Vacates 0 {0, 1, 2} eldestFirst :=
    ⟨by simp [eldestFirst, Move.Departs], by simp [eldestFirst], isOver_of_made (by decide +kernel),
      rested_of_made (by decide +kernel)⟩
  have youngest : w.Vacates 0 {0, 1, 2} eldestLast :=
    ⟨by simp [eldestLast, Move.Departs], by simp [eldestLast], isOver_of_made (by decide +kernel),
      rested_of_made (by decide +kernel)⟩
  have left : w.LeftBy {0, 1, 2} 1 := ⟨by decide +kernel, fun j x hx _ _ => by
    have made : j < 3 := Table.lt_size_of_get? hx
    simp
    omega⟩
  have few : ∀ s, w.attachments s < 2 ^ 32 := fun s =>
    List.countP_le_length.trans_lt (by decide +kernel)
  -- A stream that is still listed was not swept.
  have unswept : ∀ s ∈ w.listedAt 0 sampleRequest.key,
      ¬(fresh [{}] {} secondStuck).IsSwept threeCome 0 s :=
    fun s listed swept => swept.unlisted (ledger_fresh ..) (sound_fresh ..) 0 sampleRequest.key listed
  have held : ∀ i ∈ ({0, 1, 2} : Finset ConsumerId), ∃ x, w.consumers.get? i = some x ∧
      x.standing = .held ∧ x.broker = 0 ∧ ¬(fresh [{}] {} secondStuck).IsSwept threeCome 0 x.stream := by
    intro i hi
    simp only [Finset.mem_insert, Finset.mem_singleton] at hi
    rcases hi with rfl | rfl | rfl
    · exact ⟨_, rfl, rfl, rfl, unswept 0 (by decide +kernel)⟩
    · exact ⟨_, rfl, rfl, rfl, unswept 1 (by decide +kernel)⟩
    · exact ⟨_, rfl, rfl, rfl, unswept 1 (by decide +kernel)⟩
  obtain ⟨goesOn, alike, tales⟩ := releases_commute [{}] {} secondStuck threeCome 0 {0, 1, 2}
    (isOver_of_made (by decide +kernel)) few held
  have emptied : w.along (empties 1) eldestFirst = [5] := by decide +kernel
  have emptied' : w.along (empties 1) eldestLast = [3] := by decide +kernel
  have sent : w.along (handsOver 1) eldestFirst = [4] := by decide +kernel
  have prompt : w.Unwaiting eldestFirst 4 := by
    obtain ⟨c, sent', last | ⟨-, prompt⟩⟩ := (tales eldestFirst eldest).1 1 (by decide) _ rfl
    · exact absurd (sent.symm.trans (sent'.trans (last.symm.trans emptied))) (by decide)
    · obtain rfl : 4 = c := List.head_eq_of_cons_eq (sent.symm.trans sent')
      exact prompt
  obtain ⟨-, -, -, c, -, -, -, last, closed, -⟩ := (tales eldestLast youngest).2.1 1 left
  obtain rfl : 3 = c := List.head_eq_of_cons_eq (emptied'.symm.trans last)
  exact ⟨eldest, youngest, alike _ _ eldest youngest, left, emptied, closed, by decide +kernel, prompt,
    goesOn [.start 0 false (.release 1)] (by simp [Move.Departs])⟩

end System

end TunerBroker
