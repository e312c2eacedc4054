import TunerBroker.Proofs.Streams.Liveness
import TunerBroker.Proofs.Closes.Turnover

/-! Releases and sweeps that are abandoned in the course of a close. A close whose connection is already
being shut down needs no call to end; every other stream that the call was to close is destroyed with its
pump still running, and its connection is dropped. -/

namespace TunerBroker

namespace Phase

/-- The streams that lose their connection when the call that is to close them is abandoned here: all but
the one whose shutdown has begun. -/
def loses : Phase → List StreamId
  | tearing s (some .joining) => [s]
  | sweeping (some (s, .joining)) rest _ => s :: rest
  | sweeping (some (_, .shutting _)) rest _ => rest
  | _ => []

theorem loses_subset (p : Phase) : p.loses ⊆ p.deserts := by
  unfold loses
  split
  · exact List.Subset.refl _
  · exact List.Subset.refl _
  · exact List.subset_cons_self _ _
  · exact List.nil_subset _

theorem deserts_subset (p : Phase) : p.deserts ⊆ p.closes := by
  unfold deserts
  split
  · exact List.Subset.refl _
  · exact List.nil_subset _

end Phase

namespace System

variable {m : Move} {w w' v : System} {b : BrokerId} {k : SourceKey} {c d : CallId} {s t : StreamId}
  {n : ConnectionId} {rest : List StreamId}

/-! ### What becomes of the streams -/

theorem detached_detachPump (made : s < w.streams.size) : ((w.detachPump s).stream s).detached := by
  have self : (w.setStream s fun x => { x with stopping := true, detached := true }).stream s =
      { w.stream s with stopping := true, detached := true } := stream_setStream_self _ _ _ made
  simp only [detachPump]
  split
  · show (((w.setStream s _).setStream s _).stream s).detached
    rw [stream_setStream_self _ _ _ (by simpa using made), self]
  · rw [stream_setStream_self _ _ _ (by simpa using made), self]
  · rw [self]

/-- A connected stream that nothing keeps alive has its pump left to itself when it is destroyed. -/
theorem detached_reap (unheld : w.isHeld s = false) (connected : (w.stream s).lifecycle = .connected) :
    ((w.reap s).stream s).detached := by
  have made : s < w.streams.size := lt_of_lifecycle (by simp [connected])
  cases detached : (w.stream s).detached with
  | true => simp [reap, unheld, Stream.isConnected, detached]
  | false =>
    simp only [reap, unheld, Stream.isConnected, connected, detached]
    exact detached_detachPump made

theorem detached_drift (h : Drift m w w') (hd : (w.stream s).detached) : (w'.stream s).detached := by
  have made : s < w.streams.size := by
    rcases Nat.lt_or_ge s w.streams.size with hs | hs
    · exact hs
    · rw [w.stream_of_size_le _ hs] at hd
      cases hd
  exact (h.ages.streams s made).detached hd

theorem detached_foldl_reap (hs : s ∈ rest) (unheld : w.isHeld s = false)
    (connected : (w.stream s).lifecycle = .connected) :
    ((rest.foldl System.reap w).stream s).detached := by
  induction rest generalizing w with
  | nil => cases hs
  | cons t rest ih =>
    have drift : Drift (.elapse 0) w (w.reap t) := .reap (.refl w) t
    rcases List.mem_cons.1 hs with rfl | hs
    · exact detached_drift (m := .elapse 0) (.foldl_reap rest (.refl _)) (detached_reap unheld connected)
    · refine ih hs ?_ ?_
      · rw [drift.frame.isHeld, unheld]
      · rw [drift.frame.lifecycle s (Set.notMem_empty s), connected]

/-- Once its call is over nothing keeps alive a stream that has left the list. -/
theorem Sealed.unheld (h : w.Sealed c s) (unnamed : (w.stream s).named = false)
    (there : c < w.calls.size) (frame : Frame {t} w v) :
    (v.setPhase c .abandoned).isHeld s = false := by
  refine Bool.eq_false_of_not_eq_true fun held => ?_
  rcases (isHeld_iff _ _).1 held with named | ⟨b, k, hl⟩ | ⟨d, hd⟩
  · rw [stream_setPhase, (frame.kin s).named, unnamed] at named
    cases named
  · rw [slot_setPhase, frame.slot] at hl
    exact h.spent.unlisted b k hl
  · rw [phaseOf_setPhase, frame.calls, frame.phaseOf] at hd
    split at hd
    · cases hd
    · rename_i hn
      exact hn ⟨h.alone d hd, there⟩

/-- The shutdown of a connection that has been taken from its pump has begun, once. -/
theorem Wired.shut_of_manned {due : Nat} (wired : w.Wired w.jobs)
    (manned : w.Manned s (.close (.shutting due))) :
    ∃ n, (w.stream s).pump.connection? = some n ∧ w.shutdownsOf n = 1 := by
  obtain ⟨closing, whole, n, collected⟩ := manned
  refine ⟨n, by rw [collected]; rfl, ?_⟩
  obtain ⟨x, hx, -, state⟩ := wired.linked (s := s) (n := n) (l := .shutting)
    (by simp [Stream.link?, collected, closing, whole])
  rw [(wired.seen n).1, hx, Option.elim_some, state]
  rfl

section Abandon

variable (h : w.Poised) (g : w.Sound) (wired : w.Wired w.jobs)

/-- A stream whose pump the abandoned call has waited for is left to its pump. -/
theorem detached_joining (made : s < w.streams.size) (rest : List StreamId) :
    ((rest.foldl System.reap (((w.detachPump s).setPhase c .abandoned).reap s)).stream s).detached :=
  detached_drift (m := .elapse 0) (.foldl_reap rest (.reap (.refl _) s)) (detached_detachPump made)

include h g

/-- A stream whose close the abandoned call has not begun is destroyed as it is. -/
theorem detached_ahead (ha : s ∈ (w.phaseOf c).ahead) (frame : Frame {t} w v) (hne : s ≠ t)
    (hl : s ∈ rest) :
    ((rest.foldl System.reap ((v.setPhase c .abandoned).reap t)).stream s).detached := by
  have own : s ∈ w.kept (.call c) := Phase.closes_subset _ (Phase.ahead_subset _ ha)
  have there : c < w.calls.size := w.lt_of_phaseOf c fun hp => by simp [hp, Phase.ahead] at ha
  have unheld := (h.sealing g (Phase.ahead_subset _ ha)).unheld (g.custody.unnamed own) there frame
  have drift : Drift (.elapse 0) (v.setPhase c .abandoned) ((v.setPhase c .abandoned).reap t) :=
    .reap (.refl _) t
  refine detached_foldl_reap hl ?_ ?_
  · rw [drift.frame.isHeld, unheld]
  · rw [drift.frame.lifecycle s (Set.notMem_empty s), stream_setPhase, frame.lifecycle s hne,
      h.ahead ha]

include wired

/-- When a call is abandoned with streams to close, the pump of each is left to itself, but for one whose
shutdown has begun. -/
theorem abandon_closes (hs : s ∈ (w.phaseOf c).deserts) :
    (s ∈ (w.phaseOf c).loses → ((w.step (.abandon c)).stream s).detached) ∧
    (s ∉ (w.phaseOf c).loses → ∃ n, (w.stream s).pump.connection? = some n ∧ w.shutdownsOf n = 1) := by
  have closes := Phase.deserts_subset _ hs
  have own : s ∈ w.kept (.call c) := Phase.closes_subset _ closes
  have made : s < w.streams.size := g.custody.made own
  have nodup : (w.phaseOf c).owns.Nodup := g.custody.nodup (.call c)
  have manned : ∀ {x}, (w.phaseOf c).job? = some (s, .close x) → w.Manned s (.close x) :=
    fun job => wired.manned (c := c) job
  have suspended : (w.phaseOf c).isSuspended := by
    by_contra hn
    simp [Phase.deserts, hn] at hs
  simp only [step, abandon, suspended, Bool.not_true, Bool.false_eq_true, if_false]
  cases hp : w.phaseOf c with
  | tearing t stage =>
    rw [hp] at closes suspended manned
    obtain rfl : s = t := List.mem_singleton.1 closes
    cases stage with
    | none => cases suspended
    | some stage =>
      cases stage with
      | joining =>
        exact ⟨fun _ => detached_joining made [], fun hn => absurd (List.mem_singleton_self s) hn⟩
      | shutting due => exact ⟨by rintro ⟨⟩, fun _ => wired.shut_of_manned (manned rfl)⟩
  | sweeping current rest n =>
    rw [hp] at closes suspended manned nodup
    rcases current with - | ⟨t, stage⟩
    · cases suspended
    · have frame := (w.work_abandonClose c t stage).frame
      have later : s ∈ rest → ((rest.foldl System.reap
          (((w.abandonClose t stage).setPhase c .abandoned).reap t)).stream s).detached := fun hr =>
        detached_ahead h g (by rw [hp]; exact hr) frame
          (fun he => (List.nodup_cons.1 nodup).1 (he ▸ hr)) hr
      rcases List.mem_cons.1 closes with rfl | hr
      · cases stage with
        | joining => exact ⟨fun _ => detached_joining made rest, fun hn => absurd List.mem_cons_self hn⟩
        | shutting due => exact ⟨later, fun _ => wired.shut_of_manned (manned rfl)⟩
      · cases stage with
        | joining => exact ⟨fun _ => later hr, fun hn => absurd (List.mem_cons_of_mem t hr) hn⟩
        | shutting due => exact ⟨fun _ => later hr, fun hn => absurd hr hn⟩
  | _ => simp [hp, Phase.closes] at closes

end Abandon

/-! ### What becomes of a stream that was listed -/

/-- The streams that lose their connection in a run, as calls that are to close them are abandoned. -/
def lost (w : System) (moves : List Move) : List StreamId :=
  w.leftBehind (fun w c => (w.phaseOf c).loses) moves

/-- The connection of the stream has been shut down once, or was lost when a read killed the pump. -/
def IsDone (w : System) (s : StreamId) : Prop :=
  ∃ n, (w.stream s).pump.connection? = some n ∧
    (w.shutdownsOf n = 1 ∨ ∃ message, (w.stream s).pump = .crashed n message)

/-- The stream is off the lists for good, and no call has it to close. -/
structure Gone (w : System) (s : StreamId) : Prop where
  spent : w.Spent s
  left : ∀ c, s ∉ (w.phaseOf c).closes

/-- A stream that was in the care of a broker is so still, or is done with, unless it is among those that
lost their connection. -/
inductive Accounted (w : System) (b : BrokerId) (s : StreamId) (lost : List StreamId) : Prop where
  | kept (care : w.InCare b s) (spared : s ∉ lost)
  | done (gone : w.Gone s) (spared : s ∉ lost) (done : w.IsDone s)
  | lost (gone : w.Gone s) (among : s ∈ lost) (detached : (w.stream s).detached)

theorem mem_leaves {f : CallId → List StreamId} :
    s ∈ m.leaves f ↔ ∃ c, m = .abandon c ∧ s ∈ f c := by
  cases m <;> simp [Move.leaves]

theorem IsDone.step (h : w.IsDone s) (made : s < w.streams.size) (wired : w.Wired w.jobs) (m : Move) :
    (w.step m).IsDone s := by
  have ages := wired.ages_step m
  obtain ⟨n, connection, shut | ⟨message, crashed⟩⟩ := h
  · refine ⟨n, (ages.streams s made).connection n connection, .inl ?_⟩
    exact Nat.le_antisymm ((wired.step m).shutdowns_le n) (shut ▸ ages.shutdowns n)
  · exact ⟨n, (ages.streams s made).connection n connection, .inr ⟨message,
      (ages.streams s made).crashed n message crashed⟩⟩

/-- A stream that is closed with a connection is done with. -/
theorem Wired.done_of_closed (wired : w.Wired w.jobs) (closed : (w.stream s).lifecycle = .closed)
    (connection : (w.stream s).pump.connection? = some n) : w.IsDone s := by
  refine ⟨n, connection, ?_⟩
  have fit := wired.fit s
  cases hp : (w.stream s).pump with
  | crashed k message =>
    rw [hp] at connection
    obtain rfl : k = n := Option.some.inj connection
    exact .inr ⟨message, rfl⟩
  | collected k =>
    rw [hp] at connection
    obtain rfl : k = n := Option.some.inj connection
    exact .inl (wired.shut_of_closed closed hp)
  | idle =>
    rw [hp] at connection
    cases connection
  | reading k | stopped k => simp [Stream.IsFit, closed, hp] at fit

/-- What is lost was deserted. -/
theorem deserted_of_lost {moves : List Move} (hs : s ∈ w.lost moves) :
    ∃ b, s ∈ w.deserted b moves := by
  induction moves generalizing w with
  | nil => cases hs
  | cons m moves ih =>
    rcases List.mem_append.1 hs with hs | hs
    · obtain ⟨c, rfl, hc⟩ := mem_leaves.1 hs
      refine ⟨w.brokerOf c, List.mem_append_left _ ?_⟩
      rw [Move.leaves, desertsOn, if_pos rfl]
      exact Phase.loses_subset _ hc
    · obtain ⟨b, hb⟩ := ih hs
      exact ⟨b, List.mem_append_right _ hb⟩

section Account

variable (h : w.Poised) (g : w.Sound) (l : w.Ledger) (wired : w.Wired w.jobs)

include g l

theorem Sealed.gone (sealing : w.Sealed c s) (left : s ∉ ((w.step m).phaseOf c).closes) :
    (w.step m).Gone s := by
  have sealing' := sealing.step l g m
  refine ⟨sealing'.spent, fun d hd => left ?_⟩
  have held := Phase.owns_subset _ (Phase.closes_subset _ hd)
  exact sealing'.alone d held ▸ hd

include h wired

theorem Gone.step (gone : w.Gone s) (m : Move) : (w.step m).Gone s := by
  refine ⟨(gone.spent.step l g m).1, fun c hc => ?_⟩
  rcases (step_handover h g wired m).closes hc with hc | ⟨-, k, hl⟩
  · exact gone.left c hc
  · exact gone.spent.unlisted _ k hl

/-- A stream that a move takes out of care is done with, or lost. -/
theorem accounted_of_care (care : w.InCare b s) (m : Move) :
    (w.step m).Accounted b s (m.leaves fun c => (w.phaseOf c).loses) := by
  have mine : ∀ {c}, s ∈ (w.phaseOf c).closes → w.brokerOf c = b := fun hc =>
    g.custody.inCare_unique (.inr ⟨_, rfl, hc⟩) care
  have spared : s ∉ m.leaves (w.desertsOn b) → s ∉ m.leaves fun c => (w.phaseOf c).loses := by
    intro hn hs
    obtain ⟨c, hm, hc⟩ := mem_leaves.1 hs
    have deserts := Phase.loses_subset _ hc
    refine hn (mem_leaves.2 ⟨c, hm, ?_⟩)
    rw [desertsOn, if_pos (mine (Phase.deserts_subset _ deserts))]
    exact deserts
  have made : ∀ {c}, s ∈ (w.phaseOf c).closes → s < w.streams.size := fun {c} hc =>
    g.custody.made (o := .call c) (Phase.closes_subset _ hc)
  cases step_turnover h g wired m b with
  | keeps nodup within care' =>
    by_cases hs : s ∈ m.leaves (w.desertsOn b)
    · obtain ⟨c, rfl, hc⟩ := mem_leaves.1 hs
      rw [desertsOn] at hc
      split at hc
      swap
      · cases hc
      rename_i hb
      have closes := Phase.deserts_subset _ hc
      have gone : (w.step (.abandon c)).Gone s := by
        refine (h.sealing g closes).gone g l fun hn => ?_
        exact ((care' s).1 (.inr ⟨c, (brokerOf_step hn).trans hb, hn⟩)).2 hs
      obtain ⟨loses, keeps⟩ := abandon_closes h g wired hc
      by_cases hl : s ∈ (w.phaseOf c).loses
      · exact .lost gone hl (loses hl)
      · obtain ⟨n, connection, shut⟩ := keeps hl
        have done : w.IsDone s := ⟨n, connection, .inl shut⟩
        exact .done gone hl (done.step (made closes) wired _)
    · exact .kept ((care' s).2 ⟨care, hs⟩) (spared hs)
  | gains none new care' => exact .kept ((care' s).2 (.inl care)) (spared (by simp [none]))
  | @loses c t none old closes care' closed =>
    by_cases hs : s = t
    · subst hs
      have gone : (w.step m).Gone s := by
        refine (h.sealing g closes).gone g l fun hn => ?_
        exact ((care' s).1 (.inr ⟨c, (brokerOf_step hn).trans (mine closes), hn⟩)).2 rfl
      obtain ⟨n, connection⟩ := (wired.fit s).connection (wired.up_of_closes h.ahead closes)
      have connection' := ((wired.ages_step m).streams s (made closes)).connection n connection
      exact .done gone (spared (by simp [none])) ((wired.step m).done_of_closed closed connection')
    · exact .kept ((care' s).2 ⟨care, hs⟩) (spared (by simp [none]))

theorem Accounted.step {before : List StreamId} (accounted : w.Accounted b s before) (m : Move) :
    (w.step m).Accounted b s (before ++ m.leaves fun c => (w.phaseOf c).loses) := by
  have unlost : w.Gone s → s ∉ m.leaves fun c => (w.phaseOf c).loses := by
    intro gone hs
    obtain ⟨c, -, hc⟩ := mem_leaves.1 hs
    exact gone.left c (Phase.deserts_subset _ (Phase.loses_subset _ hc))
  cases accounted with
  | kept care spared =>
    cases accounted_of_care h g l wired care m with
    | kept care' spared' => exact .kept care' (by simp [spared, spared'])
    | done gone spared' done => exact .done gone (by simp [spared, spared']) done
    | lost gone among detached => exact .lost gone (List.mem_append_right _ among) detached
  | done gone spared done =>
    exact .done (gone.step h g l wired m) (by simp [spared, unlost gone])
      (done.step (gone.spent.made l) wired m)
  | lost gone among detached =>
    exact .lost (gone.step h g l wired m) (List.mem_append_left _ among)
      (((wired.ages_step m).streams s (gone.spent.made l)).detached detached)

theorem Accounted.run {before : List StreamId} (accounted : w.Accounted b s before)
    (moves : List Move) : (w.run moves).Accounted b s (before ++ w.lost moves) := by
  induction moves generalizing w before with
  | nil =>
    rw [show w.lost [] = [] from rfl, List.append_nil]
    exact accounted
  | cons m moves ih =>
    have later := ih (h.step g l wired m) (g.step m) (l.step g m) (wired.step m)
      (accounted.step h g l wired m)
    rw [List.append_assoc] at later
    exact later

/-- A stream that has lost its connection in a run is off the lists. -/
theorem spent_of_lost {moves : List Move} (hs : s ∈ w.lost moves) : (w.run moves).Spent s := by
  induction moves generalizing w with
  | nil => cases hs
  | cons m moves ih =>
    rcases List.mem_append.1 hs with hs | hs
    · obtain ⟨c, -, hc⟩ := mem_leaves.1 hs
      have closes := Phase.deserts_subset _ (Phase.loses_subset _ hc)
      have spent := ((h.sealing g closes).step l g m).spent
      exact (spent.run (l.step g m) (g.step m) moves).1
    · exact ih (h.step g l wired m) (g.step m) (l.step g m) (wired.step m) hs

end Account

/-! ### Every run -/

/-- In a settled state the connection of a stream whose pump was left to itself is lost. -/
theorem Wired.lost_of_detached (wired : w.Wired w.jobs) (settled : w.isSettled)
    (detached : (w.stream s).detached) : ∃ n, (w.stream s).pump.connection? = some n ∧
      w.shutdownsOf n = 0 ∧ w.dropsOf n = 1 := by
  have fit := wired.fit s
  obtain ⟨n, link⟩ : ∃ n, (w.stream s).link? = some (n, .dropped) := by
    cases hp : (w.stream s).pump with
    | reading n =>
      have running := running_of_settled settled (by rw [hp]; rfl)
      cases hl : (w.stream s).lifecycle <;> simp [Stream.IsFit, hp, hl, running, detached] at fit
    | idle | stopped n => cases hl : (w.stream s).lifecycle <;> simp [Stream.IsFit, hp, hl, detached] at fit
    | crashed n message => exact ⟨n, by simp [Stream.link?, hp]⟩
    | collected n => exact ⟨n, by simp [Stream.link?, hp, detached]⟩
  obtain ⟨x, hx, -, state⟩ := wired.linked link
  have seen := wired.seen n
  rw [hx, Option.elim_some, state] at seen
  refine ⟨n, ?_, seen⟩
  cases hp : (w.stream s).pump <;> simp_all [Stream.link?, Pump.connection?]

theorem streamCount_eq_length (w : System) (b : BrokerId) :
    w.streamCount b = (w.listed b).length := by
  rw [streamCount, listed, List.length_flatMap, List.sum_eq_foldl_nat]

/-- In a settled state with no call pending, what a broker counts as open is what it lists, and what was
deserted. -/
theorem Balanced.openStreams {left n : Nat} (h : w.Balanced b left n) (g : w.Sound)
    (ended : ∀ c, (w.phaseOf c).isOver) (small : n < 2 ^ 64) :
    (w.countersOf b).openStreams.toNat = w.streamCount b + left := by
  obtain ⟨care, opens, closes, mem, flow, sum, le⟩ := h
  obtain ⟨ho, hc⟩ := Prod.mk.inj flow
  have card : care.card = w.streamCount b := by
    have same : care = (w.listed b).toFinset := by
      ext s
      rw [mem, List.mem_toFinset, mem_listed]
      refine or_iff_left ?_
      rintro ⟨c, -, hs⟩
      rw [Phase.closes_of_isOver (ended c)] at hs
      cases hs
    rw [same, List.toFinset_card_of_nodup (g.custody.nodup_listed b), streamCount_eq_length]
  have opens' : (UInt64.ofNat opens).toNat = opens := UInt64.toNat_ofNat_of_lt' (le.trans_lt small)
  have closes' : (UInt64.ofNat closes).toNat = closes :=
    UInt64.toNat_ofNat_of_lt' (Nat.lt_of_le_of_lt (by omega) small)
  have order : UInt64.ofNat closes ≤ UInt64.ofNat opens := by
    rw [UInt64.le_iff_toNat_le, opens', closes']
    omega
  rw [Counters.openStreams, ho, hc, if_pos order, UInt64.toNat_sub_of_le _ _ order, opens', closes']
  omega

/-- In every run that comes to a settled state with no call pending, a stream that a broker has listed and
lists no more has had its connection shut down once, unless a read had killed its pump; but where the
release or the sweep that was to close it was abandoned before the shutdown had begun, the connection was
lost, without a shutdown. What is lost in this way was deserted by an abandoned call, and what a broker
counts as open, while fewer than 2⁶⁴ moves were made, is what it lists and what was deserted. So every
teardown runs to its end, and nothing else is counted as open, as long as no call is abandoned in the
course of one. -/
theorem torn_down_unless_deserted (configs : List BrokerConfig) (desk : AccessDesk)
    (terms : List TunerTerms) (moves : List Move) :
    let w₀ := fresh configs desk terms
    let w := w₀.run moves
    w.isSettled → (∀ c, (w.phaseOf c).isOver) →
    (∀ before after b s, moves = before ++ after → s ∈ (w₀.run before).listed b → s ∉ w.listed b →
      ∃ n, (w.stream s).pump.connection? = some n ∧
        (s ∉ w₀.lost moves →
          w.shutdownsOf n = 1 ∨ ∃ message, (w.stream s).pump = .crashed n message) ∧
        (s ∈ w₀.lost moves → w.shutdownsOf n = 0 ∧ w.dropsOf n = 1)) ∧
    (∀ s ∈ w₀.lost moves, ∃ b, s ∈ w₀.deserted b moves) ∧
    (moves.length < 2 ^ 64 → ∀ b,
      (w.countersOf b).openStreams.toNat = w.streamCount b + (w₀.deserted b moves).length) := by
  intro w₀ w settled ended
  have g₀ := sound_fresh configs desk terms
  have l₀ := ledger_fresh configs desk terms
  have wired₀ := wired_fresh configs desk terms
  have h₀ := poised_fresh configs desk terms
  refine ⟨?_, ?_, ?_⟩
  · rintro before after b s rfl listed unlisted
    have g := g₀.run before
    have l := l₀.run g₀ before
    have h := h₀.run g₀ l₀ wired₀ before
    obtain ⟨k, hl⟩ := (mem_listed _ _ _).1 listed
    have lost : s ∈ w₀.lost (before ++ after) ↔ s ∈ (w₀.run before).lost after := by
      rw [System.lost, leftBehind_append, List.mem_append]
      refine or_iff_right fun hs => ?_
      exact (spent_of_lost h₀ g₀ l₀ wired₀ hs).unlisted b k hl
    have kept : (w₀.run before).Accounted b s [] := .kept (.inl ⟨k, hl⟩) List.not_mem_nil
    have accounted := Accounted.run h g l (wired₀.run before) kept after
    rw [List.nil_append, ← run_append] at accounted
    rw [lost]
    cases accounted with
    | kept care spared =>
      rcases care with ⟨k', hs⟩ | ⟨c, -, hs⟩
      · exact absurd ((mem_listed _ _ _).2 ⟨k', hs⟩) unlisted
      · rw [Phase.closes_of_isOver (ended c)] at hs
        cases hs
    | done gone spared done =>
      obtain ⟨n, connection, done⟩ := done
      exact ⟨n, connection, fun _ => done, fun hs => absurd hs spared⟩
    | lost gone among detached =>
      obtain ⟨n, connection, dropped⟩ := (wired₀.run _).lost_of_detached settled detached
      exact ⟨n, connection, fun hs => absurd among hs, fun _ => dropped⟩
  · exact fun s hs => deserted_of_lost hs
  · intro small b
    have balanced := (balanced_fresh configs desk terms b).run h₀ g₀ l₀ wired₀ moves
    rw [Nat.zero_add, Nat.zero_add] at balanced
    exact balanced.openStreams (g₀.run moves) ended small

/-- The sample source ends and another stream replaces it; then a sweep of both is abandoned while the
shutdown of the newer one takes its time. -/
def sweepIsAbandoned : List Move :=
  oneComes ++ [.deliver 0 .finish, .start 0 false sampleErrand, .turn (.call 1), .turn (.call 1),
    .turn (.call 1), .start 0 false .sweep, .turn (.call 2), .turn (.call 2), .turn (.pump 1),
    .turn (.call 2), .abandon 2]

/-- The tuner takes its time to shut the second connection down. -/
def slowToShut : List TunerTerms := [{}, { shutdownDelay := 10 }]

/-- A connection is leaked: the state is settled and no call pending, the first stream was listed and is
not, no shutdown of its connection has begun though its pump has not died, and the broker counts two
streams as open where it lists none. -/
theorem connection_deserted :
    ((fresh [{}] {} slowToShut).run sweepIsAbandoned).isSettled ∧
    (∀ c, (((fresh [{}] {} slowToShut).run sweepIsAbandoned).phaseOf c).isOver) ∧
    0 ∈ ((fresh [{}] {} slowToShut).run oneComes).listed 0 ∧
    (((fresh [{}] {} slowToShut).run sweepIsAbandoned).stream 0).pump = .collected 0 ∧
    ((fresh [{}] {} slowToShut).run sweepIsAbandoned).shutdownsOf 0 = 0 ∧
    (((fresh [{}] {} slowToShut).run sweepIsAbandoned).countersOf 0).openStreams = 2 ∧
    ((fresh [{}] {} slowToShut).run sweepIsAbandoned).streamCount 0 = 0 := by
  refine ⟨by decide, fun c => ?_, by decide, rfl, by decide, by decide, by decide⟩
  match c with
  | 0 | 1 | 2 => rfl
  | n + 3 => rfl

theorem torn_down_unless_deserted_sweepIsAbandoned :
    (fresh [{}] {} slowToShut).lost sweepIsAbandoned = [0] ∧
    (fresh [{}] {} slowToShut).deserted 0 sweepIsAbandoned = [1, 0] ∧
    ((fresh [{}] {} slowToShut).run sweepIsAbandoned).dropsOf 0 = 1 ∧
    ((fresh [{}] {} slowToShut).run sweepIsAbandoned).shutdownsOf 1 = 1 ∧
    (((fresh [{}] {} slowToShut).run sweepIsAbandoned).countersOf 0).openStreams.toNat =
      ((fresh [{}] {} slowToShut).run sweepIsAbandoned).streamCount 0 + 2 := by
  have ended : ∀ c, (((fresh [{}] {} slowToShut).run sweepIsAbandoned).phaseOf c).isOver := fun c =>
    match c with
    | 0 | 1 | 2 => rfl
    | _ + 3 => rfl
  obtain ⟨torn, -, counted⟩ :=
    torn_down_unless_deserted [{}] {} slowToShut sweepIsAbandoned (by decide) ended
  obtain ⟨n, connection, -, lost⟩ := torn oneComes _ 0 0 rfl (by decide) (by decide)
  obtain ⟨n', connection', done, -⟩ := torn (sweepIsAbandoned.take 9) _ 0 1 rfl (by decide) (by decide)
  obtain rfl : 0 = n := Option.some.inj connection
  obtain rfl : 1 = n' := Option.some.inj connection'
  refine ⟨rfl, rfl, (lost (by decide)).2, (done (by decide)).resolve_right ?_, counted (by decide) 0⟩
  rintro ⟨message, crashed⟩
  cases crashed

end System

end TunerBroker
