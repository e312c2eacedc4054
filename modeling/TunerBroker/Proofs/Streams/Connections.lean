import TunerBroker.Proofs.Consumers.Discharge
import TunerBroker.Proofs.Invariants.TidyRuns

/-! No connection leaks, and none is shut down twice. In an orderly run every connection that the tuner
has given is with a listed stream, with a stream that one release or sweep has to close, or shut down;
and when all consumers are done with and no call is under way, nothing is listed and every connection
has been shut down once. -/

namespace TunerBroker

namespace System

variable {w : System} {J : CallId → Option (StreamId × Job)} {b : BrokerId} {c : CallId}
  {s : StreamId} {n : ConnectionId} {x : Connection} {moves : List Move}

/-- The stream of the connection is listed. -/
def IsListed (w : System) (n : ConnectionId) : Prop :=
  ∃ b k s, s ∈ w.listedAt b k ∧ (w.stream s).pump.connection? = some n

/-- The call took the stream of the connection off the list, and has to close it. -/
def IsClosedBy (w : System) (n : ConnectionId) (c : CallId) : Prop :=
  ∃ s ∈ (w.phaseOf c).closes, (w.stream s).pump.connection? = some n

/-- Connections that the tuner has given. -/
def established (w : System) : Nat := w.connections.entries.countP (·.state.isEstablished)

/-! ### One connection -/

/-- A stream has the connection that is its own. -/
theorem Wired.stream_eq (h : w.Wired J) (hx : w.connections.get? n = some x)
    (hs : (w.stream s).pump.connection? = some n) : x.stream = s := by
  obtain ⟨y, hy, place⟩ := h.exists_connection hs
  obtain rfl : x = y := Option.some.inj (hx.symm.trans hy)
  exact place

theorem Wired.connection_eq (h : w.Wired J) (hx : w.connections.get? n = some x)
    (he : x.state.isEstablished) : (w.stream x.stream).pump.connection? = some n := by
  have link := h.pumped hx he
  cases hp : (w.stream x.stream).pump <;> simp_all [Pump.connection?, Stream.link?]

theorem Wired.isListed_iff (h : w.Wired J) (hx : w.connections.get? n = some x)
    (he : x.state.isEstablished) : w.IsListed n ↔ ∃ b k, x.stream ∈ w.listedAt b k := by
  constructor
  · rintro ⟨b, k, s, hs, hn⟩
    exact ⟨b, k, h.stream_eq hx hn ▸ hs⟩
  · rintro ⟨b, k, hs⟩
    exact ⟨b, k, _, hs, h.connection_eq hx he⟩

theorem Wired.isClosedBy_iff (h : w.Wired J) (hx : w.connections.get? n = some x)
    (he : x.state.isEstablished) : w.IsClosedBy n c ↔ x.stream ∈ (w.phaseOf c).closes := by
  constructor
  · rintro ⟨s, hs, hn⟩
    exact h.stream_eq hx hn ▸ hs
  · intro hs
    exact ⟨_, hs, h.connection_eq hx he⟩

namespace Tidy

variable (h : w.Tidy) (wired : w.Wired w.jobs)

include h wired

/-- A stream that has to be closed has its connection still. -/
theorem up_of_closes (hs : s ∈ (w.phaseOf c).closes) : (w.stream s).IsUp :=
  wired.up_of_closes h.ahead hs

/-- A connection stands as its stream does. -/
theorem state_cases (hx : w.connections.get? n = some x) (he : x.state.isEstablished) :
    x.state = .live ∧ (w.stream x.stream).IsUp ∨
      x.state = .shutting ∧ (w.stream x.stream).lifecycle = .closing ∨
      x.state = .shut ∧ (w.stream x.stream).lifecycle = .closed := by
  have link := wired.pumped hx he
  have fit := wired.fit x.stream
  obtain ⟨whole, alive⟩ := h.intact x.stream
  have state : ∀ k l, (w.stream x.stream).link? = some (k, l) → x.state = l := by
    intro k l hk
    exact (Prod.mk.inj (Option.some.inj (link.symm.trans hk))).2
  cases hp : (w.stream x.stream).pump with
  | idle => simp [Stream.link?, hp] at link
  | reading k | stopped k =>
    refine .inl ⟨state k .live (by simp [Stream.link?, hp]), ?_⟩
    cases hl : (w.stream x.stream).lifecycle <;> simp_all [Stream.IsFit, Stream.IsUp]
  | crashed k message => exact absurd hp (alive k message)
  | collected k =>
    cases hl : (w.stream x.stream).lifecycle with
    | closing => exact .inr (.inl ⟨state k .shutting (by simp [Stream.link?, hp, hl, whole]), rfl⟩)
    | closed => exact .inr (.inr ⟨state k .shut (by simp [Stream.link?, hp, hl, whole]), rfl⟩)
    | _ => simp [Stream.IsFit, hp, hl, whole] at fit

/-- A connection is with a listed stream, with one that a call has to close, or shut down. -/
theorem stands (g : w.Sound) (hx : w.connections.get? n = some x) (he : x.state.isEstablished) :
    (w.IsListed n ∧ (∀ c, ¬ w.IsClosedBy n c) ∧ x.state = .live) ∨
    (¬ w.IsListed n ∧ (∃! c, w.IsClosedBy n c) ∧ (x.state = .live ∨ x.state = .shutting)) ∨
    (¬ w.IsListed n ∧ (∀ c, ¬ w.IsClosedBy n c) ∧ x.state = .shut) := by
  simp only [wired.isListed_iff hx he, wired.isClosedBy_iff hx he]
  have up : (w.stream x.stream).IsUp →
      (∃ b k, x.stream ∈ w.listedAt b k) ∧ (∀ c, x.stream ∉ (w.phaseOf c).closes) ∨
        ¬ (∃ b k, x.stream ∈ w.listedAt b k) ∧ ∃! c, x.stream ∈ (w.phaseOf c).closes := by
    intro up
    rcases h.placed up with ⟨b, k, hl⟩ | ⟨c, hc⟩
    · refine .inl ⟨⟨b, k, hl⟩, fun c hc => ?_⟩
      cases g.custody.unique (o := .call c) (Phase.closes_subset _ hc) (q := .slot b k) hl
    · refine .inr ⟨?_, c, hc, fun c' hc' => ?_⟩
      · rintro ⟨b, k, hl⟩
        cases g.custody.unique (o := .call c) (Phase.closes_subset _ hc) (q := .slot b k) hl
      · exact Keeper.call.inj (g.custody.unique (o := .call c') (Phase.closes_subset _ hc')
          (q := .call c) (Phase.closes_subset _ hc))
  have connected : ∀ b k, x.stream ∈ w.listedAt b k → (w.stream x.stream).lifecycle = .connected :=
    fun b k hl => ((g.flight.order b k).connected _ hl).1
  rcases h.state_cases wired hx he with ⟨state, hu⟩ | ⟨state, hl⟩ | ⟨state, hl⟩
  · rcases up hu with ⟨listed, hc⟩ | ⟨hn, hc⟩
    · exact .inl ⟨listed, hc, state⟩
    · exact .inr (.inl ⟨hn, hc, .inl state⟩)
  · rcases up (.inr hl) with ⟨⟨b, k, hs⟩, -⟩ | ⟨hn, hc⟩
    · simp [connected b k hs] at hl
    · exact .inr (.inl ⟨hn, hc, .inr state⟩)
  · refine .inr (.inr ⟨?_, fun c hc => ?_, state⟩)
    · rintro ⟨b, k, hs⟩
      simp [connected b k hs] at hl
    · rcases h.up_of_closes wired hc with hu | hu <;> simp [hl] at hu

/-- What the tuner saw of a connection. -/
theorem sightings (n : ConnectionId) : w.shutdownsOf n ≤ 1 ∧ w.dropsOf n = 0 := by
  have seen := wired.seen n
  rw [Seen] at seen
  rw [seen.1, seen.2]
  cases hx : w.connections.get? n with
  | none => exact ⟨Nat.zero_le 1, rfl⟩
  | some x =>
    rw [Option.elim_some]
    by_cases he : x.state.isEstablished
    · rcases h.state_cases wired hx he with ⟨hs, -⟩ | ⟨hs, -⟩ | ⟨hs, -⟩ <;> rw [hs] <;> decide
    · cases hs : x.state <;> simp_all [LinkState.isEstablished, LinkState.shutdowns, LinkState.drops]

end Tidy

/-! ### All connections -/

open scoped List in
/-- Shutdowns are as many as connections if each connection was shut down once. -/
theorem shutdowns_eq (wired : w.Wired J)
    (once : ∀ n x, w.connections.get? n = some x → x.state.isEstablished → w.shutdownsOf n = 1) :
    w.shutdowns = w.established := by
  have seen : ∀ n, w.shutdownsOf n =
      if (w.connections.get? n).any (·.state.isEstablished) then 1 else 0 := by
    intro n
    cases hx : w.connections.get? n with
    | none =>
      have := (wired.seen n).1
      simpa [hx, LinkState.shutdowns] using this
    | some x =>
      by_cases he : x.state.isEstablished
      · simp [he, once n x hx he]
      · have := (wired.seen n).1
        rw [hx] at this
        cases hs : x.state <;> simp_all [LinkState.isEstablished, LinkState.shutdowns]
  have perm : w.sightings.filterMap (·.shuts?) ~ (List.range w.connections.size).filter fun n =>
      (w.connections.get? n).any (·.state.isEstablished) := by
    refine List.perm_iff_count.2 fun n => ?_
    have count : (w.sightings.filterMap (·.shuts?)).count n = w.shutdownsOf n := by
      rw [List.count_filterMap, shutdownsOf]
      exact List.countP_congr fun e _ => by simp
    rw [count, seen, ((List.nodup_range).filter _).count]
    refine if_congr ?_ rfl rfl
    rw [List.mem_filter, List.mem_range]
    refine ⟨fun he => ⟨?_, he⟩, fun he => he.2⟩
    cases hx : w.connections.get? n with
    | none => simp [hx] at he
    | some x => exact Table.lt_size_of_get? hx
  have shut : w.shutdowns = (w.sightings.filterMap (·.shuts?)).length := by
    rw [List.length_filterMap_eq_countP, shutdowns]
    exact List.countP_congr fun e _ => by cases e <;> simp [TunerEvent.shuts?]
  rw [shut, perm.length_eq, ← List.countP_eq_length_filter, established]
  exact countP_range_getElem? _ _

/-- After the run no call on the broker is under way, and its consumers are all done with. -/
def IsVacated (w : System) (moves : List Move) (b : BrokerId) : Prop :=
  (∀ c, (w.run moves).brokerOf c = b → ((w.run moves).phaseOf c).isOver) ∧
    ∀ i x, (w.run moves).consumers.get? i = some x → x.broker = b → w.IsDischarged moves i

/-- A broker whose consumers are all done with lists nothing. -/
theorem IsVacated.unlisted (h : w.IsVacated moves b) (l : w.Ledger) (g : w.Sound)
    (bound : ∀ s, (w.run moves).attachments s < 2 ^ 32) (k : SourceKey) :
    (w.run moves).listedAt b k = [] := by
  refine List.eq_nil_iff_forall_not_mem.2 fun s hs => ?_
  have l' := l.run g moves
  obtain ⟨x, hx, hp⟩ := List.countP_pos_iff.1 (l'.counted hs).some
  obtain ⟨i, hi⟩ := (Table.mem_entries_iff _ _).1 hx
  obtain ⟨rfl, unreleased⟩ := of_decide_eq_true hp
  obtain ⟨y, hy, released | gone⟩ := (h.2 i x hi (l'.home hi hs)).done l g bound
  all_goals obtain rfl : x = y := Option.some.inj (hi.symm.trans hy)
  · exact unreleased released
  · exact gone b k hs

/-- Connections of a broker that is vacated have been shut down. -/
theorem Tidy.shut_of_vacated {i : ConsumerId} {y : Consumer} (h : w.Tidy) (g : w.Sound) (l : w.Ledger)
    (tended : w.Tended) (wired : w.Wired w.jobs) (unlisted : ∀ k, w.listedAt b k = [])
    (past : ∀ c, w.brokerOf c = b → (w.phaseOf c).isOver) (hx : w.connections.get? n = some x)
    (he : x.state.isEstablished) (hy : w.consumers.get? i = some y) (place : y.stream = x.stream)
    (hb : y.broker = b) : x.state = .shut := by
  rcases h.stands wired g hx he with ⟨listed, -⟩ | ⟨-, ⟨c, closed, -⟩, -⟩ | ⟨-, -, hs⟩
  · obtain ⟨b', k, hs⟩ := (wired.isListed_iff hx he).1 listed
    obtain rfl : b = b' := hb.symm.trans (l.home hy (place ▸ hs))
    simp [unlisted k] at hs
  · have hs := (wired.isClosedBy_iff hx he).1 closed
    have broker := tended.broker (c := c) (place ▸ Phase.closes_subset _ hs) hy
    rw [Phase.closes_of_isOver (past c (broker.symm.trans hb))] at hs
    cases hs
  · exact hs

/-- In every orderly run, at every moment: a connection that the tuner has given is with a listed
stream, or with a stream that one release or sweep took off the list and has to close, or has been shut
down, and only one of these; its shutdown is begun once at most, and it is not lost. A close made by a
release or a sweep comes to no breach. And as long as fewer than 2³² consumers are attached to each
stream, once the consumers of a broker have been released to it or their streams swept and no call on it
is under way, it keeps no slot and its connections have been shut down once each; once that is so for
every broker, shutdowns are as many as connections. -/
theorem no_connection_leaks (configs : List BrokerConfig) (desk : AccessDesk) (terms : List TunerTerms)
    (moves : List Move) :
    let w₀ := fresh configs desk terms
    let w := w₀.run moves
    w₀.RunsOrderly moves →
      (∀ n x, w.connections.get? n = some x → x.state.isEstablished →
        (w.IsListed n ∧ (∀ c, ¬ w.IsClosedBy n c) ∧ x.state = .live) ∨
        (¬ w.IsListed n ∧ (∃! c, w.IsClosedBy n c) ∧ (x.state = .live ∨ x.state = .shutting)) ∨
        (¬ w.IsListed n ∧ (∀ c, ¬ w.IsClosedBy n c) ∧ x.state = .shut)) ∧
      (∀ n, w.shutdownsOf n ≤ 1 ∧ w.dropsOf n = 0) ∧
      (∀ c s stage e, (w.phaseOf c).closing? = some (s, stage) →
        (w.turnClose c s stage).2 = .finished (.error e) → e.isViolation = false) ∧
      ((∀ s, w.attachments s < 2 ^ 32) →
        (∀ b, w₀.IsVacated moves b → (w.broker b).slots.pairs = [] ∧
          ∀ n x i y, w.connections.get? n = some x → x.state.isEstablished →
            w.consumers.get? i = some y → y.stream = x.stream → y.broker = b →
              x.state = .shut ∧ w.shutdownsOf n = 1) ∧
        ((∀ b, w₀.IsVacated moves b) → w.shutdowns = w.established)) := by
  intro w₀ w orderly
  have g₀ : w₀.Sound := sound_fresh configs desk terms
  have l₀ : w₀.Ledger := ledger_fresh configs desk terms
  have g : w.Sound := g₀.run moves
  have l : w.Ledger := l₀.run g₀ moves
  have wired : w.Wired w.jobs := (wired_fresh configs desk terms).run moves
  have tended : w.Tended := (tended_fresh configs desk terms).run g₀ l₀ moves
  have tidy : w.Tidy := (tidy_fresh configs desk terms).run g₀ (faithful_fresh configs desk terms)
    (wired_fresh configs desk terms) orderly
  -- What was seen of a connection that has been shut down is one shutdown.
  have once : ∀ n x, w.connections.get? n = some x → x.state = .shut → w.shutdownsOf n = 1 := by
    intro n x hx hs
    have seen := (wired.seen n).1
    rwa [hx, Option.elim_some, hs] at seen
  refine ⟨fun n x hx he => tidy.stands wired g hx he, tidy.sightings wired,
    fun c s stage e hc he => (tidy.closeTurn hc).unbreached e he, fun bound => ⟨fun b vacated => ?_,
      fun vacated => ?_⟩⟩
  · have unlisted := vacated.unlisted l₀ g₀ bound
    refine ⟨((trim_fresh configs desk terms).run moves).pairs_eq_nil g unlisted vacated.1,
      fun n x i y hx he hy place hb => ?_⟩
    have shut := tidy.shut_of_vacated g l tended wired unlisted vacated.1 hx he hy place hb
    exact ⟨shut, once n x hx shut⟩
  · refine shutdowns_eq wired fun n x hx he => once n x hx ?_
    rcases tidy.stands wired g hx he with ⟨⟨b, k, s, hs, -⟩, -⟩ | ⟨-, ⟨c, ⟨s, hs, -⟩, -⟩, -⟩ | ⟨-, -, hs⟩
    · rw [(vacated b).unlisted l₀ g₀ bound k] at hs
      cases hs
    · rw [Phase.closes_of_isOver ((vacated (w.brokerOf c)).1 c rfl)] at hs
      cases hs
    · exact hs

/-- A consumer comes and goes, and the stream that it was the last to leave is closed. -/
def oneComesAndGoes : List Move :=
  oneComes ++ [.start 0 false (.release 0), .turn (.call 1), .turn (.call 1), .turn (.pump 0),
    .turn (.call 1), .turn (.call 1)]

theorem no_connection_leaks_oneComesAndGoes :
    (fresh [{}] {} []).RunsOrderly oneComesAndGoes ∧
      (∀ b, (fresh [{}] {} []).IsVacated oneComesAndGoes b) ∧
      (∀ s, ((fresh [{}] {} []).run oneComesAndGoes).attachments s < 2 ^ 32) ∧
      (((fresh [{}] {} []).run oneComesAndGoes).broker 0).slots.pairs = [] ∧
      ((fresh [{}] {} []).run oneComesAndGoes).shutdowns =
        ((fresh [{}] {} []).run oneComesAndGoes).established ∧
      ((fresh [{}] {} []).run oneComesAndGoes).established = 1 := by
  have orderly : (fresh [{}] {} []).RunsOrderly oneComesAndGoes :=
    ⟨⟨sampleRequest, none, {}, rfl⟩, trivial, trivial, trivial, trivial, trivial, trivial, trivial,
      trivial, trivial, trivial⟩
  have bound : ∀ s, ((fresh [{}] {} []).run oneComesAndGoes).attachments s < 2 ^ 32 := fun s =>
    List.countP_le_length.trans_lt (by decide)
  have vacated : ∀ b, (fresh [{}] {} []).IsVacated oneComesAndGoes b := by
    refine fun b => ⟨fun c _ => ?_, fun i x hx _ => ?_⟩
    · rcases c with - | - | c
      · rfl
      · rfl
      · rw [phaseOf_of_size_le]
        · rfl
        · exact Nat.le_add_left 2 c
    · obtain rfl : i = 0 := Nat.lt_one_iff.1 (Table.lt_size_of_get? hx)
      exact ⟨oneComes ++ [.start 0 false (.release 0)], 1, _, rfl,
        ⟨0, 0, sampleRequest.key, .handedOver⟩, rfl, rfl, .inl rfl⟩
  obtain ⟨-, -, -, final⟩ := no_connection_leaks [{}] {} [] oneComesAndGoes orderly
  exact ⟨orderly, vacated, bound, ((final bound).1 0 (vacated 0)).1, (final bound).2 vacated,
    by decide⟩

end System

end TunerBroker
