import TunerBroker.Proofs.Closes.Teardown

/-! Streams handed on. A step hands a stream from an open to a list, from the lists to a call, or from a
call to its end, and that is when streams are counted as opened and as closed. A call that is abandoned
hands its streams to nobody. -/

namespace TunerBroker

/-- What is counted as opened, and what as closed. -/
def Counters.flow (x : Counters) : UInt64 × UInt64 := (x.opens, x.closes)

/-- The end of a close counts one stream as closed, as long as it is no breach. -/
theorem flow_closeTicks {result : Except StreamError Unit}
    (proper : ∀ e, result = .error e → e.isViolation = false) (x : Counters) :
    (x.recordAll (closeTicks result)).flow = (x.opens, x.closes + 1) := by
  cases result with
  | ok u => rfl
  | error e =>
    simp only [closeTicks, proper e rfl]
    rfl

namespace Phase

/-- The streams that a call leaves to nobody when it is abandoned here. -/
def deserts (p : Phase) : List StreamId := if p.isSuspended then p.closes else []

theorem deserts_eq_nil {p : Phase} (h : p.closes = []) : p.deserts = [] := by simp [deserts, h]

/-- A call begins the close of its streams one after another. -/
theorem subset_ahead {p : Phase} {s : StreamId} {rest : List StreamId} (h : p.closes = s :: rest) :
    rest ⊆ p.ahead := by
  cases p with
  | tearing t stage =>
    obtain ⟨-, rfl⟩ := List.cons.inj h
    exact List.nil_subset _
  | sweeping current left n =>
    cases current with
    | none =>
      obtain rfl : left = s :: rest := h
      exact List.subset_cons_self s rest
    | some current =>
      obtain ⟨-, rfl⟩ := List.cons.inj h
      exact List.Subset.refl _
  | _ => cases h

/-- A call that waits in a close has begun it. -/
theorem ahead_of_waits {w : System} {p : Phase} {s : StreamId} {rest : List StreamId}
    (waits : w.phaseReady p = false) (closes : p.closes = s :: rest) : p.ahead ⊆ rest := by
  cases p with
  | tearing t stage =>
    cases stage with
    | none => cases waits
    | some stage => exact List.nil_subset _
  | sweeping current left n =>
    cases current with
    | none => cases waits
    | some current =>
      obtain ⟨-, rfl⟩ := List.cons.inj closes
      exact List.Subset.refl _
  | _ => cases closes

theorem ahead_eq_nil {p : Phase} (h : p.closes = []) : p.ahead = [] :=
  List.eq_nil_of_subset_nil (h ▸ ahead_subset p)

end Phase

namespace System

variable {m : Move} {w w' : System} {b : BrokerId} {k : SourceKey} {c d : CallId} {s t : StreamId}
  {p : Phase}

/-- What a call has to close was listed once and stays connected until its close begins, and the call has a
broker to count the close. -/
structure Poised (w : System) : Prop where
  used : ∀ {c s}, s ∈ (w.phaseOf c).closes → w.attachments s ≠ 0
  ahead : ∀ {c s}, s ∈ (w.phaseOf c).ahead → (w.stream s).lifecycle = .connected
  seated : ∀ {c s}, s ∈ (w.phaseOf c).closes → w.brokerOf c < w.brokers.size

/-- With a turn of the call that has `s` to close, and `rest` after it, the close goes on; or it comes to
its end, is counted, and leaves the stream closed. No other stream moves in its life. -/
structure Furthers (w w' : System) (c : CallId) (s : StreamId) (rest : List StreamId) : Prop where
  others : ∀ t ≠ s, (w'.stream t).lifecycle = (w.stream t).lifecycle
  ahead : (w'.phaseOf c).ahead ⊆ rest
  course : ((w'.phaseOf c).closes = s :: rest ∧ ∀ b, w'.countersOf b = w.countersOf b) ∨
    (w'.phaseOf c).closes = rest ∧ (w'.stream s).lifecycle = .closed ∧
      ∃ result, (∀ e, result = .error e → e.isViolation = false) ∧ ∀ b, w'.countersOf b =
        if b = w.brokerOf c ∧ b < w.brokers.size then (w.countersOf b).recordAll (closeTicks result)
        else w.countersOf b

/-- A turn of a call that has streams to close is a turn of the close of the first. -/
theorem furthers_turn {rest : List StreamId} (wired : w.Wired w.jobs)
    (connected : ∀ t ∈ (w.phaseOf c).ahead, (w.stream t).lifecycle = .connected)
    (closes : (w.phaseOf c).closes = s :: rest) : w.Furthers (w.step (.turn (.call c))) c s rest := by
  obtain ⟨stage, closing⟩ := Phase.closing?_of_closes closes
  have others : ∀ t ≠ s, ((w.step (.turn (.call c))).stream t).lifecycle = (w.stream t).lifecycle :=
    fun t ht => lifecycle_turn closing ht
  rcases turn_tears wired connected closing with ⟨-, p, hp, adv⟩ | ⟨-, ends⟩
  · have next := adv.phaseOf c
    rw [if_pos rfl] at next
    have goes : p.closes = s :: rest ∧ p.ahead ⊆ rest := by
      rcases hp with ⟨waits, rfl⟩ | ⟨x, rfl⟩
      · exact ⟨closes, Phase.ahead_of_waits waits closes⟩
      · exact Phase.onward_closes closing closes x
    refine ⟨others, next ▸ goes.2, .inl ⟨next ▸ goes.1, fun b => ?_⟩⟩
    rw [adv.counters, Counters.recordAll_nil, ite_self]
  · have next := ends.advance.phaseOf c
    rw [if_pos rfl] at next
    have left := Phase.ended_closes closing closes (w.shutResult s)
    exact ⟨others, next ▸ left.2, .inr ⟨next ▸ left.1, congrArg Stream.lifecycle ends.closed,
      w.shutResult s, fun e => shutResult_proper, ends.advance.counters⟩⟩

/-- How a move hands on the streams in the care of the brokers. -/
inductive Handover (m : Move) (w w' : System) : Prop where
  /-- Nothing happens. -/
  | stays (same : w' = w) (kept : ∀ c, m = .abandon c → (w.phaseOf c).deserts = [])
  /-- Not at all. -/
  | rests (idle : ∀ c, m.actor = some c → (w.phaseOf c).closes = [])
      (lists : ∀ b k t, t ∈ (w'.slot b k).streams ↔ t ∈ (w.slot b k).streams)
      (closes : ∀ d, (w'.phaseOf d).closes = (w.phaseOf d).closes)
      (ahead : ∀ d, (w'.phaseOf d).ahead = (w.phaseOf d).ahead)
      (flow : ∀ b, (w'.countersOf b).flow = (w.countersOf b).flow)
  /-- From an open to a list: the stream is counted as opened. -/
  | adds {c : CallId} {s : StreamId} {k : SourceKey} (actor : m.actor = some c)
      (own : s ∈ (w.phaseOf c).owns) (idle : (w.phaseOf c).closes = [])
      (lists : ∀ b k' t, t ∈ (w'.slot b k').streams ↔
        t ∈ (w.slot b k').streams ∨ (b = w.brokerOf c ∧ k' = k) ∧ t = s)
      (closes : ∀ d, (w'.phaseOf d).closes = (w.phaseOf d).closes)
      (ahead : ∀ d, (w'.phaseOf d).ahead = (w.phaseOf d).ahead)
      (flow : ∀ b, (w'.countersOf b).flow = if b = w.brokerOf c then
        ((w.countersOf b).opens + 1, (w.countersOf b).closes) else (w.countersOf b).flow)
  /-- From the lists to a call that is to close them. -/
  | takes {c : CallId} {l : List StreamId} (actor : m.actor = some c)
      (idle : (w.phaseOf c).closes = []) (there : c < w.calls.size)
      (seated : w.brokerOf c < w.brokers.size)
      (listed : ∀ t ∈ l, ∃ k, t ∈ (w.slot (w.brokerOf c) k).streams)
      (lists : ∀ b k t, t ∈ (w'.slot b k).streams ↔ t ∈ (w.slot b k).streams ∧ t ∉ l)
      (next : (w'.phaseOf c).closes = l)
      (others : ∀ d ≠ c, w'.phaseOf d = w.phaseOf d)
      (flow : ∀ b, (w'.countersOf b).flow = (w.countersOf b).flow)
  /-- From a call to its end, where it is counted as closed, if the close gets there. -/
  | furthers {c : CallId} {s : StreamId} {rest : List StreamId} (turn : m = .turn (.call c))
      (closes : (w.phaseOf c).closes = s :: rest)
      (lists : ∀ b k t, t ∈ (w'.slot b k).streams ↔ t ∈ (w.slot b k).streams)
      (others : ∀ d ≠ c, w'.phaseOf d = w.phaseOf d) (furthers : w.Furthers w' c s rest)
  /-- From a call that is abandoned to nobody. -/
  | deserts {c : CallId} (move : m = .abandon c) (suspended : (w.phaseOf c).isSuspended)
      (lists : ∀ b k t, t ∈ (w'.slot b k).streams ↔ t ∈ (w.slot b k).streams)
      (next : w'.phaseOf c = .abandoned) (others : ∀ d ≠ c, w'.phaseOf d = w.phaseOf d)
      (flow : ∀ b, (w'.countersOf b).flow = (w.countersOf b).flow)

/-- A call that had nothing to close, and took nothing on from elsewhere, has nothing to close then, and
has counted no stream as opened or closed. -/
theorem Course.idle {ticks : List Tick} {x : Option Announcement} (h : Course m w c p ticks x)
    (idle : (w.phaseOf c).closes = []) (closes : p.closes ⊆ (w.phaseOf c).owns)
    (given : (w.phaseOf c).isOpening → p.attached? = none) :
    p.closes = [] ∧ ∀ y : Counters, (y.recordAll ticks).flow = y.flow := by
  cases h with
  | stay => exact ⟨idle, fun _ => rfl⟩
  | give place => simp [place, Phase.isOpening, Phase.attached?] at given
  | last place => simp [place, Phase.closes, Phase.owns] at closes
  | sweep place =>
    rw [place] at closes
    exact ⟨List.eq_nil_of_subset_nil closes, fun _ => rfl⟩
  | tear place | torn result place => simp [place, Phase.closes] at idle
  | sweeping place owns | swept result place owns =>
    rw [place] at idle owns
    exact absurd (owns.symm.trans idle) (List.cons_ne_nil _ _)
  | lone borrows next =>
    refine ⟨?_, fun _ => rfl⟩
    rcases next with same | ⟨past, -⟩
    · cases p <;> simp_all [Phase.borrows, Phase.closes]
    · exact Phase.closes_of_isOver past
  | _ => exact ⟨rfl, fun _ => rfl⟩

/-- A call that looks at a list, to take streams off, counts nothing. -/
theorem Course.quiet {ticks : List Tick} {x : Option Announcement} (h : Course m w c p ticks x)
    (place : (∃ i, w.phaseOf c = .releasing i) ∨ w.phaseOf c = .sweepStart) : ticks = [] := by
  cases h with
  | reuse | fail | give | torn | swept => simp_all
  | _ => rfl

/-- An open that comes to a consumer is counted. -/
theorem Course.given {ticks : List Tick} {x : Option Announcement} {i : ConsumerId}
    (h : Course m w c (.finished (.attached i)) ticks x) (opening : (w.phaseOf c).isOpening) :
    ticks = [.opened] := by
  generalize hp : Phase.finished (.attached i) = p at h
  cases h with
  | give => rfl
  | stay => simp [← hp, Phase.isOpening] at opening
  | lone borrows next =>
    cases hq : w.phaseOf c <;> simp [hq, Phase.isOpening, Phase.borrows] at opening borrows
  | torn result place => simp [place, Phase.isOpening] at opening
  | _ => simp_all [Phase.isOpening]

section Actor

variable {ticks : List Tick} {x : Option Announcement} (actor : m.actor = some c)
  (course : Course m w c p ticks x) (adv : Advance c p ticks x w w') (relists : Relists m w w')

include actor course adv relists

/-- A call with nothing to close may give a stream to a list, or take streams off. -/
theorem handover_idle (g : w.Sound) (idle : (w.phaseOf c).closes = []) : Handover m w w' := by
  have here : w'.phaseOf c = p := by rw [adv.phaseOf, if_pos rfl]
  have others : ∀ d ≠ c, w'.phaseOf d = w.phaseOf d := fun d hd => by rw [adv.phaseOf, if_neg hd]
  have closes : p.closes = [] → ∀ d, (w'.phaseOf d).closes = (w.phaseOf d).closes := by
    intro empty d
    by_cases hd : d = c
    · rw [hd, here, empty, idle]
    · rw [others d hd]
  have ahead : p.closes = [] → ∀ d, (w'.phaseOf d).ahead = (w.phaseOf d).ahead := by
    intro empty d
    by_cases hd : d = c
    · rw [hd, here, Phase.ahead_eq_nil empty, Phase.ahead_eq_nil idle]
    · rw [others d hd]
  have flow : (∀ y : Counters, (y.recordAll ticks).flow = y.flow) → ∀ b,
      (w'.countersOf b).flow = (w.countersOf b).flow := by
    intro same b
    rw [adv.counters]
    split
    · exact same _
    · rfl
  cases relists with
  | keeps lists within given =>
    obtain ⟨empty, same⟩ := course.idle idle (here ▸ within c) (here ▸ given c)
    refine .rests (fun d hd => ?_) lists (closes empty) (ahead empty) (flow same)
    obtain rfl := Option.some.inj (actor.symm.trans hd)
    exact idle
  | @adds c' a s moves wait i actor' place next slot lists =>
    obtain rfl : c = c' := Option.some.inj (actor.symm.trans actor')
    obtain rfl : p = .finished (.attached i) := here.symm.trans next
    obtain rfl := course.given (by rw [place]; rfl)
    have seated : w.brokerOf c < w.brokers.size := g.flight.seated c (by rw [place]; rfl)
    refine .adds actor (by simp [place, Phase.owns]) idle lists (closes rfl) (ahead rfl) fun b => ?_
    rw [adv.counted seated]
    split <;> rfl
  | @takes c' i s k actor' place next listed lists =>
    obtain rfl : c = c' := Option.some.inj (actor.symm.trans actor')
    obtain rfl := course.quiet (.inl ⟨i, place⟩)
    refine .takes (l := [s]) actor idle (w.lt_of_phaseOf c (by simp [place]))
      (g.flight.seated c (by rw [place]; rfl)) ?_ (fun b k t => ?_) (by rw [next]; rfl) others
      (flow fun _ => rfl)
    · intro t ht
      exact ⟨k, List.mem_singleton.1 ht ▸ listed⟩
    · rw [lists, List.mem_singleton]
  | @clears c' actor' place next lists =>
    obtain rfl : c = c' := Option.some.inj (actor.symm.trans actor')
    obtain rfl := course.quiet (.inr place)
    refine .takes (l := w.listed (w.brokerOf c)) actor idle (w.lt_of_phaseOf c (by simp [place]))
      (g.flight.seated c (by rw [place]; rfl)) (fun t => (w.mem_listed _ t).1) (fun b k t => ?_)
      (by rw [next]; rfl) others (flow fun _ => rfl)
    rw [lists, mem_listed]
    refine and_congr_right fun ht => ⟨?_, fun hn hb => hn ⟨k, hb ▸ ht⟩⟩
    rintro hb ⟨k', ht'⟩
    exact hb (Keeper.slot.inj (g.custody.unique (o := .slot b k) ht (q := .slot _ k') ht')).1

omit course adv in
/-- No list changes with a move of a call that has streams to close. -/
theorem lists_busy (busy : (w.phaseOf c).closes ≠ []) (b : BrokerId) (k : SourceKey) (t : StreamId) :
    t ∈ (w'.slot b k).streams ↔ t ∈ (w.slot b k).streams := by
  cases relists with
  | keeps lists => exact lists b k t
  | adds actor' place | takes actor' place | clears actor' place =>
    obtain rfl := Option.some.inj (actor.symm.trans actor')
    simp [place, Phase.closes] at busy

end Actor

/-- A call with streams to close goes on with the first, unless it is abandoned. -/
theorem handover_busy (h : w.Poised) (g : w.Sound) (wired : w.Wired w.jobs) (actor : m.actor = some c)
    (busy : (w.phaseOf c).closes ≠ []) : Handover m w (w.step m) := by
  obtain ⟨s, rest, closes⟩ := List.exists_cons_of_ne_nil busy
  obtain ⟨p, ticks, x, -, adv⟩ := step_fares (w := w) actor
  have lists := lists_busy actor (step_relists g m) busy
  have others : ∀ d ≠ c, (w.step m).phaseOf d = w.phaseOf d := fun d hd => by
    rw [adv.phaseOf, if_neg hd]
  cases m with
  | turn r =>
    cases r with
    | call d =>
      obtain rfl := Option.some.inj actor
      exact .furthers rfl closes lists others (furthers_turn wired (fun t ht => h.ahead ht) closes)
    | pump s => cases actor
  | abandon d =>
    obtain rfl := Option.some.inj actor
    by_cases suspended : (w.phaseOf d).isSuspended
    · have hd : d < w.calls.size := w.lt_of_phaseOf d fun hp => by simp [hp, Phase.closes] at busy
      have left : Advance d .abandoned [] none w (w.step (.abandon d)) := .abandon hd suspended
      refine .deserts rfl suspended lists ?_ others fun b => ?_
      · rw [left.phaseOf, if_pos rfl]
      · rw [left.counters, Counters.recordAll_nil, ite_self]
    · refine .stays (by simp [step, abandon, suspended]) ?_
      rintro d' ⟨⟩
      simp [Phase.deserts, suspended]
  | provide d result =>
    obtain rfl := Option.some.inj actor
    refine .stays ?_ (by rintro _ ⟨⟩)
    cases hp : w.phaseOf d <;> simp [hp, Phase.closes] at busy <;> simp [step, provide, hp]
  | _ => cases actor

/-- A step hands streams on in one of the few ways. -/
theorem step_handover (h : w.Poised) (g : w.Sound) (wired : w.Wired w.jobs) (m : Move) :
    Handover m w (w.step m) := by
  have relists := step_relists g m
  rcases w.step_course m with ⟨c, actor, p, ticks, x, course, adv⟩ |
    ⟨b, gated, errand, rfl, -, he⟩ | ⟨none, hushed⟩
  · by_cases idle : (w.phaseOf c).closes = []
    · exact handover_idle actor course adv relists g idle
    · exact handover_busy h g wired actor idle
  · rw [he]
    have origin : ∀ d, ((w.begin b gated errand).phaseOf d).closes = (w.phaseOf d).closes ∧
        ((w.begin b gated errand).phaseOf d).ahead = (w.phaseOf d).ahead := by
      intro d
      rw [phaseOf_begin]
      split
      · rw [w.phaseOf_of_size_le d (Nat.le_of_eq ‹d = _›.symm)]
        cases errand <;> exact ⟨rfl, rfl⟩
      · exact ⟨rfl, rfl⟩
    exact .rests (by rintro _ ⟨⟩) (fun b' k t => by rw [slot_begin]) (fun d => (origin d).1)
      (fun d => (origin d).2) fun b' => by rw [countersOf_begin]
  · cases relists with
    | keeps lists =>
      refine .rests (fun d hd => ?_) lists (fun d => by rw [hushed.phaseOf])
        (fun d => by rw [hushed.phaseOf]) fun b => by rw [hushed.counters]
      rw [none] at hd
      cases hd
    | adds actor | takes actor | clears actor =>
      rw [none] at actor
      cases actor

/-- What a call has to close then it had to close before, or it is taken off a list of its broker. -/
theorem Handover.closes (h : Handover m w w') (hs : s ∈ (w'.phaseOf c).closes) :
    s ∈ (w.phaseOf c).closes ∨
      w.brokerOf c < w.brokers.size ∧ ∃ k, s ∈ (w.slot (w.brokerOf c) k).streams := by
  cases h with
  | stays same => exact .inl (same ▸ hs)
  | rests idle lists closes | adds actor own idle lists closes => exact .inl (closes c ▸ hs)
  | @takes c' l actor idle there seated listed lists next others =>
    by_cases hc : c = c'
    · subst hc
      exact .inr ⟨seated, listed s (next ▸ hs)⟩
    · exact .inl (others c hc ▸ hs)
  | @furthers c' t rest turn closes lists others furthers =>
    by_cases hc : c = c'
    · subst hc
      rw [closes]
      rcases furthers.course with ⟨same, -⟩ | ⟨past, -⟩
      · exact .inl (same ▸ hs)
      · exact .inl (List.mem_cons_of_mem t (past ▸ hs))
    · exact .inl (others c hc ▸ hs)
  | @deserts c' move suspended lists next others =>
    have hc : c ≠ c' := by
      rintro rfl
      rw [next] at hs
      cases hs
    exact .inl (others c hc ▸ hs)

/-- A call with something to close stays on its broker. -/
theorem brokerOf_step (hs : s ∈ ((w.step m).phaseOf c).closes) :
    (w.step m).brokerOf c = w.brokerOf c := by
  rcases w.step_course m with ⟨d, -, p, ticks, x, -, adv⟩ | ⟨b, gated, errand, -, -, he⟩ | ⟨-, hushed⟩
  · exact adv.brokerOf c
  · rw [he] at hs ⊢
    rw [phaseOf_begin] at hs
    rw [brokerOf_begin]
    split at hs
    · cases errand <;> cases hs
    · rw [if_neg ‹_›]
  · exact hushed.brokerOf c

theorem brokers_step (w : System) (m : Move) : (w.step m).brokers.size = w.brokers.size := by
  rcases w.step_course m with ⟨d, -, p, ticks, x, -, adv⟩ | ⟨b, gated, errand, -, -, he⟩ | ⟨-, hushed⟩
  · exact adv.brokers
  · rw [he, brokers_begin]
  · exact hushed.brokers

namespace Poised

variable (h : w.Poised) (g : w.Sound)

include h g

/-- Nobody but the call that has it to close is at work on a stream that has left the list. -/
theorem sealing (hs : s ∈ (w.phaseOf c).closes) : w.Sealed c s := by
  have own : s ∈ w.kept (.call c) := Phase.closes_subset _ hs
  refine ⟨⟨h.used hs, fun b k hl => ?_⟩, fun d hd => ?_⟩
  · cases g.custody.unique (o := .slot b k) hl own
  · rcases (Phase.mem_holds _ _).1 hd with hd | hd
    · exact Keeper.call.inj (g.custody.unique (o := .call d) hd own)
    · exact absurd hd (g.custody.unlent own)

/-- The streams that a call has still to begin with stay connected, as nobody else is at work on them. -/
theorem ahead_step (l : w.Ledger) (hs : s ∈ (w.phaseOf c).ahead) (actor : m.actor ≠ some c) :
    ((w.step m).stream s).lifecycle = .connected :=
  ((h.sealing g (Phase.ahead_subset _ hs)).lifecycle_step l actor).trans (h.ahead hs)

/-- What a call has still to begin with after a step is connected: it was before, or it comes off a
list. -/
theorem connected_step (l : w.Ledger) (handover : Handover m w (w.step m))
    (hs : s ∈ ((w.step m).phaseOf c).ahead) : ((w.step m).stream s).lifecycle = .connected := by
  cases handover with
  | stays same =>
    rw [same] at hs ⊢
    exact h.ahead hs
  | rests idle lists closes ahead =>
    rw [ahead] at hs
    refine h.ahead_step g l hs fun actor => ?_
    rw [Phase.ahead_eq_nil (idle c actor)] at hs
    cases hs
  | @adds c' t k actor' own idle lists closes ahead =>
    rw [ahead] at hs
    refine h.ahead_step g l hs fun actor => ?_
    obtain rfl : c = c' := Option.some.inj (actor.symm.trans actor')
    rw [Phase.ahead_eq_nil idle] at hs
    cases hs
  | @takes c' taken actor idle there seated listed lists next others =>
    by_cases hc : c = c'
    · subst hc
      obtain ⟨k, hl⟩ := listed s (next ▸ Phase.ahead_subset _ hs)
      rw [lifecycle_step (g.custody.made (o := .slot _ k) hl) fun d _ hd =>
        g.custody.unlisted hd _ k hl]
      exact ((g.flight.order _ k).connected s hl).1
    · rw [others c hc] at hs
      exact h.ahead_step g l hs fun hn => hc (Option.some.inj (hn.symm.trans actor))
  | @furthers c' t rest turn closes lists others furthers =>
    by_cases hc : c = c'
    · subst hc
      have hr : s ∈ rest := furthers.ahead hs
      have nodup : (w.phaseOf c).closes.Nodup :=
        (g.custody.nodup (.call c)).sublist (Phase.closes_sublist _)
      rw [closes] at nodup
      rw [furthers.others s fun he => (List.nodup_cons.1 nodup).1 (he ▸ hr)]
      exact h.ahead (Phase.subset_ahead closes hr)
    · rw [others c hc] at hs
      refine h.ahead_step g l hs fun hn => ?_
      rw [turn] at hn
      exact hc (Option.some.inj hn).symm
  | @deserts c' move suspended lists next others =>
    have hc : c ≠ c' := by
      rintro rfl
      rw [next] at hs
      cases hs
    rw [others c hc] at hs
    refine h.ahead_step g l hs fun hn => ?_
    rw [move] at hn
    exact hc (Option.some.inj hn).symm

theorem step (l : w.Ledger) (wired : w.Wired w.jobs) (m : Move) : (w.step m).Poised := by
  have handover := step_handover h g wired m
  refine ⟨fun {c s} hs => ?_, h.connected_step g l handover, fun {c s} hs => ?_⟩
  · have used : w.attachments s ≠ 0 := by
      rcases handover.closes hs with hs | ⟨-, k, listed⟩
      · exact h.used hs
      · exact Nat.pos_iff_ne_zero.1 ((l.counted listed).some.trans_le (w.unreleased_le s))
    exact fun hn => used (Nat.eq_zero_of_le_zero (hn ▸ w.attachments_le_step m s))
  · rw [brokerOf_step hs, brokers_step]
    rcases handover.closes hs with hs | ⟨seated, -⟩
    · exact h.seated hs
    · exact seated

theorem run (l : w.Ledger) (wired : w.Wired w.jobs) (moves : List Move) : (w.run moves).Poised := by
  induction moves generalizing w with
  | nil => exact h
  | cons m moves ih => exact ih (h.step g l wired m) (g.step m) (l.step g m) (wired.step m)

end Poised

theorem poised_fresh (configs : List BrokerConfig) (desk : AccessDesk) (terms : List TunerTerms) :
    (fresh configs desk terms).Poised :=
  ⟨by rintro _ _ ⟨⟩, by rintro _ _ ⟨⟩, by rintro _ _ ⟨⟩⟩

end System

end TunerBroker
