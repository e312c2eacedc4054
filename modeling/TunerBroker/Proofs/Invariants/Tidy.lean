import TunerBroker.Proofs.Invariants.Flight
import TunerBroker.Proofs.Invariants.Wiring

/-! Runs in which callers keep to the rules: streams are opened for requests, no read is fatal, and a
release or a sweep is seen through. Then a stream that is connected is listed, or is with the call
that took it off the list to close it. -/

namespace TunerBroker

/-- The wish is for the source of a request. -/
def Acquisition.IsPlain (a : Acquisition) : Prop := ∃ r token config, a = .ofRequest r token config

/-- A source is asked for, a consumer released or a broker swept. -/
def Errand.IsPlain : Errand → Prop
  | acquire a | enter _ a => a.IsPlain
  | release _ | sweep => True
  | openStream _ _ | closeStream _ => False

namespace Phase

/-- The streams that a call took off the lists and has to close. -/
def closes : Phase → List StreamId
  | tearing s _ => [s]
  | sweeping current rest _ => (current.map (·.1)).toList ++ rest
  | _ => []

/-- Those whose close has still to begin. -/
def ahead : Phase → List StreamId
  | tearing s none => [s]
  | sweeping _ rest _ => rest
  | _ => []

/-- The close that a release or a sweep takes on with its next turn, and the stage that has come to. -/
def closing? : Phase → Option (StreamId × Option CloseStage)
  | tearing s stage => some (s, stage)
  | sweeping (some (s, stage)) _ _ => some (s, some stage)
  | sweeping none (s :: _) _ => some (s, none)
  | _ => none

/-- A place that calls on plain errands come to. -/
def IsPlain : Phase → Prop
  | admission _ a | seeking a | waiting a _ => a.IsPlain
  | opening a _ moves wait =>
    a.IsPlain ∧ (moves = a.plan.moves ∧ wait = .nowhere ∨ moves = [] ∧ ∃ d, wait = .dialing d)
  | rejecting _ _ _ | dialStart _ _ | dialing _ _ | closeStart _ | closing _ _ => False
  | _ => True

theorem closes_sublist (p : Phase) : p.closes.Sublist p.owns := by
  cases p <;> simp [closes, owns]

theorem closes_subset (p : Phase) : p.closes ⊆ p.owns := p.closes_sublist.subset

theorem ahead_subset (p : Phase) : p.ahead ⊆ p.closes := by
  cases p with
  | tearing s stage => cases stage <;> simp [ahead, closes]
  | sweeping current rest n => simp [ahead, closes]
  | _ => simp [ahead]

theorem closes_of_isOver {p : Phase} (h : p.isOver) : p.closes = [] := by
  cases p <;> simp_all [isOver, closes]

theorem owns_subset (p : Phase) : p.owns ⊆ p.holds := fun s hs => (mem_holds p s).2 (.inl hs)

end Phase

namespace Stream

/-- The stream has a connection to give up. -/
def IsUp (x : Stream) : Prop := x.lifecycle = .connected ∨ x.lifecycle = .closing

/-- The pump has not died, and somebody will collect the connection from it. -/
def IsIntact (x : Stream) : Prop := x.detached = false ∧ ∀ n message, x.pump ≠ .crashed n message

/-- A stream keeps its place in life and stays intact. -/
structure Lasts (x y : Stream) : Prop where
  lifecycle : y.lifecycle = x.lifecycle
  intact : x.IsIntact → y.IsIntact

theorem Alike.lasts {x y : Stream} (h : Alike x y) : Lasts x y :=
  ⟨h.lifecycle, fun hx => by rwa [IsIntact, h.detached, h.pump]⟩

/-- A stream that is up has been given its connection. -/
theorem IsFit.connection {x : Stream} (fit : x.IsFit) (up : x.IsUp) :
    ∃ n, x.pump.connection? = some n := by
  refine Option.ne_none_iff_exists'.1 fun none => ?_
  have idle : x.pump = .idle := by
    cases hp : x.pump <;> simp [hp, Pump.connection?] at none ⊢
  rcases up with hl | hl <;> simp [IsFit, hl, idle] at fit

theorem Lasts.refl (x : Stream) : Lasts x x := (Alike.refl x).lasts

end Stream

/-- The move keeps to the rules. -/
def Move.IsOrderly (w : System) : Move → Prop
  | start _ _ errand => errand.IsPlain
  | abandon c => (w.phaseOf c).closes = []
  | deliver _ (.fatal _) => False
  | _ => True

namespace System

/-- All moves of the run keep to the rules. -/
def RunsOrderly (w : System) : List Move → Prop
  | [] => True
  | m :: moves => m.IsOrderly w ∧ RunsOrderly (w.step m) moves

/-- The stream is listed, or a call has it to close. -/
def Placed (w : System) (s : StreamId) : Prop :=
  (∃ b k, s ∈ (w.slot b k).streams) ∨ ∃ c, s ∈ (w.phaseOf c).closes

/-- What holds at every moment of an orderly run. -/
structure Tidy (w : System) : Prop where
  plain : ∀ c, (w.phaseOf c).IsPlain
  unasked : ∀ {c a s moves}, w.phaseOf c = .opening a s moves .nowhere →
    (w.stream s).lifecycle = .unopened
  ahead : ∀ {c s}, s ∈ (w.phaseOf c).ahead → (w.stream s).lifecycle = .connected
  intact : ∀ s, (w.stream s).IsIntact
  placed : ∀ {s}, (w.stream s).IsUp → w.Placed s

variable {m : Move} {w w' v : System} {c : CallId} {a : Acquisition} {s t : StreamId}
  {n : ConnectionId} {p : Phase} {f : Stream → Stream}

theorem Placed.isHeld (h : w.Placed s) : w.isHeld s := by
  rcases h with ⟨b, k, hl⟩ | ⟨c, hc⟩
  · exact isHeld_of_listed hl
  · exact isHeld_of_holds (Phase.owns_subset _ (Phase.closes_subset _ hc))

/-- A stream that a call has to close is at work in its close once that has begun. -/
theorem jobs_of_closes (hs : s ∈ (w.phaseOf c).closes) (begun : s ∉ (w.phaseOf c).ahead) :
    ∃ stage, w.jobs c = some (s, .close stage) := by
  rw [jobs]
  cases hp : w.phaseOf c with
  | tearing t stage => cases stage <;> simp_all [Phase.closes, Phase.ahead, Phase.job?]
  | sweeping current rest n => cases current <;> simp_all [Phase.closes, Phase.ahead, Phase.job?]
  | _ => simp [hp, Phase.closes] at hs

/-- A stream that a call has to close is up, as long as it stays so until its close begins. -/
theorem Wired.up_of_closes (wired : w.Wired w.jobs)
    (connected : s ∈ (w.phaseOf c).ahead → (w.stream s).lifecycle = .connected)
    (hs : s ∈ (w.phaseOf c).closes) : (w.stream s).IsUp := by
  by_cases ahead : s ∈ (w.phaseOf c).ahead
  · exact .inl (connected ahead)
  · obtain ⟨stage, job⟩ := jobs_of_closes hs ahead
    have manned := wired.manned job
    cases stage <;> exact .inr manned.1

namespace Tidy

/-- One call goes on to `p`, with the streams it has to itself; all other streams last, and what leaves
a list goes to the call. -/
theorem move (h : w.Tidy) (phase : ∀ c', w'.phaseOf c' = if c' = c then p else w.phaseOf c')
    (streams : ∀ t, (w.stream t).Lasts (w'.stream t) ∨ (w'.stream t).IsIntact ∧
      ((w'.stream t).IsUp → (∃ b k, t ∈ (w'.slot b k).streams) ∨ t ∈ p.closes) ∧
      ∀ c' ≠ c, t ∉ (w.phaseOf c').owns)
    (slots : ∀ b k, ∀ t ∈ (w.slot b k).streams, t ∈ (w'.slot b k).streams ∨ t ∈ p.closes)
    (closes : ∀ t ∈ (w.phaseOf c).closes, (w'.stream t).IsUp → t ∈ p.closes) (plain : p.IsPlain)
    (unasked : ∀ {a s moves}, p = .opening a s moves .nowhere → (w'.stream s).lifecycle = .unopened)
    (ahead : ∀ t ∈ p.ahead, (w'.stream t).lifecycle = .connected) : w'.Tidy := by
  have self : w'.phaseOf c = p := by rw [phase, if_pos rfl]
  have other : ∀ c' ≠ c, w'.phaseOf c' = w.phaseOf c' := fun c' hc => by rw [phase, if_neg hc]
  have lasts : ∀ c' ≠ c, ∀ t ∈ (w.phaseOf c').owns, (w.stream t).Lasts (w'.stream t) := by
    intro c' hc t ht
    exact (streams t).resolve_right fun hn => hn.2.2 c' hc ht
  refine ⟨fun c' => ?_, fun {c' a s moves} hp => ?_, fun {c' s} hs => ?_, fun s => ?_, fun {s} hs => ?_⟩
  · by_cases hc : c' = c
    · rw [hc, self]
      exact plain
    · rw [other c' hc]
      exact h.plain c'
  · by_cases hc : c' = c
    · rw [hc, self] at hp
      exact unasked hp
    · rw [other c' hc] at hp
      rw [(lasts c' hc s (by simp [hp, Phase.owns])).lifecycle]
      exact h.unasked hp
  · by_cases hc : c' = c
    · rw [hc, self] at hs
      exact ahead s hs
    · rw [other c' hc] at hs
      rw [(lasts c' hc s (Phase.closes_subset _ (Phase.ahead_subset _ hs))).lifecycle]
      exact h.ahead hs
  · rcases streams s with hl | hn
    · exact hl.intact (h.intact s)
    · exact hn.1
  · rcases streams s with hl | ⟨-, hn, -⟩
    · have up : (w.stream s).IsUp := by rwa [Stream.IsUp, ← hl.lifecycle]
      rcases h.placed up with ⟨b, k, hb⟩ | ⟨c', hc'⟩
      · rcases slots b k s hb with hb | hp
        · exact .inl ⟨b, k, hb⟩
        · exact .inr ⟨c, by rwa [self]⟩
      · by_cases hc : c' = c
        · exact .inr ⟨c, by rw [self]; exact closes s (hc ▸ hc') hs⟩
        · exact .inr ⟨c', by rwa [other c' hc]⟩
    · rcases hn hs with hb | hp
      · exact .inl hb
      · exact .inr ⟨c, by rwa [self]⟩

/-- One call goes on to `p`, without a stream before and after, and no stream changes that matters. -/
theorem rest (h : w.Tidy) (phase : ∀ c', w'.phaseOf c' = if c' = c then p else w.phaseOf c')
    (streams : ∀ t, (w.stream t).Lasts (w'.stream t))
    (slots : ∀ b k, ∀ t ∈ (w.slot b k).streams, t ∈ (w'.slot b k).streams)
    (before : (w.phaseOf c).holds = []) (after : p.holds = []) (plain : p.IsPlain) : w'.Tidy := by
  refine h.move phase (fun t => .inl (streams t)) (fun b k t ht => .inl (slots b k t ht))
    (fun t ht _ => ?_) plain (fun hp => ?_) fun t ht => ?_
  · have := Phase.owns_subset _ (Phase.closes_subset _ ht)
    simp [before] at this
  · simp [hp, Phase.holds] at after
  · have := Phase.owns_subset _ (Phase.closes_subset _ (Phase.ahead_subset _ ht))
    simp [after] at this

/-- No call goes on, no list changes, and all streams last. -/
theorem calm (h : w.Tidy) (phase : ∀ c, w'.phaseOf c = w.phaseOf c)
    (slots : ∀ b k, (w'.slot b k).streams = (w.slot b k).streams)
    (streams : ∀ t, (w.stream t).Lasts (w'.stream t)) : w'.Tidy := by
  refine h.move (c := 0) (p := w.phaseOf 0) (fun c' => ?_) (fun t => .inl (streams t))
    (fun b k t ht => .inl (by rwa [slots])) (fun t ht _ => ht) (h.plain 0) (fun hp => ?_)
    fun t ht => ?_
  · rw [phase]
    split
    · rw [(‹c' = 0› : c' = 0)]
    · rfl
  · rw [(streams _).lifecycle]
    exact h.unasked hp
  · rw [(streams t).lifecycle]
    exact h.ahead ht

theorem lasts_setStream (hf : ∀ x : Stream, x.Lasts (f x)) (t : StreamId) :
    (w.stream t).Lasts ((w.setStream s f).stream t) := by
  rw [stream_setStream]
  split
  · exact hf _
  · exact .refl _

theorem lasts_setConsumers (w : System) (s t : StreamId) (g : Stream → UInt32) :
    (w.stream t).Lasts ((w.setStream s fun x => { x with consumers := g x }).stream t) :=
  lasts_setStream (f := fun x => { x with consumers := g x }) (fun _ => ⟨rfl, id⟩) t

/-! ### Changes by themselves -/

theorem drift (h : w.Tidy) (g : Drift m w w') (alive : ∀ n message, m ≠ .deliver n (.fatal message)) :
    w'.Tidy := by
  induction g with
  | still g =>
    refine h.calm g.frame.phaseOf (fun b k => by rw [g.frame.slot]) fun t => ?_
    rw [System.stream, System.stream, g.streams]
    exact .refl _
  | trans _ _ ih₁ ih₂ => exact ih₂ (ih₁ h)
  | push =>
    exact h.calm (fun _ => rfl) (fun _ _ => rfl) (lasts_setStream fun x => ⟨rfl, id⟩)
  | @stop w s n reading =>
    simp only [endPump, (h.intact s).1]
    exact h.calm (fun _ => rfl) (fun _ _ => rfl)
      (lasts_setStream fun x => ⟨rfl, fun hx => ⟨hx.1, by rintro _ _ ⟨⟩⟩⟩)
  | crash fatal => exact absurd fatal (alive _ _)
  | @lose w s unheld connected =>
    have held := (h.placed (.inl connected)).isHeld
    simp [unheld] at held

/-! ### Work of a call -/

/-- A call works on one of the streams it has to itself and goes on to `p`, which has what is left to
close. -/
theorem work (h : w.Tidy) (g : w.Sound) (frame : Frame {s} w v)
    (others : ∀ t ≠ s, v.stream t = w.stream t) (own : s ∈ (w.phaseOf c).owns)
    (intact : (v.stream s).IsIntact) (up : (v.stream s).IsUp → s ∈ p.closes)
    (closes : ∀ t ∈ (w.phaseOf c).closes, t ≠ s → t ∈ p.closes) (plain : p.IsPlain)
    (asked : ∀ {a s moves}, p ≠ .opening a s moves .nowhere)
    (ahead : ∀ t ∈ p.ahead, t ≠ s ∧ t ∈ (w.phaseOf c).ahead) : (v.setPhase c p).Tidy := by
  have hc : c < v.calls.size := by
    rw [frame.calls]
    exact w.lt_of_phaseOf _ fun he => by simp [he, Phase.owns] at own
  refine h.move (c := c) (p := p) (fun c' => ?_) (fun t => ?_) (fun b k t ht => ?_) (fun t ht ht' => ?_)
    plain (fun hp => absurd hp asked) fun t ht => ?_
  · simp [phaseOf_setPhase, hc, frame.phaseOf]
  · by_cases hs : t = s
    · subst hs
      refine .inr ⟨intact, fun ht => .inr (up ht), fun c' hc' ho => hc' ?_⟩
      exact Keeper.call.inj (g.custody.unique (o := .call c') ho (q := .call c) own)
    · rw [stream_setPhase, others t hs]
      exact .inl (.refl _)
  · rw [slot_setPhase, frame.slot]
    exact .inl ht
  · by_cases hs : t = s
    · subst hs
      exact up ht'
    · exact closes t ht hs
  · obtain ⟨hs, ht⟩ := ahead t ht
    rw [stream_setPhase, others t hs]
    exact h.ahead ht

/-- An open ends without giving its stream, which has no connection. -/
theorem giveUp {moves : List OpenMove} {wait : OpenWait} (h : w.Tidy) (g : w.Sound)
    (frame : Frame {s} w v) (others : ∀ t ≠ s, v.stream t = w.stream t)
    (hp : w.phaseOf c = .opening a s moves wait) (intact : (v.stream s).IsIntact)
    (down : ¬ (v.stream s).IsUp) (past : p.isOver) : ((v.setPhase c p).endOpen c a.key none).Tidy := by
  have h₁ : (v.setPhase c p).Tidy := by
    refine h.work g frame others (by simp [hp, Phase.owns]) intact (fun hu => absurd hu down)
      (by simp [hp, Phase.closes]) ?_ ?_ ?_
    all_goals cases p <;> simp_all [Phase.isOver, Phase.IsPlain, Phase.ahead]
  refine h₁.calm (fun _ => rfl) (fun b k => ?_) fun t => .refl _
  rw [slot_endOpen]
  split
  · exact streams_unmarked _ _
  · rfl

theorem failOpen {moves : List OpenMove} {wait : OpenWait} {e : StreamError} (h : w.Tidy) (g : w.Sound)
    (frame : Frame {s} w v) (others : ∀ t ≠ s, v.stream t = w.stream t)
    (hp : w.phaseOf c = .opening a s moves wait) (intact : (v.stream s).IsIntact)
    (down : ¬ (v.stream s).IsUp) : (v.failOpen c a s e).Tidy := by
  have h₁ := h.giveUp (p := .finished (.failed e)) g frame others hp intact down rfl
  have h₂ := h₁.drift (m := .elapse 0) (.reap (.refl _) s) (by rintro _ _ ⟨⟩)
  exact h₂.drift (m := .elapse 0) (.still (.announce (.note (.record (.refl _) _ _) _ _) _ _))
    (by rintro _ _ ⟨⟩)

/-- An open gives its stream to the slot. -/
theorem concludeOpen {moves : List OpenMove} {wait : OpenWait} (h : w.Tidy) (g : w.Sound)
    (frame : Frame {s} w v) (others : ∀ t ≠ s, v.stream t = w.stream t)
    (hp : w.phaseOf c = .opening a s moves wait) (intact : (v.stream s).IsIntact)
    (connected : (v.stream s).lifecycle = .connected) (key : (v.stream s).key = a.key) :
    (v.concludeOpen c a s).Tidy := by
  have fit : ¬ ((v.stream s).key ≠ a.key ∨ (!(v.stream s).isConnected) = true) := by
    simp [key, Stream.isConnected, connected]
  have hc : c < w.calls.size := w.lt_of_phaseOf _ (by simp [hp])
  have own : s ∈ w.kept (.call c) := by simp [kept, hp, Phase.owns]
  have hb : w.brokerOf c < w.brokers.size := g.flight.seated c (by rw [hp]; rfl)
  simp only [System.concludeOpen, if_neg fit]
  have h₁ : (((v.setStream s fun x => { x with consumers := x.consumers + 1 }).endOpen c a.key
      (some s)).attach c s).Tidy := by
    refine h.move (c := c) (p := .finished (.attached v.consumers.size)) (fun c' => ?_) (fun t => ?_)
      (fun b k t ht => .inl ?_) (by simp [hp, Phase.closes]) trivial
      (by rintro _ _ _ ⟨⟩) (by rintro _ ⟨⟩)
    · rw [phaseOf_attach, phaseOf_endOpen, phaseOf_setStream, frame.phaseOf]
      simp [frame.calls, hc]
    · by_cases hs : t = s
      · subst hs
        refine .inr ⟨?_, fun _ => .inl ⟨v.brokerOf c, a.key, ?_⟩, fun c' hc' ho => hc' ?_⟩
        · rw [stream_attach, stream_endOpen]
          exact (lasts_setConsumers v t t fun x => x.consumers + 1).intact intact
        · refine mem_streams_endOpen (v.setStream t _) a.key c t ?_
          rwa [brokerOf_setStream, brokers_setStream, frame.brokerOf, frame.brokers]
        · exact Keeper.call.inj (g.custody.unique (o := .call c') ho own)
      · rw [stream_attach, stream_endOpen, stream_setStream_ne _ _ _ _ hs, others t hs]
        exact .inl (.refl _)
    · rw [slot_attach, slot_endOpen, slot_setStream, frame.slot]
      split
      · exact (mem_streams_endedSlot _ _ _ _ _).2 (.inl ht)
      · exact ht
  exact h₁.drift (m := .elapse 0) (.still (.announce (.note (.record (.refl _) _ _) _ _) _ _))
    (by rintro _ _ ⟨⟩)

end Tidy

end System

end TunerBroker
