import TunerBroker.Proofs.Closes.Balance
import TunerBroker.Proofs.Streams.Results

/-! Sweeps. A sweep takes every stream off the lists of its broker and closes them one after another, in
some order; whatever else goes on, nobody but the sweep is at work on them. -/

namespace TunerBroker

open scoped List

namespace System

variable {m : Move} {w w' w'' : System} {b : BrokerId} {c d : CallId} {s t : StreamId}
  {l rest : List StreamId} {closed : List (StreamId × Except StreamError Unit)}

/-- What holds at every moment of every run. -/
structure Regular (w : System) : Prop where
  poised : w.Poised
  sound : w.Sound
  ledger : w.Ledger
  wired : w.Wired w.jobs

theorem Regular.step (h : w.Regular) (m : Move) : (w.step m).Regular :=
  ⟨h.poised.step h.sound h.ledger h.wired m, h.sound.step m, h.ledger.step h.sound m, h.wired.step m⟩

theorem Regular.run (h : w.Regular) (moves : List Move) : (w.run moves).Regular := by
  induction moves generalizing w with
  | nil => exact h
  | cons m moves ih => exact ih (h.step m)

theorem regular_fresh (configs : List BrokerConfig) (desk : AccessDesk) (terms : List TunerTerms) :
    (fresh configs desk terms).Regular :=
  ⟨poised_fresh configs desk terms, sound_fresh configs desk terms, ledger_fresh configs desk terms,
    wired_fresh configs desk terms⟩

/-! ### The order of a sweep -/

/-- The sweep of a call that has taken the streams of its broker off the lists, and is to close them in
the order `l`. -/
def sweepIn (w : System) (c : CallId) (l : List StreamId) : System :=
  (w.sweep c).setPhase c (.sweeping none l 0)

theorem sweepIn_listed (w : System) (c : CallId) :
    w.sweepIn c (w.listed (w.brokerOf c)) = w.sweep c := by
  simp only [sweepIn, sweep, setPhase, Table.update, List.modify_modify_eq]
  rfl

theorem phaseOf_sweepIn (there : c < w.calls.size) (d : CallId) :
    (w.sweepIn c l).phaseOf d = if d = c then .sweeping none l 0 else w.phaseOf d := by
  have size : (w.sweep c).calls.size = w.calls.size := by
    rw [sweep, calls_size_setPhase]
    rfl
  rw [sweepIn, phaseOf_setPhase, size, phaseOf_sweep]
  by_cases hd : d = c <;> simp [hd, there]

section Reorder

variable {l₀ : List StreamId} (place : w.phaseOf c = .sweeping none l₀ 0)

include place

/-- What does not depend on the order is for every call what it was. -/
theorem reorder_same {α : Type} (f : Phase → α) (hf : f (.sweeping none l 0) = f (.sweeping none l₀ 0))
    (d : CallId) : f ((w.setPhase c (.sweeping none l 0)).phaseOf d) = f (w.phaseOf d) := by
  rcases w.setPhase_cases c d (.sweeping none l 0) with same | ⟨rfl, next⟩
  · rw [same]
  · rw [next, place, hf]

/-- Every call has the streams it had. -/
theorem reorder_subset (f : Phase → List StreamId)
    (hf : f (.sweeping none l 0) ⊆ f (.sweeping none l₀ 0))
    (hs : s ∈ f ((w.setPhase c (.sweeping none l 0)).phaseOf d)) : s ∈ f (w.phaseOf d) := by
  rcases w.setPhase_cases c d (.sweeping none l 0) with same | ⟨rfl, next⟩
  · rwa [same] at hs
  · rw [next] at hs
    rw [place]
    exact hf hs

variable (perm : l ~ l₀)

include perm

theorem Poised.reorder (h : w.Poised) : (w.setPhase c (.sweeping none l 0)).Poised where
  used hs := h.used (reorder_subset place Phase.closes perm.subset hs)
  ahead hs := h.ahead (reorder_subset place Phase.ahead perm.subset hs)
  seated hs := by
    rw [brokerOf_setPhase]
    exact h.seated (reorder_subset place Phase.closes perm.subset hs)

theorem Custody.reorder (h : w.Custody) : (w.setPhase c (.sweeping none l 0)).Custody := by
  have hc : c < w.calls.size := w.lt_of_phaseOf c (by simp [place])
  have own : ∀ s ∈ l, s ∈ w.kept (.call c) := fun s hs => by
    rw [System.kept, place]
    exact perm.mem_iff.1 hs
  have nodup : l.Nodup := by
    have before := h.nodup (.call c)
    rw [System.kept, place] at before
    exact perm.nodup_iff.2 before
  refine h.take (c := c) (p := .sweeping none l 0) (fun _ _ => .refl _)
    (fun d => by simp [phaseOf_setPhase, hc]) (fun b k s hs hl => ?_) (fun d hd s hs ho => ?_) nodup rfl
    (Nat.le_refl _) (fun _ => id) (fun s hs => h.made (own s hs)) (fun s hs => h.unnamed (own s hs))
    fun s hs d hb => h.unlent (own s hs) hb
  · cases h.unique (o := .slot b k) hl (own s hs)
  · exact hd (Keeper.call.inj (h.unique (o := .call d) ho (own s hs)))

omit perm in
theorem Flight.reorder (h : w.Flight) : (w.setPhase c (.sweeping none l 0)).Flight := by
  refine h.stay (fun _ _ => rfl) (fun d b k => ?_) (fun _ _ _ _ => .refl _) fun d hd => ?_
  · rw [Opens, Opens, brokerOf_setPhase, reorder_same (l := l) place Phase.opens? rfl]
  · rw [brokerOf_setPhase]
    rw [reorder_same (l := l) place Phase.isSeated rfl] at hd
    exact h.seated d hd

theorem Wired.reorder (h : w.Wired w.jobs) :
    (w.setPhase c (.sweeping none l 0)).Wired (w.setPhase c (.sweeping none l 0)).jobs := by
  have jobs : (w.setPhase c (.sweeping none l 0)).jobs = w.jobs :=
    funext (reorder_same place Phase.job? rfl)
  rw [jobs]
  refine h.alike (fun _ => .refl _) rfl rfl fun s hs => .inl ?_
  rw [isHeld_iff] at hs ⊢
  rcases hs with named | listed | ⟨d, hd⟩
  · exact .inl named
  · exact .inr (.inl listed)
  · exact .inr (.inr ⟨d, reorder_subset place Phase.holds perm.subset hd⟩)

/-- The order in which the streams of a sweep are closed is of no matter to what holds at every moment. -/
theorem Regular.reorder (h : w.Regular) : (w.setPhase c (.sweeping none l 0)).Regular where
  poised := h.poised.reorder place perm
  sound := ⟨h.sound.custody.reorder place perm, h.sound.flight.reorder place⟩
  ledger := by
    refine h.ledger.move h.sound.custody (c := c) (p := .sweeping none l 0) rfl (by simp)
      (fun _ => setPhase_cases _ _ _ _) rfl ⟨by rw [place]; rfl, rfl⟩ (by rintro _ ⟨⟩)
      (fun _ _ => List.Subset.refl _) rfl fun _ => ⟨rfl, rfl, id⟩
  wired := h.wired.reorder place perm

end Reorder

/-- The sweep begins with a turn of its call. -/
theorem step_sweepStart (place : w.phaseOf c = .sweepStart) :
    w.step (.turn (.call c)) = w.sweepIn c (w.listed (w.brokerOf c)) := by
  rw [sweepIn_listed]
  simp [step, turn, ready, phaseReady, place, turnCall]

/-- The sweep ends with a turn of its call, once there is nothing left to close. -/
theorem step_sweepEnd {n : Nat} (place : w.phaseOf c = .sweeping none [] n) :
    w.step (.turn (.call c)) =
      (if w.isGated c then w.note c (.gateShutDown n) else w).setPhase c (.finished (.swept n)) := by
  simp [step, turn, ready, phaseReady, place, turnCall, turnSweeping]

theorem Regular.sweepIn (h : w.Regular) (place : w.phaseOf c = .sweepStart)
    (perm : l ~ w.listed (w.brokerOf c)) : (w.sweepIn c l).Regular := by
  have begun := h.step (.turn (.call c))
  have there : c < w.calls.size := w.lt_of_phaseOf c (by simp [place])
  rw [step_sweepStart place, sweepIn_listed] at begun
  refine Regular.reorder ?_ perm begun
  rw [phaseOf_sweep, if_pos ⟨rfl, there⟩]

/-! ### The course of a sweep -/

/-- The close that a move of a call takes to its end, with its result. -/
def teardownsBy (c : CallId) (w : System) (m : Move) : List (StreamId × Except StreamError Unit) :=
  (m.turns.filter (· = c)).flatMap w.tornDown

theorem teardownsBy_turn (w : System) (c : CallId) :
    w.teardownsBy c (.turn (.call c)) = w.tornDown c := by
  simp [teardownsBy, Move.turns]

theorem teardownsBy_eq_nil (hm : m.actor ≠ some c) : w.teardownsBy c m = [] := by
  have none : m.turns.filter (· = c) = [] := List.filter_eq_nil_iff.2 fun d hd hc =>
    hm (of_decide_eq_true hc ▸ Move.actor_of_turns hd)
  rw [teardownsBy, none, List.flatMap_nil]

/-- A sweep that is to close the streams `l` has closed `closed`, in order: it goes on with the others,
has come to its end with the count, or was abandoned. -/
inductive SweepStands (w : System) (c : CallId) (l closed : List StreamId) : Prop where
  | under {current : Option (StreamId × CloseStage)} {rest : List StreamId}
      (place : w.phaseOf c = .sweeping current rest closed.length)
      (order : l = closed ++ (w.phaseOf c).closes)
  | past (place : w.phaseOf c = .finished (.swept l.length)) (all : closed = l)
  | left (place : w.phaseOf c = .abandoned) (part : closed <+: l)

/-- The closes `closed` have come out, as can be read off their streams at any later time. -/
structure Concluded (w : System) (closed : List (StreamId × Except StreamError Unit)) : Prop where
  buried : ∀ x ∈ closed, w.Buried x.1
  pumped : ∀ x ∈ closed, (w.stream x.1).pump ≠ .idle
  result : ∀ x ∈ closed, x.2 = w.shutResult x.1

namespace Concluded

variable (h : w.Concluded closed) (reg : w.Regular)

include h reg

/-- Closes that have come out stay as they are. -/
theorem step (m : Move) : (w.step m).Concluded closed where
  buried x hx := (h.buried x hx).step reg.ledger reg.sound m
  pumped x hx := by
    rw [(h.buried x hx).pump_step reg.ledger reg.wired (h.pumped x hx) m]
    exact h.pumped x hx
  result x hx := by
    have pump := (h.buried x hx).pump_step reg.ledger reg.wired (h.pumped x hx) m
    rw [(shutResult_congr reg.wired ((h.buried x hx).spent.made reg.ledger) m pump).2]
    exact h.result x hx

/-- One more close comes out, of a stream that nobody else was at work on and the call leaves. -/
theorem conclude (sealing : w.Sealed c s) (ends : w.Concludes (w.step m) c s)
    (left : s ∉ ((w.step m).phaseOf c).holds) :
    (w.step m).Concluded (closed ++ [(s, w.shutResult s)]) := by
  have pump : ((w.step m).stream s).pump = (w.stream s).pump := by rw [ends.closed]
  have kept := h.step reg m
  have sealing' := sealing.step reg.ledger reg.sound m
  have each : ∀ {P : StreamId × Except StreamError Unit → Prop}, (∀ x ∈ closed, P x) →
      P (s, w.shutResult s) → ∀ x ∈ closed ++ [(s, w.shutResult s)], P x := fun old new x hx => by
    rcases List.mem_append.1 hx with hx | hx
    · exact old x hx
    · exact List.mem_singleton.1 hx ▸ new
  refine ⟨each kept.buried ⟨sealing'.spent, by rw [ends.closed], fun d hd => ?_⟩, each kept.pumped ?_,
    each kept.result ?_⟩
  · obtain rfl := sealing'.alone d hd
    exact left hd
  · show ((w.step m).stream s).pump ≠ .idle
    rw [pump]
    rcases ends.shut with ⟨n, collected, -⟩ | ⟨n, message, crashed⟩
    · simp [collected]
    · simp [crashed]
  · exact ((shutResult_congr reg.wired (sealing.spent.made reg.ledger) _ pump).2).symm

end Concluded

/-- The closes `closed` of streams of a sweep have come out, as can be read off the streams; and nobody but
the call of the sweep is at work on any of its streams `l`. -/
structure Swept (w : System) (c : CallId) (l : List StreamId)
    (closed : List (StreamId × Except StreamError Unit)) : Prop where
  nodup : l.Nodup
  sealing : ∀ s ∈ l, w.Sealed c s
  buried : ∀ x ∈ closed, w.Buried x.1
  pumped : ∀ x ∈ closed, (w.stream x.1).pump ≠ .idle
  result : ∀ x ∈ closed, x.2 = w.shutResult x.1

/-- The sweep of a call stands where the closes `closed` have come out. -/
structure Sweeping (w : System) (c : CallId) (l : List StreamId)
    (closed : List (StreamId × Except StreamError Unit)) : Prop extends w.Swept c l closed where
  there : c < w.calls.size
  stands : w.SweepStands c l (closed.map (·.1))

theorem Regular.sweeping (h : w.Regular) (place : w.phaseOf c = .sweeping none l 0) :
    w.Sweeping c l [] where
  there := w.lt_of_phaseOf c (by simp [place])
  stands := .under place (by rw [place]; rfl)
  nodup := by
    have := h.sound.custody.nodup (.call c)
    rwa [System.kept, place] at this
  sealing s hs := h.poised.sealing h.sound (by rw [place]; exact hs)
  buried := by rintro _ ⟨⟩
  pumped := by rintro _ ⟨⟩
  result := by rintro _ ⟨⟩

/-- The sweep has counted no more after a stage of a close. -/
theorem sweeping_onward {p : Phase} {current : Option (StreamId × CloseStage)} {n : Nat}
    (place : p = .sweeping current rest n) (closes : p.closes = s :: l) (x : CloseStage) :
    ∃ current rest, p.onward x = .sweeping current rest n := by
  subst place
  rcases current with - | ⟨t, stage⟩
  · obtain rfl : rest = s :: l := closes
    exact ⟨_, _, rfl⟩
  · exact ⟨_, _, rfl⟩

/-- Nothing is left to close. -/
theorem sweeping_of_closes_eq_nil {current : Option (StreamId × CloseStage)} {n : Nat}
    (h : (Phase.sweeping current rest n).closes = []) :
    Phase.sweeping current rest n = .sweeping none [] n := by
  cases current with
  | none =>
    obtain rfl : rest = [] := h
    rfl
  | some x => cases h

/-- What the sweep goes on with when the first close has come to its end. -/
theorem sweeping_ended {p : Phase} {current : Option (StreamId × CloseStage)} {n : Nat}
    {result : Except StreamError Unit} (place : p = .sweeping current rest n)
    (closes : p.closes = s :: l) : p.ended result = .sweeping none l (n + 1) := by
  subst place
  rcases current with - | ⟨t, stage⟩
  · obtain rfl : rest = s :: l := closes
    rfl
  · obtain ⟨-, rfl⟩ := List.cons.inj closes
    rfl

theorem Swept.concluded (h : w.Swept c l closed) : w.Concluded closed := ⟨h.buried, h.pumped, h.result⟩

/-- A sweep is left alone with its streams, and its closes that have come out stay as they are. -/
theorem Swept.step (h : w.Swept c l closed) (reg : w.Regular) (m : Move) :
    (w.step m).Swept c l closed :=
  { h.concluded.step reg m with
    nodup := h.nodup
    sealing := fun s hs => (h.sealing s hs).step reg.ledger reg.sound m }

namespace Sweeping

variable (h : w.Sweeping c l closed) (reg : w.Regular)

include h

/-- The call of the sweep goes on to another place. -/
theorem next (reg : w.Regular) (m : Move) (stands : (w.step m).SweepStands c l (closed.map (·.1))) :
    (w.step m).Sweeping c l closed :=
  ⟨h.toSwept.step reg m, (step_keeps h.there m).1, stands⟩

section Under

variable {current : Option (StreamId × CloseStage)} {n : Nat}
  (place : w.phaseOf c = .sweeping current rest closed.length)
  (order : l = closed.map (·.1) ++ (w.phaseOf c).closes)

include reg place order

/-- One more close comes out. -/
theorem conclude {left : List StreamId} (closes : (w.phaseOf c).closes = s :: left)
    (ends : w.Concludes (w.step (.turn (.call c))) c s) :
    (w.step (.turn (.call c))).Sweeping c l (closed ++ [(s, w.shutResult s)]) := by
  have next : (w.step (.turn (.call c))).phaseOf c =
      .sweeping none left ((closed ++ [(s, w.shutResult s)]).map (·.1)).length := by
    rw [ends.advance.phaseOf, if_pos rfl, sweeping_ended place closes]
    simp
  have split : l = (closed ++ [(s, w.shutResult s)]).map (·.1) ++ left := by
    rw [order, closes, List.map_append]
    simp
  have listed : s ∈ l := by
    rw [order, closes]
    simp
  have left' : s ∉ ((w.step (.turn (.call c))).phaseOf c).holds := fun hs => by
    have apart := h.nodup
    rw [split, List.map_append] at apart
    rw [next] at hs
    exact List.disjoint_of_nodup_append apart (by simp) hs
  refine ⟨{ h.concluded.conclude reg (h.sealing s listed) ends left' with
    nodup := h.nodup
    sealing := (h.toSwept.step reg _).sealing }, (step_keeps h.there _).1, .under next ?_⟩
  rw [next]
  exact split

/-- A turn of the sweep goes on with the close of the first stream, ends it and counts it, or finds that
there is none left. -/
theorem turn_under : (w.step (.turn (.call c))).Sweeping c l (closed ++ w.tornDown c) ∧
    ∃ p, Advance c p ((w.tornDown c).flatMap fun x => closeTicks x.2) none w
      (w.step (.turn (.call c))) := by
  cases hc : (w.phaseOf c).closes with
  | nil =>
    have place := place.trans (sweeping_of_closes_eq_nil (place ▸ hc))
    rw [tornDown_eq_nil hc, List.append_nil]
    have hushed : Hushed w (if w.isGated c then w.note c (.gateShutDown closed.length) else w) := by
      split
      · exact (Hushed.refl w).note _ _
      · exact .refl w
    have adv : Advance c (.finished (.swept closed.length)) [] none w (w.step (.turn (.call c))) := by
      rw [step_sweepEnd place]
      exact (Advance.of_hushed hushed c).setPhase h.there _
    have all : closed.map (·.1) = l := by rw [order, hc, List.append_nil]
    refine ⟨h.next reg _ (.past ?_ all), _, adv⟩
    rw [adv.phaseOf, if_pos rfl, ← all, List.length_map]
  | cons s left =>
    obtain ⟨stage, closing⟩ := Phase.closing?_of_closes hc
    rcases turn_tears reg.wired (fun t ht => reg.poised.ahead ht) closing with ⟨none, p, hp, adv⟩ |
      ⟨torn, ends⟩
    · rw [none, List.append_nil]
      obtain ⟨current', rest', place', closes'⟩ : ∃ current rest,
          p = .sweeping current rest closed.length ∧ p.closes = (w.phaseOf c).closes := by
        rcases hp with ⟨-, rfl⟩ | ⟨x, rfl⟩
        · exact ⟨_, _, place, rfl⟩
        · obtain ⟨current, rest, onward⟩ := sweeping_onward place hc x
          exact ⟨current, rest, onward, hc.symm ▸ (Phase.onward_closes closing hc x).1⟩
      have here : (w.step (.turn (.call c))).phaseOf c = p := by rw [adv.phaseOf, if_pos rfl]
      have next : (w.step (.turn (.call c))).phaseOf c =
          .sweeping current' rest' (closed.map (·.1)).length := by
        rw [here, place', List.length_map]
      refine ⟨h.next reg _ (.under next ?_), p, adv⟩
      rw [here, closes', order]
    · rw [torn]
      refine ⟨h.conclude reg place order hc ends, (w.phaseOf c).ended (w.shutResult s), ?_⟩
      rw [List.flatMap_singleton]
      exact ends.advance

end Under

include reg

/-- With every move the sweep goes on, is abandoned, or stays as it is. -/
theorem step (m : Move) : (w.step m).Sweeping c l (closed ++ w.teardownsBy c m) ∧
    (m.actor = some c → ∃ p, Advance c p ((w.teardownsBy c m).flatMap fun x => closeTicks x.2) none w
      (w.step m)) := by
  -- A sweep that does not move stays as it is.
  have idle : ∀ {m}, w.step m = w → w.teardownsBy c m = [] →
      (w.step m).Sweeping c l (closed ++ w.teardownsBy c m) ∧
      (m.actor = some c → ∃ p, Advance c p ((w.teardownsBy c m).flatMap fun x => closeTicks x.2) none w
        (w.step m)) := by
    intro m same none
    rw [same, none, List.append_nil]
    exact ⟨h, fun _ => ⟨_, .of_hushed (.refl w) c⟩⟩
  by_cases actor : m.actor = some c
  swap
  · have same := (step_other h.there actor).1
    rw [teardownsBy_eq_nil actor, List.append_nil]
    refine ⟨h.next reg m ?_, fun hn => absurd hn actor⟩
    cases h.stands with
    | under place order => exact .under (same.trans place) (by rw [same]; exact order)
    | past place all => exact .past (same.trans place) all
    | left place part => exact .left (same.trans place) part
  cases m with
  | turn r =>
    cases r with
    | call d =>
      obtain rfl := Option.some.inj actor
      rw [teardownsBy_turn]
      cases h.stands with
      | under place order =>
        rw [List.length_map] at place
        obtain ⟨sweeping, adv⟩ := h.turn_under reg place order
        exact ⟨sweeping, fun _ => adv⟩
      | past place | left place =>
        rw [← teardownsBy_turn]
        refine idle (step_unready (by simp [ready, phaseReady, place])) ?_
        rw [teardownsBy_turn, tornDown_eq_nil (by rw [place]; rfl)]
    | pump s => cases actor
  | abandon d =>
    obtain rfl := Option.some.inj actor
    by_cases suspended : (w.phaseOf d).isSuspended
    · have left : Advance d .abandoned [] none w (w.step (.abandon d)) := .abandon h.there suspended
      have none : w.teardownsBy d (.abandon d) = [] := rfl
      rw [none, List.append_nil]
      refine ⟨h.next reg _ (.left (by rw [left.phaseOf, if_pos rfl]) ?_), fun _ => ⟨_, left⟩⟩
      cases h.stands with
      | under place order => exact ⟨_, order.symm⟩
      | past place all => exact all ▸ List.prefix_refl _
      | left place part => exact part
    · exact idle (by simp [System.step, abandon, suspended]) rfl
  | provide d result =>
    obtain rfl := Option.some.inj actor
    refine idle ?_ rfl
    cases h.stands with
    | under place | past place | left place => simp [System.step, provide, place]
  | _ => cases actor

theorem run (moves : List Move) :
    (w.run moves).Sweeping c l (closed ++ w.along (teardownsBy c) moves) := by
  induction moves using List.reverseRecOn with
  | nil =>
    rw [show w.along (teardownsBy c) [] = [] from rfl, List.append_nil]
    exact h
  | append_singleton moves m ih =>
    rw [along_concat, run_concat, ← List.append_assoc]
    exact (ih.step (reg.run moves) m).1

end Sweeping

end System

end TunerBroker
