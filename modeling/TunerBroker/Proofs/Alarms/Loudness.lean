import TunerBroker.Proofs.Alarms.Breaches
import TunerBroker.Proofs.Sources.Owners
import TunerBroker.Proofs.Opens.SharedOutcome

/-! Who raises alarms. As long as the work that opens do by themselves does not come to breaches of its own, a
call that has ended has raised an alarm just when it has failed with a breach that was not another's open's:
a breach is raised where it is found, and those that have waited for that open are only told. -/

namespace TunerBroker

/-- The work of its open does not come to a breach by itself. -/
def Acquisition.IsHonest (a : Acquisition) : Prop :=
  ∀ e ∈ a.plan.moves.filterMap OpenMove.excuse?, e.isViolation = false

/-- The move brings no breach from outside. -/
def Move.IsHonest : Move → Prop
  | start _ _ errand => ∀ a, errand.wish? = some a → a.IsHonest
  | provide _ (.error e) => e.isViolation = false
  | _ => True

namespace Phase

/-- A place at which a call can find something amiss. -/
def isProne : Phase → Bool
  | seeking _ | opening _ _ _ _ | rejecting _ _ _ | releasing _ | dialStart _ _ | closeStart _ => true
  | _ => false

/-- A place that sweeps come to. -/
def ofSweep : Phase → Bool
  | sweepStart | sweeping _ _ _ | finished (.swept _) | abandoned => true
  | _ => false

end Phase

namespace System

variable {P : System → Move → Prop} {m : Move} {moves : List Move} {w w' v : System} {b : BrokerId}
  {c d o : CallId} {a : Acquisition} {s : StreamId} {p : Phase} {raised : Bool} {e : StreamError}

/-- The call has raised an alarm. -/
def IsLoud (w : System) (c : CallId) : Prop := some c ∈ w.alarms

/-- At some moment of the run a move is made of which this holds. -/
def Sees (P : System → Move → Prop) (w : System) : List Move → Prop
  | [] => False
  | m :: moves => P w m ∨ Sees P (w.step m) moves

theorem sees_concat : w.Sees P (moves ++ [m]) ↔ w.Sees P moves ∨ P (w.run moves) m := by
  induction moves generalizing w with
  | nil => exact or_comm
  | cons m' moves ih => exact (or_congr_right ih).trans or_assoc.symm

/-- The move ends the call with the failure of an open that it has waited for. -/
def EndsWith (c : CallId) (w : System) (m : Move) : Prop :=
  m = .turn (.call c) ∧ ∃ a o e, w.phaseOf c = .waiting a o ∧ w.announcedBy o = some (.failed e) ∧
    (w.step m).phaseOf c = .finished (.failed e)

/-- The call has ended with the failure of another's open. -/
def IsHeir (w : System) (moves : List Move) (c : CallId) : Prop := w.Sees (EndsWith c) moves

theorem IsHeir.finished (h : w.IsHeir moves c) :
    ∃ e, (w.run moves).phaseOf c = .finished (.failed e) := by
  induction moves generalizing w with
  | nil => cases h
  | cons m moves ih =>
    rcases h with ⟨-, a, o, e, place, -, ended⟩ | later
    · have hc := w.lt_of_phaseOf c fun hp => by rw [hp] at place; cases place
      exact ⟨e, (run_over moves (by rw [ended]; rfl) (step_keeps hc m).1).trans ended⟩
    · exact ih later

/-! ### Where a fault is found -/

theorem BeginsOpen.isProne {token : Option Token} (h : w.BeginsOpen c s token v) :
    (w.phaseOf c).isProne := by
  cases h with
  | alone place | move place | atOnce place => rw [place]; rfl

theorem BeginsClose.isProne (h : w.BeginsClose c s v) (own : (w.phaseOf c).closes = []) :
    (w.phaseOf c).isProne := by
  cases h with
  | tear place | sweep place => rw [place] at own; cases own
  | alone place | reject place | move place | atOnce place => rw [place]; rfl

theorem Makes.isProne {l : List OpenMove} (h : w.Makes c a s l v) : (w.phaseOf c).isProne := by
  cases h with
  | next place | atOnce place => rw [place]; rfl

theorem Fault.isProne (h : w.Fault c) : (w.phaseOf c).isProne := by
  cases h with
  | unattended place | unlisted place => rw [place]; rfl
  | unfit yields => exact yields.isProne
  | misopened begins => exact begins.isProne
  | misclosed begins own => exact begins.isProne own

/-- An alarm is raised only where something can be amiss. -/
theorem Answers.isProne (h : Answers m w c p true) : (w.phaseOf c).isProne := by
  cases h with
  | breach turn before fault | reject turn before fault => exact fault.isProne
  | rejecting place | rejected place => rw [place]; rfl

/-! ### Alarms from step to step -/

theorem Raises.isLoud (h : Raises raised c w w') :
    w'.IsLoud d ↔ d = c ∧ raised ∨ w.IsLoud d := by
  rw [IsLoud, h]
  cases raised <;> simp [IsLoud]

/-- Only the moves of a call let it raise an alarm. -/
theorem Regular.isLoud_other (h : w.Regular) (other : m.actor ≠ some d) :
    (w.step m).IsLoud d ↔ w.IsLoud d := by
  cases actor : m.actor with
  | none => rw [IsLoud, alarms_step actor, IsLoud]
  | some c =>
    obtain ⟨p, raised, -, -, raises⟩ := h.rings actor
    rw [raises.isLoud]
    refine or_iff_right fun hd => other ?_
    rw [actor, hd.1]

theorem Regular.isLoud_step (h : w.Regular) (m : Move) (loud : w.IsLoud c) : (w.step m).IsLoud c := by
  by_cases actor : m.actor = some c
  · obtain ⟨p, raised, -, -, raises⟩ := h.rings actor
    exact raises.isLoud.2 (.inr loud)
  · exact (h.isLoud_other actor).2 loud

/-- No alarm is raised but by a call. -/
theorem Regular.owned_step (h : w.Regular) (m : Move) (owned : none ∉ w.alarms) :
    none ∉ (w.step m).alarms := by
  cases actor : m.actor with
  | none =>
    rw [alarms_step actor]
    exact owned
  | some c =>
    obtain ⟨p, raised, -, -, raises⟩ := h.rings actor
    rw [raises]
    cases raised with
    | false => exact owned
    | true =>
      rw [if_pos rfl, List.mem_cons, not_or]
      exact ⟨Option.some_ne_none c ∘ Eq.symm, owned⟩

theorem Regular.owned_run (h : w.Regular) (owned : none ∉ w.alarms) (moves : List Move) :
    none ∉ (w.run moves).alarms := by
  induction moves generalizing w with
  | nil => exact owned
  | cons m moves ih => exact ih (h.step m) (h.owned_step m owned)

/-! ### Sweeps -/

theorem Course.ofSweep {ticks : List Tick} {x : Option Announcement} (h : Course m w c p ticks x)
    (swept : (w.phaseOf c).ofSweep) : p.ofSweep := by
  cases h with
  | stay => exact swept
  | abandon | sweep | sweeping | swept | clear => rfl
  | lone borrows => cases hp : w.phaseOf c <;> simp_all [Phase.ofSweep, Phase.borrows]
  | _ => simp_all [Phase.ofSweep]

/-- A sweep raises no alarm. -/
theorem Regular.silent_step (h : w.Regular) (hc : c < w.calls.size) (swept : (w.phaseOf c).ofSweep)
    (silent : ¬w.IsLoud c) (m : Move) :
    ((w.step m).phaseOf c).ofSweep ∧ ¬(w.step m).IsLoud c := by
  by_cases actor : m.actor = some c
  · obtain ⟨q, ticks, x, course, adv⟩ := step_fares (w := w) actor
    obtain ⟨p, raised, answers, -, raises⟩ := h.rings actor
    refine ⟨?_, fun loud => ?_⟩
    · rw [adv.phaseOf, if_pos rfl]
      exact course.ofSweep swept
    · rcases raises.isLoud.1 loud with ⟨-, rfl⟩ | before
      · have prone := answers.isProne
        cases hp : w.phaseOf c <;> simp_all [Phase.ofSweep, Phase.isProne]
      · exact silent before
  · rw [(step_other hc actor).1, h.isLoud_other actor]
    exact ⟨swept, silent⟩

theorem Regular.silent_run (h : w.Regular) (hc : c < w.calls.size) (swept : (w.phaseOf c).ofSweep)
    (silent : ¬w.IsLoud c) (moves : List Move) : ¬(w.run moves).IsLoud c := by
  induction moves generalizing w with
  | nil => exact silent
  | cons m moves ih =>
    have next := h.silent_step hc swept silent m
    exact ih (h.step m) (step_keeps hc m).1 next.1 next.2

/-! ### Along a run -/

/-- What a call of a run has come to, and whether it has raised an alarm for that. -/
structure Candid (w : System) (moves : List Move) (c : CallId) : Prop where
  made : (w.run moves).IsLoud c → c < (w.run moves).calls.size
  excuses : ∀ e ∈ ((w.run moves).phaseOf c).excuses, e.isViolation = false
  refusal : ∀ {s stage e}, (w.run moves).phaseOf c = .rejecting s stage e → e.isViolation
  loud : ((w.run moves).phaseOf c).isBreached → ((w.run moves).IsLoud c ↔ ¬w.IsHeir moves c)
  still : (w.run moves).phaseOf c ≠ .abandoned → ((w.run moves).phaseOf c).isBreached = false →
    ¬(w.run moves).IsLoud c

theorem EndsWith.pending (h : EndsWith c w m) : (w.phaseOf c).isProne = false ∧
    (w.phaseOf c).isOver = false := by
  obtain ⟨-, a, o, e, place, -⟩ := h
  rw [place]
  exact ⟨rfl, rfl⟩

theorem isHeir_concat : w.IsHeir (moves ++ [m]) c ↔ w.IsHeir moves c ∨ EndsWith c (w.run moves) m :=
  sees_concat

/-- A call that is not over is nobody's heir. -/
theorem IsHeir.over (h : w.IsHeir moves c) : ((w.run moves).phaseOf c).isOver := by
  obtain ⟨e, he⟩ := h.finished
  rw [he]
  rfl

namespace Candid

/-- The move is not one of the call, or does nothing. -/
theorem keep (g : w.Candid moves c) (phase : ((w.run moves).step m).phaseOf c = (w.run moves).phaseOf c)
    (loud : ((w.run moves).step m).IsLoud c ↔ (w.run moves).IsLoud c)
    (size : c < (w.run moves).calls.size → c < ((w.run moves).step m).calls.size)
    (heir : ¬EndsWith c (w.run moves) m) : w.Candid (moves ++ [m]) c := by
  have same : w.IsHeir (moves ++ [m]) c ↔ w.IsHeir moves c := isHeir_concat.trans (or_iff_left heir)
  constructor <;> rw [run_concat]
  · exact fun h => size (g.made (loud.1 h))
  · rw [phase]
    exact g.excuses
  · rw [phase]
    exact g.refusal
  · rw [phase, loud, same]
    exact g.loud
  · rw [phase, loud]
    exact g.still

/-- The call has gone to a place without a breach. -/
theorem peace (hc : c < ((w.run moves).step m).calls.size)
    (unbreached : (((w.run moves).step m).phaseOf c).isBreached = false)
    (excuses : ∀ e ∈ (((w.run moves).step m).phaseOf c).excuses, e.isViolation = false)
    (still : ((w.run moves).step m).phaseOf c ≠ .abandoned → ¬((w.run moves).step m).IsLoud c) :
    w.Candid (moves ++ [m]) c := by
  constructor <;> rw [run_concat]
  · exact fun _ => hc
  · exact excuses
  · intro s stage e place
    rw [place] at unbreached
    cases unbreached
  · intro breached
    rw [unbreached] at breached
    cases breached
  · exact fun away _ => still away

/-- The call has come to a breach. -/
theorem breach (hc : c < ((w.run moves).step m).calls.size)
    (breached : (((w.run moves).step m).phaseOf c).isBreached)
    (refusal : ∀ {s stage e}, ((w.run moves).step m).phaseOf c = .rejecting s stage e → e.isViolation)
    (loud : ((w.run moves).step m).IsLoud c ↔ ¬w.IsHeir (moves ++ [m]) c) : w.Candid (moves ++ [m]) c := by
  constructor <;> rw [run_concat]
  · exact fun _ => hc
  · intro e he
    cases hp : ((w.run moves).step m).phaseOf c <;> simp_all [Phase.isBreached, Phase.excuses]
  · exact refusal
  · exact fun _ => loud
  · intro _ unbreached
    rw [breached] at unbreached
    cases unbreached

/-- The call fails with a breach. -/
theorem fails (hc : c < ((w.run moves).step m).calls.size)
    (ended : ((w.run moves).step m).phaseOf c = .finished (.failed e)) (violation : e.isViolation)
    (loud : ((w.run moves).step m).IsLoud c ↔ ¬w.IsHeir (moves ++ [m]) c) : w.Candid (moves ++ [m]) c :=
  breach hc (by rw [ended]; exact violation) (fun hp => by rw [ended] at hp; cases hp) loud

/-- The call refuses a stream for a breach. -/
theorem refuses {stage : Option CloseStage} (hc : c < ((w.run moves).step m).calls.size)
    (place : ((w.run moves).step m).phaseOf c = .rejecting s stage e) (violation : e.isViolation)
    (loud : ((w.run moves).step m).IsLoud c ↔ ¬w.IsHeir (moves ++ [m]) c) : w.Candid (moves ++ [m]) c := by
  refine breach hc (by rw [place]; rfl) (fun hp => ?_) loud
  rw [place] at hp
  cases hp
  exact violation

/-- Whoever has a breach to answer for has not come to it as a waiter. -/
theorem outcry (stranger : ¬w.IsHeir moves c) (prone : ((w.run moves).phaseOf c).isProne)
    (loud : ((w.run moves).step m).IsLoud c) :
    ((w.run moves).step m).IsLoud c ↔ ¬w.IsHeir (moves ++ [m]) c :=
  iff_of_true loud fun heir => by
    rcases isHeir_concat.1 heir with before | now
    · exact stranger before
    · rw [now.pending.1] at prone
      cases prone

/-- The call itself moves. -/
theorem advance (g : w.Candid moves c) (h : (w.run moves).Regular) (honest : m.IsHonest)
    (actor : m.actor = some c) (pending : ((w.run moves).phaseOf c).isOver = false) :
    w.Candid (moves ++ [m]) c := by
  obtain ⟨p, raised, answers, place, raises⟩ := h.rings actor
  have away : (w.run moves).phaseOf c ≠ .abandoned := fun hp => by rw [hp] at pending; cases pending
  have hc : c < ((w.run moves).step m).calls.size :=
    (step_keeps ((w.run moves).lt_of_phaseOf c away) m).1
  have stranger : ¬w.IsHeir moves c := fun heir => by
    rw [heir.over] at pending
    cases pending
  have quiet : ((w.run moves).phaseOf c).isBreached = false → raised = false →
      ¬((w.run moves).step m).IsLoud c := by
    rintro before rfl
    rw [raises.isLoud, or_iff_right fun hr => by cases hr.2]
    exact g.still away before
  rw [← place] at answers
  generalize hq : ((w.run moves).step m).phaseOf c = q at answers
  have calmly : q.isBreached = false → (∀ e ∈ q.excuses, e.isViolation = false) →
      ((w.run moves).phaseOf c).isBreached = false → raised = false → w.Candid (moves ++ [m]) c :=
    fun after excuses before hr => peace hc (hq ▸ after) (hq ▸ excuses) fun _ => quiet before hr
  -- A call that has refused a stream has raised the alarm then.
  have refused : ∀ {s stage e}, (w.run moves).phaseOf c = .rejecting s stage e → e.isViolation ∧
      (((w.run moves).step m).IsLoud c ↔ ¬w.IsHeir (moves ++ [m]) c) := fun hp =>
    ⟨g.refusal hp, outcry stranger (by rw [hp]; rfl)
      (raises.isLoud.2 (.inr ((g.loud (by rw [hp]; rfl)).2 stranger)))⟩
  cases answers with
  | stay =>
    refine g.keep hq (raises.isLoud.trans (or_iff_right fun hr => by cases hr.2)) (fun _ => hc) ?_
    rintro ⟨-, a, o, e, hp, -, ended⟩
    rw [hq, hp] at ended
    cases ended
  | leave => exact peace hc (by rw [hq]; rfl) (by rw [hq]; exact List.forall_mem_nil _) (absurd hq)
  | calm before after excuses => exact calmly after (fun e he => g.excuses e (excuses he)) before rfl
  | told move before after excuses =>
    subst move
    refine calmly after (fun e he => ?_) before rfl
    rw [List.mem_singleton.1 (excuses he)]
    exact honest
  | excuse before own => exact calmly (g.excuses _ own) (List.forall_mem_nil _) before rfl
  | @inherit a o e turn hp told =>
    have before : ((w.run moves).phaseOf c).isBreached = false := by rw [hp]; rfl
    cases he : e.isViolation with
    | false => exact calmly he (List.forall_mem_nil _) before rfl
    | true =>
      have heir : w.IsHeir (moves ++ [m]) c := isHeir_concat.2 (.inr ⟨turn, a, o, e, hp, told, hq⟩)
      exact fails hc hq he (iff_of_false (quiet before rfl) (not_not.2 heir))
  | breach turn before fault violation =>
    exact fails hc hq violation (outcry stranger fault.isProne (raises.isLoud.2 (.inl ⟨rfl, rfl⟩)))
  | reject turn before fault violation =>
    exact refuses hc hq violation (outcry stranger fault.isProne (raises.isLoud.2 (.inl ⟨rfl, rfl⟩)))
  | rejecting hp => exact refuses hc hq (refused hp).1 (refused hp).2
  | rejected hp => exact fails hc hq (refused hp).1 (refused hp).2

theorem step (g : w.Candid moves c) (h : (w.run moves).Regular) (honest : m.IsHonest) :
    w.Candid (moves ++ [m]) c := by
  have stranger : m.actor ≠ some c → ¬EndsWith c (w.run moves) m := by
    rintro other ⟨rfl, -⟩
    exact other rfl
  by_cases actor : m.actor = some c
  · by_cases past : ((w.run moves).phaseOf c).isOver
    · have gone := step_gone past actor
      refine g.keep (by rw [gone]) (by rw [gone]) (by rw [gone]; exact id) fun heir => ?_
      rw [heir.pending.2] at past
      cases past
    · exact g.advance h honest actor (Bool.eq_false_of_not_eq_true past)
  · rcases (w.run moves).step_cases m c with ⟨phase, -⟩ | ⟨own, -⟩ | ⟨b, gated, errand, rfl, new, lt, place, -⟩
    · exact g.keep phase (h.isLoud_other actor) (fun lt => (step_keeps lt m).1) (stranger actor)
    · exact absurd own actor
    · refine peace lt ?_ ?_ fun _ loud => ?_
      · rw [place]
        cases errand <;> rfl
      · rw [place]
        cases errand with
        | acquire a | enter ctx a => exact honest a rfl
        | _ => exact List.forall_mem_nil _
      · exact absurd (g.made ((h.isLoud_other actor).1 loud)) (Nat.not_lt.2 new.ge)

end Candid

theorem candid_fresh (configs : List BrokerConfig) (desk : AccessDesk) (terms : List TunerTerms)
    (moves : List Move) (honest : ∀ m ∈ moves, m.IsHonest) (c : CallId) :
    (fresh configs desk terms).Candid moves c := by
  induction moves using List.reverseRecOn with
  | nil =>
    have silent : ¬((fresh configs desk terms).run []).IsLoud c := by rintro ⟨⟩
    exact ⟨fun loud => absurd loud silent, List.forall_mem_nil _, by rintro _ _ _ ⟨⟩, by rintro ⟨⟩,
      fun _ _ => silent⟩
  | append_singleton moves m ih =>
    have honest' : ∀ x ∈ moves, x.IsHonest := fun x hx => honest x (List.mem_append_left _ hx)
    exact (ih honest').step ((regular_fresh configs desk terms).run moves)
      (honest m (List.mem_append_right _ List.mem_cons_self))

theorem candid_earlier (configs : List BrokerConfig) (desk : AccessDesk) (terms : List TunerTerms)
    (honest : ∀ m ∈ moves, m.IsHonest) (before : List Move) (c : CallId) (part : before <+: moves) :
    (fresh configs desk terms).Candid before c :=
  candid_fresh configs desk terms before (fun m hm => honest m (part.subset hm)) c

/-- A call that has ended has raised an alarm just when it has failed with a breach that was not handed
on to it. -/
theorem Candid.finished {out : Outcome} (g : w.Candid moves c)
    (ended : (w.run moves).phaseOf c = .finished out) : (w.run moves).IsLoud c ↔
      (∃ e, out = .failed e ∧ e.isViolation) ∧ ¬w.IsHeir moves c := by
  cases breached : ((w.run moves).phaseOf c).isBreached with
  | true =>
    rw [g.loud breached, iff_and_self]
    rintro -
    rw [ended] at breached
    cases out with
    | failed e => exact ⟨e, rfl, breached⟩
    | _ => cases breached
  | false =>
    refine iff_of_false (g.still (by rw [ended]; rintro ⟨⟩) breached) ?_
    rintro ⟨⟨e, rfl, violation⟩, -⟩
    rw [ended] at breached
    exact Bool.false_ne_true (breached.symm.trans violation)

/-- A call that sets out to sweep raises no alarm. -/
theorem Regular.silent_sweep (h : w.Regular) (hc : w.calls.size ≤ c)
    (candid : ∀ before o, before <+: moves → w.Candid before o)
    (made : w.errandOf c moves = some (b, .sweep)) : ¬(w.run moves).IsLoud c := by
  obtain ⟨before, gated, after, rfl, allowed, rfl⟩ := exists_errand hc made
  have here := h.run before
  have begun : (w.run before).step (.start b gated .sweep) = (w.run before).begin b gated .sweep :=
    if_pos allowed
  rw [run_append]
  refine (here.step (.start b gated .sweep)).silent_run ?_ ?_ ?_ after
  · rw [begun, calls_begin, calls_size_addCall]
    exact Nat.lt_succ_self _
  · rw [begun, phaseOf_begin, if_pos rfl]
    rfl
  · rw [here.isLoud_other (by rintro ⟨⟩)]
    exact fun loud => Nat.lt_irrefl _ ((candid before _ (List.prefix_append _ _)).made loud)

theorem Course.fails {ticks : List Tick} (h : Course m w c p ticks (some (.failed e)))
    (violation : e.isViolation) : p.isBreached := by
  cases h with
  | fail => exact violation
  | reject => rfl

/-- What a call has announced that is a breach, it has raised an alarm for. -/
theorem announced_loud (h : w.Regular) (silent : ∀ o, w.announcedBy o = none)
    (candid : ∀ before o, before <+: moves → w.Candid before o)
    (told : (w.run moves).announcedBy o = some (.failed e)) (violation : e.isViolation) :
    (w.run moves).IsLoud o := by
  induction moves using List.reverseRecOn with
  | nil => cases (silent o).symm.trans told
  | append_singleton moves m ih =>
    have earlier : ∀ before o, before <+: moves → w.Candid before o := fun before o part =>
      candid before o (part.trans (List.prefix_append moves [m]))
    have here := h.run moves
    rw [run_concat] at told ⊢
    rcases (w.run moves).step_course m with ⟨c, actor, p, ticks, x, course, adv⟩ |
      ⟨b, gated, errand, -, -, he⟩ | ⟨-, hushed⟩
    · rw [adv.announced] at told
      split at told
      · rename_i own
        subst own
        cases x with
        | none => exact here.isLoud_step m (ih earlier told)
        | some y =>
          cases told
          have g := candid (moves ++ [m]) o (List.prefix_refl _)
          have place : ((w.run moves).step m).phaseOf o = p := by rw [adv.phaseOf, if_pos rfl]
          rw [← run_concat] at place ⊢
          refine (g.loud (by rw [place]; exact course.fails violation)).2 fun heir => ?_
          have opening := course.announces (Option.some_ne_none _)
          rcases isHeir_concat.1 heir with before | now
          · have past := before.over
            cases hp : (w.run moves).phaseOf o <;> simp_all [Phase.isOver, Phase.isOpening]
          · have prone := now.pending.1
            cases hp : (w.run moves).phaseOf o <;> simp_all [Phase.isProne, Phase.isOpening]
      · exact here.isLoud_step m (ih earlier told)
    · rw [he, announcedBy_begin] at told
      exact here.isLoud_step m (ih earlier told)
    · rw [hushed.announced] at told
      exact here.isLoud_step m (ih earlier told)

end System

end TunerBroker
