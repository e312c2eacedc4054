import TunerBroker.Proofs.Closes.Desertion
import TunerBroker.Proofs.Closes.Scores

/-! The counters of a broker balance. Every stream that was counted as opened is listed, waits for its
close, or was counted as closed, as long as no teardown is abandoned; and each counter is the number of
the events it counts. -/

namespace TunerBroker

namespace Phase

theorem holds_eq_closes {p : Phase} (busy : p.closes ≠ []) : p.holds = p.closes := by
  cases p <;> first | rfl | exact absurd rfl busy

end Phase

namespace System

variable {m : Move} {w w' : System} {b : BrokerId} {c d : CallId} {s : StreamId} {p : Phase}
  {moves : List Move} {failed : List CallId} {torn : List (StreamId × Except StreamError Unit)}
  {delisted : List StreamId}

/-- A call that has something to close goes on with nothing but that. -/
theorem Course.holds {ticks : List Tick} {x : Option Announcement} (course : Course m w c p ticks x)
    (busy : (w.phaseOf c).closes ≠ []) : p.holds = p.closes := by
  cases course with
  | stay => exact Phase.holds_eq_closes busy
  | lone borrows => cases hp : w.phaseOf c <;> simp [hp, Phase.closes, Phase.borrows] at busy borrows
  | _ => simp_all [Phase.closes, Phase.holds]

theorem holds_step_of_closes (busy : (w.phaseOf c).closes ≠ []) (m : Move) :
    ((w.step m).phaseOf c).holds = ((w.step m).phaseOf c).closes := by
  by_cases actor : m.actor = some c
  · obtain ⟨p, ticks, x, course, adv⟩ := step_fares (w := w) actor
    rw [adv.phaseOf, if_pos rfl]
    exact course.holds busy
  · have hc : c < w.calls.size := w.lt_of_phaseOf c fun hp => by simp [hp, Phase.closes] at busy
    rw [(step_other hc actor).1]
    exact Phase.holds_eq_closes busy

/-! ### Streams that were listed -/

/-- The streams that a broker has taken off its lists: each is waiting for its close, or has been
closed. -/
structure Delisted (w : System) (b : BrokerId) (delisted : List StreamId) : Prop where
  nodup : delisted.Nodup
  spent : ∀ s ∈ delisted, w.Spent s
  past : ∀ s ∈ delisted, w.InCare b s ∨ w.Buried s
  all : ∀ {c s}, w.brokerOf c = b → s ∈ (w.phaseOf c).closes → s ∈ delisted

theorem mem_delists : s ∈ w.delists b m ↔ s ∈ w.listed b ∧ s ∉ (w.step m).listed b := by
  simp [delists]

/-- What a call has to close after a step it had to close before, or the step takes it off the list. -/
theorem mem_delists_of_closes (h : w.Poised) (g : w.Sound) (wired : w.Wired w.jobs)
    (hb : (w.step m).brokerOf c = b) (hs : s ∈ ((w.step m).phaseOf c).closes) :
    w.brokerOf c = b ∧ s ∈ (w.phaseOf c).closes ∨ s ∈ w.delists b m := by
  rw [brokerOf_step hs] at hb
  refine ((step_handover h g wired m).closes hs).imp (And.intro hb) ?_
  rintro ⟨-, k, hl⟩
  refine mem_delists.2 ⟨(mem_listed _ _ _).2 ⟨k, hb ▸ hl⟩, fun listed => ?_⟩
  obtain ⟨k', hl'⟩ := (mem_listed _ _ _).1 listed
  exact (g.step m).custody.unlisted (Phase.owns_subset _ (Phase.closes_subset _ hs)) b k' hl'

section Step

variable (h : w.Poised) (g : w.Sound) (l : w.Ledger) (wired : w.Wired w.jobs)
  (kept : m.leaves (w.desertsOn b) = [])

include h g l wired kept

/-- A stream in care stays there until it has been closed. -/
theorem inCare_or_buried (care : w.InCare b s) :
    (w.step m).InCare b s ∨ (w.step m).Buried s := by
  have turnover := step_turnover h g wired m b
  rw [kept] at turnover
  cases turnover with
  | keeps nodup within care' => exact .inl ((care' s).2 ⟨care, List.not_mem_nil⟩)
  | gains none new care' => exact .inl ((care' s).2 (.inl care))
  | @loses c t none old closes care' closed =>
    by_cases hs : s = t
    · subst hs
      have sealing := (h.sealing g closes).step l g m
      refine .inr ⟨sealing.spent, closed, fun d hd => ?_⟩
      obtain rfl := sealing.alone d hd
      rw [holds_step_of_closes (List.ne_nil_of_mem closes) m] at hd
      have mine : w.brokerOf d = b := g.custody.inCare_unique (.inr ⟨d, rfl, closes⟩) care
      exact ((care' s).1 (.inr ⟨d, (brokerOf_step hd).trans mine, hd⟩)).2 rfl
    · exact .inl ((care' s).2 ⟨care, hs⟩)

theorem Delisted.step (past : w.Delisted b delisted) :
    (w.step m).Delisted b (delisted ++ w.delists b m) where
  nodup := by
    refine List.nodup_append.2 ⟨past.nodup, (g.custody.nodup_listed b).filter _, ?_⟩
    rintro s hs _ ht rfl
    obtain ⟨k, hl⟩ := (mem_listed _ _ _).1 (mem_delists.1 ht).1
    exact (past.spent s hs).unlisted b k hl
  spent s hs := by
    rcases List.mem_append.1 hs with hs | hs
    · exact ((past.spent s hs).step l g m).1
    · obtain ⟨listed, off⟩ := mem_delists.1 hs
      obtain ⟨k, hl⟩ := (mem_listed _ _ _).1 listed
      exact spent_of_delisted l g hl fun hn => off ((mem_listed _ _ _).2 ⟨k, hn⟩)
  past s hs := by
    rcases List.mem_append.1 hs with hs | hs
    · rcases past.past s hs with care | buried
      · exact inCare_or_buried h g l wired kept care
      · exact .inr (buried.step l g m)
    · exact inCare_or_buried h g l wired kept (.inl ((mem_listed _ _ _).1 (mem_delists.1 hs).1))
  all hb hs := by
    rcases mem_delists_of_closes h g wired hb hs with ⟨hb, hs⟩ | hs
    · exact List.mem_append_left _ (past.all hb hs)
    · exact List.mem_append_right _ hs

end Step

/-- What is in the care of a broker is listed, or off the lists and not closed yet. -/
theorem Delisted.card (past : w.Delisted b delisted) (h : w.Poised) (g : w.Sound)
    (wired : w.Wired w.jobs) {care : Finset StreamId} (mem : ∀ s, s ∈ care ↔ w.InCare b s) :
    care.card =
      w.streamCount b + (delisted.filter fun s => (w.stream s).lifecycle ≠ .closed).length := by
  have apart : Disjoint (w.listed b).toFinset
      (delisted.filter fun s => (w.stream s).lifecycle ≠ .closed).toFinset := by
    refine Finset.disjoint_left.2 fun s listed hs => ?_
    obtain ⟨k, hl⟩ := (mem_listed _ _ _).1 (List.mem_toFinset.1 listed)
    exact (past.spent s (List.mem_of_mem_filter (List.mem_toFinset.1 hs))).unlisted b k hl
  have parts : care = (w.listed b).toFinset ∪
      (delisted.filter fun s => (w.stream s).lifecycle ≠ .closed).toFinset := by
    ext s
    rw [mem, Finset.mem_union, List.mem_toFinset, List.mem_toFinset, mem_listed, List.mem_filter,
      decide_eq_true_eq]
    refine or_congr_right' fun unlisted => ⟨?_, ?_⟩
    · rintro ⟨c, hb, hs⟩
      refine ⟨past.all hb hs, fun closed => ?_⟩
      have up := wired.up_of_closes h.ahead hs
      simp [Stream.IsUp, closed] at up
    · rintro ⟨hs, pending⟩
      rcases past.past s hs with (listed | closes) | buried
      · exact absurd listed unlisted
      · exact closes
      · exact absurd buried.closed pending
  rw [parts, Finset.card_union_of_disjoint apart, List.toFinset_card_of_nodup
    (g.custody.nodup_listed b), List.toFinset_card_of_nodup (past.nodup.filter _),
    streamCount_eq_length]

/-! ### What is counted -/

/-- A change of what is in care is counted as an open or a close. -/
theorem Turnover.care (turnover : Turnover w w' b []) {care : Finset StreamId}
    (mem : ∀ s, s ∈ care ↔ w.InCare b s) :
    ∃ care' : Finset StreamId, (∀ s, s ∈ care' ↔ w'.InCare b s) ∧
      ((w'.countersOf b).flow = (w.countersOf b).flow ∧ care'.card = care.card ∨
        (w'.countersOf b).flow = ((w.countersOf b).opens + 1, (w.countersOf b).closes) ∧
          care'.card = care.card + 1 ∨
        (w'.countersOf b).flow = ((w.countersOf b).opens, (w.countersOf b).closes + 1) ∧
          care.card = care'.card + 1) := by
  cases turnover with
  | keeps nodup within care' flow =>
    exact ⟨care, fun s => by rw [mem, care']; simp, .inl ⟨flow, rfl⟩⟩
  | @gains s none new care' flow =>
    refine ⟨insert s care, fun t => ?_, .inr (.inl ⟨flow, ?_⟩)⟩
    · rw [Finset.mem_insert, mem, care', or_comm]
    · exact Finset.card_insert_of_notMem fun hs => new ((mem s).1 hs)
  | @loses c s none old closes care' closed flow =>
    refine ⟨care.erase s, fun t => ?_, .inr (.inr ⟨flow, ?_⟩)⟩
    · rw [Finset.mem_erase, mem, care', and_comm]
    · exact (Finset.card_erase_add_one ((mem s).2 old)).symm

/-- The counters of a broker where calls have been served, the opens of `failed` have failed and the
teardowns `torn` have ended. -/
def Reckoned (w : System) (b : BrokerId) (failed : List CallId)
    (torn : List (StreamId × Except StreamError Unit)) : Prop :=
  ∃ (care : Finset StreamId) (opens reuses : Nat), (∀ s, s ∈ care ↔ w.InCare b s) ∧
    w.countersOf b = ⟨.ofNat opens, .ofNat reuses, .ofNat failed.length, .ofNat torn.length,
      .ofNat (torn.countP fun x => failsToShut x.2)⟩ ∧
    opens = torn.length + care.card ∧ opens + reuses = (w.servedOn b).card

theorem Reckoned.step (reckoned : w.Reckoned b failed torn) (scores : Scores m w b)
    (turnover : Turnover w (w.step m) b []) :
    (w.step m).Reckoned b (failed ++ w.failsOpen b m) (torn ++ w.teardownsOn b m) := by
  obtain ⟨care, opens, reuses, mem, counters, sum, served⟩ := reckoned
  obtain ⟨care', mem', change⟩ := turnover.care mem
  -- The change in care is the one that the counters show; a word that is counted up changes.
  cases scores with
  | nothing same served' failed' torn' =>
    refine ⟨care', opens, reuses, mem', ?_, ?_, by rw [served', served]⟩
    · rw [failed', torn', List.append_nil, List.append_nil, same, counters]
    · rw [same] at change
      simp [Counters.flow] at change
      rw [torn', List.append_nil, sum, change]
  | @serves c t tick new counted served' failed' torn' =>
    rw [failed', torn', List.append_nil, List.append_nil]
    have card : ((w.step m).servedOn b).card = (w.servedOn b).card + 1 := by
      rw [served', Finset.card_insert_of_notMem new]
    rw [counted] at change
    rcases tick with rfl | rfl
    · simp [Counters.flow, Counters.record] at change
      refine ⟨care', opens + 1, reuses, mem', ?_, by omega, by omega⟩
      rw [counted, counters, UInt64.ofNat_add]
      rfl
    · simp [Counters.flow, Counters.record] at change
      refine ⟨care', opens, reuses + 1, mem', ?_, by omega, by omega⟩
      rw [counted, counters, UInt64.ofNat_add]
      rfl
  | fails opening ended hb counted served' failed' torn' =>
    rw [counted] at change
    simp [Counters.flow, Counters.record] at change
    refine ⟨care', opens, reuses, mem', ?_, ?_, by rw [served', served]⟩
    · rw [failed', torn', List.append_nil, List.length_append, counted, counters,
        List.length_singleton, UInt64.ofNat_add]
      rfl
    · rw [torn', List.append_nil, sum, change]
  | @tears s result fault counted served' failed' torn' =>
    refine ⟨care', opens, reuses, mem', ?_, ?_, by rw [served', served]⟩
    · rw [failed', torn', List.append_nil, List.length_append, List.countP_append, counted, counters,
        List.length_singleton, List.countP_singleton, UInt64.ofNat_add]
      cases result with
      | ok u => rfl
      | error e =>
        obtain ⟨k, f, rfl⟩ := fault e rfl
        rw [UInt64.ofNat_add]
        rfl
    · have flow : ((w.step m).countersOf b).flow =
          ((w.countersOf b).opens, (w.countersOf b).closes + 1) := by
        rw [counted]
        refine flow_closeTicks (fun e he => ?_) _
        obtain ⟨k, f, rfl⟩ := fault e he
        rfl
      rw [flow] at change
      simp [Counters.flow] at change
      rw [torn', List.length_append, List.length_singleton]
      omega

/-- Calls whose opens have failed are over. -/
structure Failures (w : System) (b : BrokerId) (failed : List CallId) : Prop where
  nodup : failed.Nodup
  past : ∀ c ∈ failed, c ∈ w.callsOn b ∧ (w.phaseOf c).isOver

theorem Failures.step (h : w.Failures b failed) (scores : Scores m w b) :
    (w.step m).Failures b (failed ++ w.failsOpen b m) := by
  have stays : ∀ c ∈ w.callsOn b, c ∈ (w.step m).callsOn b := fun c hc => by
    obtain ⟨lt, hb⟩ := mem_callsOn.1 hc
    obtain ⟨lt', hb'⟩ := step_keeps lt m
    exact mem_callsOn.2 ⟨lt', hb'.trans hb⟩
  have past : ∀ c ∈ failed, c ∈ (w.step m).callsOn b ∧ ((w.step m).phaseOf c).isOver := fun c hc => by
    obtain ⟨on, ended⟩ := h.past c hc
    exact ⟨stays c on, by rwa [step_over m ended (mem_callsOn.1 on).1]⟩
  cases scores with
  | nothing _ _ failed' | serves _ _ _ _ failed' | tears _ _ _ failed' =>
    rw [failed', List.append_nil]
    exact ⟨h.nodup, past⟩
  | @fails c opening ended hb _ _ failed' =>
    rw [failed']
    refine ⟨List.nodup_append.2 ⟨h.nodup, List.nodup_singleton c, ?_⟩, fun d hd => ?_⟩
    · rintro d hd _ hc rfl
      obtain rfl := List.mem_singleton.1 hc
      have ended := (h.past d hd).2
      cases hp : w.phaseOf d <;> simp [hp, Phase.isOpening, Phase.isOver] at opening ended
    · rcases List.mem_append.1 hd with hd | hd
      · exact past d hd
      · obtain rfl := List.mem_singleton.1 hd
        refine ⟨stays d (mem_callsOn.2 ⟨w.lt_of_phaseOf d fun hp => ?_, hb⟩), ended⟩
        rw [hp] at opening
        cases opening

/-! ### Every run -/

/-- No call on the broker is abandoned in the course of a run while it has a stream to close. -/
def KeepsTeardowns (w : System) (b : BrokerId) (moves : List Move) : Prop :=
  ∀ before c after, moves = before ++ .abandon c :: after → (w.run before).brokerOf c = b →
    ((w.run before).phaseOf c).closes = []

theorem KeepsTeardowns.concat (h : w.KeepsTeardowns b (moves ++ [m])) :
    w.KeepsTeardowns b moves ∧ m.leaves ((w.run moves).desertsOn b) = [] := by
  refine ⟨fun before c after he => h before c (after ++ [m]) (by simp [he]), ?_⟩
  refine leaves_eq_nil fun c hm => ?_
  rw [desertsOn]
  split
  · exact Phase.deserts_eq_nil (h moves c [] (by rw [hm]) ‹_›)
  · rfl

section Run

variable (h : w.Poised) (g : w.Sound) (l : w.Ledger) (wired : w.Wired w.jobs)

include h g l wired

theorem Delisted.run (past : w.Delisted b []) (kept : w.KeepsTeardowns b moves) :
    (w.run moves).Delisted b (w.along (delists b) moves) := by
  induction moves using List.reverseRecOn with
  | nil => exact past
  | append_singleton moves m ih =>
    obtain ⟨kept, none⟩ := kept.concat
    rw [along_concat, run_concat]
    exact (ih kept).step (h.run g l wired moves) (g.run moves) (l.run g moves) (wired.run moves) none

theorem Failures.run (past : w.Failures b []) (moves : List Move) :
    (w.run moves).Failures b (w.along (failsOpen b) moves) := by
  induction moves using List.reverseRecOn with
  | nil => exact past
  | append_singleton moves m ih =>
    rw [along_concat, run_concat]
    exact ih.step (step_scores (h.run g l wired moves) (g.run moves) (wired.run moves) m b)

theorem Reckoned.run (past : w.Reckoned b [] []) (kept : w.KeepsTeardowns b moves) :
    (w.run moves).Reckoned b (w.along (failsOpen b) moves) (w.along (teardownsOn b) moves) := by
  induction moves using List.reverseRecOn with
  | nil => exact past
  | append_singleton moves m ih =>
    obtain ⟨kept, none⟩ := kept.concat
    have h' := h.run g l wired moves
    have turnover := step_turnover h' (g.run moves) (wired.run moves) m b
    rw [none] at turnover
    rw [along_concat, along_concat, run_concat]
    exact (ih kept).step (step_scores h' (g.run moves) (wired.run moves) m b) turnover

end Run

theorem reckoned_fresh (configs : List BrokerConfig) (desk : AccessDesk) (terms : List TunerTerms)
    (b : BrokerId) : (fresh configs desk terms).Reckoned b [] [] := by
  obtain ⟨care, opens, closes, mem, -, sum, le⟩ := balanced_fresh configs desk terms b
  refine ⟨care, 0, 0, mem, (broker_fresh configs desk terms b).2, ?_, rfl⟩
  rw [List.length_nil]
  omega

theorem delisted_fresh (configs : List BrokerConfig) (desk : AccessDesk) (terms : List TunerTerms)
    (b : BrokerId) : (fresh configs desk terms).Delisted b [] :=
  ⟨List.nodup_nil, by rintro _ ⟨⟩, by rintro _ ⟨⟩, by rintro _ _ _ ⟨⟩⟩

/-- In every run with fewer than 2⁶⁴ calls on a broker, none of them abandoned while it has a stream to
close, the counters of the broker balance at every moment. Streams opened are those closed, those listed,
and those taken off the lists but not closed yet. Opens and reuses are the calls that came to a consumer.
Failed opens are the calls whose own open came to an error: neither those that waited for it, nor opens
that were abandoned or gave a stream that was rejected. Closes are the teardowns that ended, and failed
closes those of them that ended in an error of the shutdown. So no more is closed than was opened, the
streams open by the counters are the difference, and where no teardown is under way, they are those
listed. -/
theorem counters_balance (configs : List BrokerConfig) (desk : AccessDesk) (terms : List TunerTerms)
    (moves : List Move) (b : BrokerId) :
    let w₀ := fresh configs desk terms
    let w := w₀.run moves
    let counted := w.countersOf b
    (w.callsOn b).card < 2 ^ 64 → w₀.KeepsTeardowns b moves →
      counted.opens.toNat = counted.closes.toNat + w.streamCount b +
        ((w₀.along (delists b) moves).filter fun s => (w.stream s).lifecycle ≠ .closed).length ∧
      counted.opens.toNat + counted.reuses.toNat = (w.servedOn b).card ∧
      counted.openFailures.toNat = (w₀.along (failsOpen b) moves).length ∧
      counted.closes.toNat = (w₀.along (teardownsOn b) moves).length ∧
      counted.closeFailures.toNat =
        (w₀.along (teardownsOn b) moves).countP (fun x => failsToShut x.2) ∧
      counted.closeFailures ≤ counted.closes ∧ counted.closes ≤ counted.opens ∧
      counted.openStreams.toNat = counted.opens.toNat - counted.closes.toNat ∧
      ((∀ c, w.brokerOf c = b → (w.phaseOf c).closes = []) →
        counted.openStreams.toNat = w.streamCount b) := by
  intro w₀ w counted few kept
  have g₀ := sound_fresh configs desk terms
  have l₀ := ledger_fresh configs desk terms
  have wired₀ := wired_fresh configs desk terms
  have h₀ := poised_fresh configs desk terms
  have h : w.Poised := h₀.run g₀ l₀ wired₀ moves
  have g : w.Sound := g₀.run moves
  have delisted : w.Delisted b (w₀.along (delists b) moves) :=
    (delisted_fresh configs desk terms b).run h₀ g₀ l₀ wired₀ kept
  have failures : w.Failures b (w₀.along (failsOpen b) moves) :=
    Failures.run h₀ g₀ l₀ wired₀ ⟨List.nodup_nil, by rintro _ ⟨⟩⟩ moves
  have reckoned : w.Reckoned b (w₀.along (failsOpen b) moves) (w₀.along (teardownsOn b) moves) :=
    (reckoned_fresh configs desk terms b).run h₀ g₀ l₀ wired₀ kept
  obtain ⟨care, opens, reuses, mem, counters, sum, served⟩ := reckoned
  have card := delisted.card h g (wired₀.run moves) mem
  -- All numbers are within the number of calls, so that no counter has wrapped.
  have least : (w.servedOn b).card ≤ (w.callsOn b).card := Finset.card_le_card servedOn_subset
  have failed : (w₀.along (failsOpen b) moves).length ≤ (w.callsOn b).card := by
    rw [← List.toFinset_card_of_nodup failures.nodup]
    exact Finset.card_le_card fun c hc => (failures.past c (List.mem_toFinset.1 hc)).1
  have shut := List.countP_le_length (p := fun x => failsToShut x.2)
    (l := w₀.along (teardownsOn b) moves)
  have within : ∀ {n : Nat}, n ≤ (w.callsOn b).card → (UInt64.ofNat n).toNat = n := fun hn =>
    UInt64.toNat_ofNat_of_lt' (Nat.lt_of_le_of_lt hn few)
  have opens' : counted.opens.toNat = opens := by
    rw [show counted.opens = _ from congrArg Counters.opens counters]
    exact within (by omega)
  have reuses' : counted.reuses.toNat = reuses := by
    rw [show counted.reuses = _ from congrArg Counters.reuses counters]
    exact within (by omega)
  have failures' : counted.openFailures.toNat = (w₀.along (failsOpen b) moves).length := by
    rw [show counted.openFailures = _ from congrArg Counters.openFailures counters]
    exact within failed
  have closes' : counted.closes.toNat = (w₀.along (teardownsOn b) moves).length := by
    rw [show counted.closes = _ from congrArg Counters.closes counters]
    exact within (by omega)
  have closeFailures' : counted.closeFailures.toNat =
      (w₀.along (teardownsOn b) moves).countP fun x => failsToShut x.2 := by
    rw [show counted.closeFailures = _ from congrArg Counters.closeFailures counters]
    exact within (by omega)
  have order : counted.closes ≤ counted.opens := by
    rw [UInt64.le_iff_toNat_le]
    omega
  have streams : counted.openStreams.toNat = counted.opens.toNat - counted.closes.toNat := by
    rw [Counters.openStreams, if_pos order, UInt64.toNat_sub_of_le _ _ order]
  refine ⟨by omega, by omega, failures', closes', closeFailures', ?_, order, streams, fun settled => ?_⟩
  · rw [UInt64.le_iff_toNat_le]
    omega
  · -- What is off the lists and not closed would be some call's to close.
    have none : ((w₀.along (delists b) moves).filter fun s => (w.stream s).lifecycle ≠ .closed) = [] := by
      refine List.filter_eq_nil_iff.2 fun s hs pending => ?_
      rcases delisted.past s hs with (⟨k, listed⟩ | ⟨c, hb, closes⟩) | buried
      · exact (delisted.spent s hs).unlisted b k listed
      · rw [settled c hb] at closes
        cases closes
      · exact of_decide_eq_true pending buried.closed
    rw [none, List.length_nil] at card
    omega

/-- Two consumers come to a stream and go, and its shutdown fails. Then an open fails, and another
consumer comes and is about to have its stream closed. -/
def failuresAndTeardown : List Move :=
  lastIsToGo ++ [.turn (.call 3), .turn (.call 3), .turn (.pump 0), .turn (.call 3), .turn (.call 3),
    .start 0 false sampleErrand, .turn (.call 4), .turn (.call 4), .turn (.call 4),
    .start 0 false sampleErrand, .turn (.call 5), .turn (.call 5), .turn (.call 5),
    .start 0 false (.release 2), .turn (.call 6)]

/-- The tuner fails to shut the first connection down, and refuses the second. -/
def failingTerms : List TunerTerms := [{ shutdownFailure := some "reset" }, { failure := some "busy" }]

theorem keepsTeardowns_of_notMem (h : ∀ c, .abandon c ∉ moves) : w.KeepsTeardowns b moves := by
  rintro before c after rfl
  exact absurd (List.mem_append_right before List.mem_cons_self) (h c)

theorem counters_balance_failuresAndTeardown :
    let w₀ := fresh [{}] {} failingTerms
    let w := w₀.run failuresAndTeardown
    (w.callsOn 0).card < 2 ^ 64 ∧ w₀.KeepsTeardowns 0 failuresAndTeardown ∧
      w.countersOf 0 = ⟨2, 1, 1, 1, 1⟩ ∧
      (w.countersOf 0).opens.toNat = (w.countersOf 0).closes.toNat + w.streamCount 0 +
        ((w₀.along (delists 0) failuresAndTeardown).filter fun s =>
          (w.stream s).lifecycle ≠ .closed).length ∧
      (w.countersOf 0).closeFailures.toNat =
        (w₀.along (teardownsOn 0) failuresAndTeardown).countP (fun x => failsToShut x.2) ∧
      w₀.along (delists 0) failuresAndTeardown = [0, 2] ∧
      w₀.along (failsOpen 0) failuresAndTeardown = [4] := by
  intro w₀ w
  have seven : w.calls.size = 7 := by decide +kernel
  have few := (card_callsOn_le w 0).trans_lt (seven ▸ (by decide : 7 < 2 ^ 64))
  have kept : w₀.KeepsTeardowns 0 failuresAndTeardown :=
    keepsTeardowns_of_notMem fun c hc => by
      simp [failuresAndTeardown, lastIsToGo, oneComes, anotherComesAndGoes] at hc
  obtain ⟨balance, -, -, -, failures, -⟩ :=
    counters_balance [{}] {} failingTerms failuresAndTeardown 0 few kept
  exact ⟨few, kept, by decide +kernel, balance, failures, by decide +kernel, by decide +kernel⟩

end System

end TunerBroker
