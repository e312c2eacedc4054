import TunerBroker.Proofs.Closes.Turnover

/-! What a broker counts, step by step. A call that comes to a consumer counts an open or a reuse, one
whose own open fails counts that, and one that takes a teardown to its end counts a close; nothing else
is counted. -/

namespace TunerBroker

namespace Phase

/-- The call has come to an error. -/
def isFailed : Phase → Bool
  | finished (.failed _) => true
  | _ => false

variable {p : Phase} {s : StreamId} {stage : Option CloseStage} {rest : List StreamId}

theorem attached?_onward (h : p.closing? = some (s, stage)) (x : CloseStage) :
    (p.onward x).attached? = none := by
  cases p with
  | sweeping current left n => cases current <;> cases left <;> rfl
  | tearing => rfl
  | _ => cases h

theorem attached?_ended (h : p.closing? = some (s, stage)) (result : Except StreamError Unit) :
    (p.ended result).attached? = none := by
  cases p with
  | sweeping current left n => cases current <;> cases left <;> rfl
  | tearing => cases result <;> rfl
  | _ => cases h

end Phase

/-- A teardown has ended in an error of the shutdown. -/
def failsToShut : Except StreamError Unit → Bool
  | .error (.shutdown _ _) => true
  | _ => false

/-- The calls that a move is a turn of. -/
def Move.turns : Move → List CallId
  | turn (.call c) => [c]
  | _ => []

theorem Move.actor_of_turns {m : Move} {c : CallId} (h : c ∈ m.turns) : m.actor = some c := by
  cases m with
  | turn r =>
    cases r with
    | call d =>
      rw [List.mem_singleton.1 h]
      rfl
    | pump s => cases h
  | _ => cases h

namespace System

variable {m : Move} {w w' : System} {b : BrokerId} {c d : CallId} {s : StreamId} {p : Phase}
  {stage : Option CloseStage} {rest : List StreamId} {α : Type}

/-- What comes about in a run, where `f` says what comes about with a move. -/
def along (f : System → Move → List α) (w : System) : List Move → List α
  | [] => []
  | m :: moves => f w m ++ along f (w.step m) moves

theorem along_concat (f : System → Move → List α) (w : System) (moves : List Move) (m : Move) :
    w.along f (moves ++ [m]) = w.along f moves ++ f (w.run moves) m := by
  induction moves generalizing w with
  | nil => exact List.append_nil _
  | cons m' moves ih =>
    show f w m' ++ (w.step m').along f (moves ++ [m]) = _
    rw [ih, ← List.append_assoc]
    rfl

theorem along_concat_nil {f : System → Move → List α} {moves : List Move}
    (nil : f (w.run moves) m = []) : w.along f (moves ++ [m]) = w.along f moves := by
  rw [along_concat, nil, List.append_nil]

/-- What has come about in a run has come about in a longer one. -/
theorem mem_along_concat {f : System → Move → List α} {moves : List Move} {x : α}
    (h : x ∈ w.along f moves) (m : Move) : x ∈ w.along f (moves ++ [m]) := by
  rw [along_concat]
  exact List.mem_append_left _ h

/-! ### What is to be counted -/

/-- The calls made on a broker. -/
def callsOn (w : System) (b : BrokerId) : Finset CallId :=
  (Finset.range w.calls.size).filter (w.brokerOf · = b)

/-- The calls on a broker that have come to a consumer. -/
def servedOn (w : System) (b : BrokerId) : Finset CallId :=
  (w.callsOn b).filter fun c => (w.phaseOf c).attached?.isSome

/-- The streams that a move takes off the lists of a broker. -/
def delists (b : BrokerId) (w : System) (m : Move) : List StreamId :=
  (w.listed b).filter fun s => s ∉ (w.step m).listed b

/-- The call on a broker whose own open comes to an error with the move, if it is a move of one. -/
def failsOpen (b : BrokerId) (w : System) (m : Move) : List CallId :=
  m.actor.toList.filter fun c =>
    w.brokerOf c = b ∧ (w.phaseOf c).isOpening ∧ ((w.step m).phaseOf c).isFailed

/-- The teardown on a broker that a move takes to its end. -/
def teardownsOn (b : BrokerId) (w : System) (m : Move) : List (StreamId × Except StreamError Unit) :=
  (m.turns.filter fun c => w.brokerOf c = b).flatMap w.tornDown

theorem mem_callsOn : c ∈ w.callsOn b ↔ c < w.calls.size ∧ w.brokerOf c = b := by
  simp [callsOn]

theorem card_callsOn_le (w : System) (b : BrokerId) : (w.callsOn b).card ≤ w.calls.size :=
  (Finset.card_filter_le _ _).trans (Finset.card_range _).le

theorem mem_servedOn : c ∈ w.servedOn b ↔ w.brokerOf c = b ∧ (w.phaseOf c).attached?.isSome := by
  rw [servedOn, Finset.mem_filter, mem_callsOn, and_assoc]
  refine and_iff_right_of_imp fun h => w.lt_of_phaseOf c fun hp => ?_
  rw [hp] at h
  cases h.2

theorem servedOn_subset : w.servedOn b ⊆ w.callsOn b := Finset.filter_subset _ _

theorem teardownsOn_eq_nil (h : ∀ c, m.actor = some c → w.brokerOf c = b → (w.phaseOf c).closes = []) :
    w.teardownsOn b m = [] := by
  refine List.flatMap_eq_nil_iff.2 fun c hc => ?_
  obtain ⟨turn, hb⟩ := List.mem_filter.1 hc
  exact tornDown_eq_nil (h c (Move.actor_of_turns turn) (of_decide_eq_true hb))

theorem failsOpen_eq_nil (h : ∀ c, m.actor = some c → w.brokerOf c = b → (w.phaseOf c).isOpening →
    ((w.step m).phaseOf c).isFailed = false) : w.failsOpen b m = [] := by
  refine List.filter_eq_nil_iff.2 fun c hc fails => ?_
  obtain ⟨hb, opening, failed⟩ := of_decide_eq_true fails
  rw [h c (Option.mem_toList.1 hc) hb opening] at failed
  cases failed

theorem failsToShut_shutResult (w : System) (s : StreamId) :
    failsToShut (w.shutResult s) = (w.shutFault s).isSome := by
  rw [shutResult]
  cases w.shutFault s <;> rfl

/-! ### What is counted -/

section Advance

variable {ticks : List Tick} {x : Option Announcement} (adv : Advance c p ticks x w w')

include adv

theorem Advance.servedOn_eq (same : w.brokerOf c = b →
    p.attached?.isSome = (w.phaseOf c).attached?.isSome) : w'.servedOn b = w.servedOn b := by
  ext d
  rw [mem_servedOn, mem_servedOn, adv.brokerOf, adv.phaseOf]
  split
  · rename_i hd
    rw [hd]
    exact and_congr_right fun hb => by rw [same hb]
  · rfl

theorem Advance.servedOn_insert (hb : w.brokerOf c = b) (attached : p.attached?.isSome) :
    w'.servedOn b = insert c (w.servedOn b) := by
  ext d
  rw [Finset.mem_insert, mem_servedOn, mem_servedOn, adv.brokerOf, adv.phaseOf]
  by_cases hd : d = c
  · simp [hd, hb, attached]
  · simp [hd]

end Advance

/-- What a move makes a broker count. -/
inductive Scores (m : Move) (w : System) (b : BrokerId) : Prop where
  | nothing (counters : (w.step m).countersOf b = w.countersOf b)
      (served : (w.step m).servedOn b = w.servedOn b) (failed : w.failsOpen b m = [])
      (torn : w.teardownsOn b m = [])
  /-- A call comes to a consumer. -/
  | serves {c : CallId} {t : Tick} (tick : t = .opened ∨ t = .reused) (new : c ∉ w.servedOn b)
      (counters : (w.step m).countersOf b = (w.countersOf b).record t)
      (served : (w.step m).servedOn b = insert c (w.servedOn b)) (failed : w.failsOpen b m = [])
      (torn : w.teardownsOn b m = [])
  /-- The open of a call fails. -/
  | fails {c : CallId} (opening : (w.phaseOf c).isOpening) (ended : ((w.step m).phaseOf c).isOver)
      (hb : w.brokerOf c = b) (counters : (w.step m).countersOf b = (w.countersOf b).record .openFailed)
      (served : (w.step m).servedOn b = w.servedOn b) (failed : w.failsOpen b m = [c])
      (torn : w.teardownsOn b m = [])
  /-- A teardown comes to its end. -/
  | tears {s : StreamId} {result : Except StreamError Unit}
      (fault : ∀ e, result = .error e → ∃ k f, e = .shutdown k f)
      (counters : (w.step m).countersOf b = (w.countersOf b).recordAll (closeTicks result))
      (served : (w.step m).servedOn b = w.servedOn b) (failed : w.failsOpen b m = [])
      (torn : w.teardownsOn b m = [(s, result)])

section Actor

variable (actor : m.actor = some c) (hb : w.brokerOf c = b)

include actor

/-- With a move that counts nothing no call comes to a consumer, no open fails and no teardown ends. -/
theorem Advance.scores_nothing {x : Option Announcement} (adv : Advance c p [] x w (w.step m))
    (same : w.brokerOf c = b → p.attached?.isSome = (w.phaseOf c).attached?.isSome)
    (failed : w.brokerOf c = b → (w.phaseOf c).isOpening → p.isFailed = false)
    (torn : w.teardownsOn b m = []) : Scores m w b := by
  refine .nothing ?_ (adv.servedOn_eq same) (failsOpen_eq_nil fun d hd hb opening => ?_) torn
  · rw [adv.counters, Counters.recordAll_nil, ite_self]
  · obtain rfl := Option.some.inj (actor.symm.trans hd)
    rw [adv.phaseOf, if_pos rfl]
    exact failed hb opening

include hb

/-- A call without a teardown counts the consumer it comes to, or the failure of its open. -/
theorem Course.scores {ticks : List Tick} {x : Option Announcement} (course : Course m w c p ticks x)
    (adv : Advance c p ticks x w (w.step m)) (g : w.Sound) (idle : (w.phaseOf c).closes = []) :
    Scores m w b := by
  have torn : w.teardownsOn b m = [] := teardownsOn_eq_nil fun d hd _ => by
    obtain rfl := Option.some.inj (actor.symm.trans hd)
    exact idle
  have here : (w.step m).phaseOf c = p := by rw [adv.phaseOf, if_pos rfl]
  have counters : (w.phaseOf c).isSeated →
      (w.step m).countersOf b = (w.countersOf b).recordAll ticks := fun seated => by
    rw [adv.counted (g.flight.seated c seated), if_pos hb.symm]
  -- A call that is served was not, and its open has not failed.
  have serves : ∀ {t}, ticks = [t] → t = .opened ∨ t = .reused → (w.phaseOf c).isSeated →
      p.attached?.isSome → Scores m w b := by
    rintro t rfl tick seated attached
    refine .serves tick (c := c) (fun served => ?_) (counters seated)
      (adv.servedOn_insert hb attached) (failsOpen_eq_nil fun d hd _ _ => ?_) torn
    · have before := (mem_servedOn.1 served).2
      cases hp : w.phaseOf c <;> simp [hp, Phase.isSeated, Phase.attached?] at seated before
    · obtain rfl := Option.some.inj (actor.symm.trans hd)
      rw [here]
      cases p with
      | finished o => cases o <;> first | rfl | cases attached
      | _ => rfl
  cases course with
  | reuse place => exact serves rfl (.inr rfl) (by rw [place]; rfl) rfl
  | give place => exact serves rfl (.inl rfl) (by rw [place]; rfl) rfl
  | @fail a s moves wait e place =>
    refine .fails (c := c) (by rw [place]; rfl) (by rw [here]; rfl) hb
      (counters (by rw [place]; rfl)) (adv.servedOn_eq fun _ => by rw [place]; rfl) ?_ torn
    simp [failsOpen, actor, hb, here, place, Phase.isOpening, Phase.isFailed]
  | stay =>
    refine adv.scores_nothing actor (fun _ => rfl) (fun _ opening => ?_) torn
    cases hp : w.phaseOf c <;> simp [hp, Phase.isOpening] at opening ⊢
    rfl
  | abandon move suspended =>
    refine adv.scores_nothing actor (fun _ => ?_) (fun _ _ => rfl) torn
    cases hp : w.phaseOf c <;> simp [hp, Phase.isSuspended] at suspended <;> rfl
  | lone borrows next =>
    refine adv.scores_nothing actor (fun _ => ?_) (fun _ opening => ?_) torn
    · rw [(Phase.borrower borrows).2.1]
      rcases next with same | ⟨-, none⟩
      · rw [(Phase.borrower (same ▸ List.mem_singleton_self _)).2.1]
      · rw [none]
    · cases hp : w.phaseOf c <;> simp [hp, Phase.isOpening, Phase.borrows] at opening borrows
  | tear place | torn result place => simp [place, Phase.closes] at idle
  | sweeping place owns | swept result place owns =>
    rw [place] at idle owns
    exact absurd (owns.symm.trans idle) (List.cons_ne_nil _ _)
  | _ =>
    refine adv.scores_nothing actor (fun _ => ?_) (fun _ opening => ?_) torn <;>
      simp_all [Phase.attached?, Phase.isOpening, Phase.isFailed]

/-- A call with a teardown counts the end of it. -/
theorem scores_busy (h : w.Poised) (wired : w.Wired w.jobs) (busy : (w.phaseOf c).closes ≠ []) :
    Scores m w b := by
  obtain ⟨s, rest, closes⟩ := List.exists_cons_of_ne_nil busy
  obtain ⟨stage, closing⟩ := Phase.closing?_of_closes closes
  have seated : b < w.brokers.size := hb ▸ h.seated (closes ▸ List.mem_cons_self)
  have unopened : (w.phaseOf c).isOpening = false := by
    cases hp : w.phaseOf c <;> simp [hp, Phase.closes] at busy <;> rfl
  have unserved : (w.phaseOf c).attached? = none := by
    cases hp : w.phaseOf c <;> simp [hp, Phase.closes] at busy <;> rfl
  have failed : w.failsOpen b m = [] := failsOpen_eq_nil fun d hd _ opening => by
    obtain rfl := Option.some.inj (actor.symm.trans hd)
    rw [unopened] at opening
    cases opening
  cases m with
  | turn r =>
    cases r with
    | call d =>
      obtain rfl := Option.some.inj actor
      have turned : w.teardownsOn b (.turn (.call d)) = w.tornDown d := by
        simp [teardownsOn, Move.turns, hb]
      rcases turn_tears wired (fun t ht => h.ahead ht) closing with ⟨none, p, hp, adv⟩ |
        ⟨torn, ends⟩
      · refine adv.scores_nothing rfl (fun _ => ?_) (fun _ opening => ?_) (turned.trans none)
        · rcases hp with ⟨-, rfl⟩ | ⟨x, rfl⟩
          · rfl
          · rw [Phase.attached?_onward closing, unserved]
        · rw [unopened] at opening
          cases opening
      · refine .tears (fun e he => ?_) ?_ (ends.advance.servedOn_eq fun _ => ?_) failed (turned.trans torn)
        · obtain ⟨f, -, rfl⟩ := shutResult_error he
          exact ⟨_, f, rfl⟩
        · rw [ends.advance.counters, if_pos ⟨hb.symm, seated⟩]
        · rw [Phase.attached?_ended closing, unserved]
    | pump t => cases actor
  | abandon d =>
    obtain rfl := Option.some.inj actor
    by_cases suspended : (w.phaseOf d).isSuspended
    · have hd : d < w.calls.size := w.lt_of_phaseOf d fun hp => by simp [hp, Phase.closes] at busy
      have left : Advance d .abandoned [] none w (w.step (.abandon d)) := .abandon hd suspended
      exact left.scores_nothing rfl (fun _ => by rw [unserved]; rfl) (fun _ _ => rfl) rfl
    · have same : w.step (.abandon d) = w := by simp [step, abandon, suspended]
      exact .nothing (by rw [same]) (by rw [same]) failed rfl
  | provide d result =>
    obtain rfl := Option.some.inj actor
    have same : w.step (.provide d result) = w := by
      cases hp : w.phaseOf d <;> simp [hp, Phase.closes] at busy <;> simp [step, provide, hp]
    exact .nothing (by rw [same]) (by rw [same]) failed rfl
  | _ => cases actor

end Actor

/-- A move makes a broker count what comes about there, and nothing else. -/
theorem step_scores (h : w.Poised) (g : w.Sound) (wired : w.Wired w.jobs) (m : Move) (b : BrokerId) :
    Scores m w b := by
  rcases w.step_course m with ⟨c, actor, p, ticks, x, course, adv⟩ |
    ⟨b', gated, errand, rfl, -, he⟩ | ⟨none, hushed⟩
  · by_cases hb : w.brokerOf c = b
    · by_cases idle : (w.phaseOf c).closes = []
      · exact course.scores actor hb adv g idle
      · exact scores_busy actor hb h wired idle
    · have elsewhere : ∀ {d}, m.actor = some d → w.brokerOf d ≠ b := fun hd => by
        obtain rfl := Option.some.inj (actor.symm.trans hd)
        exact hb
      refine .nothing ?_ (adv.servedOn_eq fun he => absurd he hb)
        (failsOpen_eq_nil fun d hd he => absurd he (elsewhere hd))
        (teardownsOn_eq_nil fun d hd he => absurd he (elsewhere hd))
      rw [adv.counters, if_neg fun he => hb he.1.symm]
  · refine .nothing (by rw [he, countersOf_begin]) ?_ rfl rfl
    ext d
    rw [he, mem_servedOn, mem_servedOn, phaseOf_begin, brokerOf_begin]
    split
    · rename_i hd
      rw [w.phaseOf_of_size_le d hd.ge]
      cases errand <;> simp [Errand.origin, Phase.attached?]
    · rfl
  · refine .nothing (hushed.counters b) ?_ (failsOpen_eq_nil fun d hd => ?_)
      (teardownsOn_eq_nil fun d hd => ?_)
    · ext d
      rw [mem_servedOn, mem_servedOn, hushed.brokerOf, hushed.phaseOf]
    · rw [none] at hd
      cases hd
    · rw [none] at hd
      cases hd

end System

end TunerBroker
