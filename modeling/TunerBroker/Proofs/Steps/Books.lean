import Mathlib.Tactic.Set
import TunerBroker.Proofs.Steps.Change

/-! Each step changes the books in one of the few ways. The turns of a call are followed function by
function; what a turn does besides its one change comes about by itself. -/

namespace TunerBroker

namespace System

variable {m : Move} {w w₁ w' : System} {c : CallId} {a : Acquisition} {s : StreamId}
  {moves rest : List OpenMove} {wait : OpenWait} {p : Phase} {i j : Option Job}

theorem Books.still (h : Drift m w w') : Books m w w' := ⟨w, w, .refl w, .stay, h⟩

theorem Books.change (h : Change m w w') : Books m w w' := ⟨w, w', .refl w, h, .refl w'⟩

theorem Books.after (h : Books m w w₁) (g : Drift m w₁ w') : Books m w w' := by
  obtain ⟨u, v, h₁, h₂, h₃⟩ := h
  exact ⟨u, v, h₁, h₂, h₃.trans g⟩

theorem Books.note (h : Books m w w') (o : Option CallId) (e : Event) : Books m w (w'.note o e) :=
  h.after (.note (.refl w') o e)

theorem Books.record (h : Books m w w') (b : BrokerId) (t : Tick) : Books m w (w'.record b t) :=
  h.after (.record (.refl w') b t)

theorem Books.announce (h : Books m w w') (x : Announcement) : Books m w (w'.announce c x) :=
  h.after (.still (.announce (.refl w') c x))

theorem Books.reap (h : Books m w w') (t : StreamId) : Books m w (w'.reap t) :=
  h.after (.reap (.refl w') t)

/-- A call without a job goes on and takes none. -/
theorem Books.go (hm : m.actor = some c) (h : Drift m w w₁) (leads : (w.phaseOf c).Leads p)
    (idle : (w.phaseOf c).job? = none) (free : p.job? = none) : Books m w (w₁.setPhase c p) := by
  rw [← h.frame.phaseOf] at leads idle
  exact ⟨w₁, _, h, .go hm leads idle free, .refl _⟩

/-! ### Seeking -/

theorem leads_seeking (hp : w.phaseOf c = .seeking a) (h₁ : p.owns = []) (h₂ : p.borrows = [])
    (h₃ : p.opens? = none) (h₄ : p.wish? = none ∨ p.wish? = some a) (h₅ : p.releases? = none)
    (h₆ : p.attached? = none) : (w.phaseOf c).Leads p := by
  rw [hp]
  refine ⟨by simp [h₁], by simp [h₂], h₃, h₄, fun _ => rfl, ⟨rfl, h₅⟩, ⟨rfl, h₆⟩, ?_⟩
  cases p <;> simp_all [Phase.opens?, Phase.isOutside]

section Turn

variable (hm : m.actor = some c)

include hm

theorem books_enqueue (hp : w.phaseOf c = .seeking a)
    (hs : (w.slot (w.brokerOf c) a.key).shared = none) : Books m w (w.enqueue c a) := by
  simp only [enqueue]
  split
  · exact .go hm (.refl w) (leads_seeking hp rfl rfl rfl (.inr rfl) rfl rfl) (by rw [hp]; rfl) rfl
  · rename_i h
    exact .change (.open hp hs h hm)

theorem books_enqueue_demote (hp : w.phaseOf c = .seeking a)
    (hs : (w.slot (w.brokerOf c) a.key).shared = some s) (he : (w.stream s).isLive = false) :
    Books m w
      ((w.putSlot (w.brokerOf c) a.key (w.slot (w.brokerOf c) a.key).demote).enqueue c a) := by
  set x := w.slot (w.brokerOf c) a.key with hx
  have hb : w.brokerOf c < w.brokers.size := w.lt_of_slot _ a.key fun h => by
    rw [← hx] at h
    simp [h] at hs
  have hd : x.demote.isEmpty = false := by
    have : s ∈ x.demote.unshared := (x.mem_unshared_demote s).2 (.inl hs)
    cases h : x.demote.unshared <;> simp_all [Slot.isEmpty, Slot.hasStreams]
  simp only [enqueue, brokerOf_putSlot, slot_putSlot, hb, and_self, if_true,
    Slot.opening_demote]
  split
  · rename_i o h
    exact .change (.demoteJoin hp hs he h hm)
  · rename_i h
    have hput : (w.putSlot (w.brokerOf c) a.key x.demote).beginOpen c a x.demote =
        w.beginOpen c a x.demote := by
      simp only [beginOpen, brokerOf_putSlot]
      rw [putSlot_putSlot _ _ _ hd (by simp [Slot.isEmpty])]
    rw [hput]
    exact .change (.demote hp hs he h hm)

theorem books_seek (hp : w.phaseOf c = .seeking a) : Books m w (w.seek c a) := by
  have idle : (w.phaseOf c).job? = none := by rw [hp]; rfl
  simp only [seek]
  split
  · exact books_enqueue hm hp ‹_›
  · rename_i s hs
    split
    · exact .go hm (.note (.refl w) _ _) (leads_seeking hp rfl rfl rfl (.inl rfl) rfl rfl) idle rfl
    · rename_i hc
      split
      · rename_i hl
        split
        · exact .go hm (.note (.refl w) _ _) (leads_seeking hp rfl rfl rfl (.inl rfl) rfl rfl) idle
            rfl
        · rename_i hx
          refine .note (.record (.change (.reuse hp hs hc hl (fun x hx' => ?_) hm)) _ _) _ _
          have h := Option.filter_eq_none_iff.1 hx x hx'
          rw [decide_eq_true_eq, not_not] at h
          exact h.symm
      · rename_i hl
        have h := books_enqueue_demote (m := m) (w := w.note c (.replacingEnded a.key
          (w.stream s).consumers)) hm hp hs (Bool.eq_false_of_not_eq_true hl)
        obtain ⟨u, v, h₁, h₂, h₃⟩ := h
        exact ⟨u, v, (Drift.note (.refl w) _ _).trans h₁, h₂, h₃⟩

theorem books_enter {ctx : RequestContext} (hp : w.phaseOf c = .admission ctx a) :
    Books m w (w.enter c ctx a) := by
  have hf : Drift m w (w.authorized (some c) ctx .liveTvAccess).1 := .note (.refl w) _ _
  have idle : (w.phaseOf c).job? = none := by rw [hp]; rfl
  simp only [enter]
  split
  · refine .go hm hf ?_ idle rfl
    rw [hp]
    exact ⟨.slnil, fun _ h => h, rfl, .inr rfl, fun _ => rfl, ⟨rfl, rfl⟩, ⟨rfl, rfl⟩, rfl⟩
  · refine .go hm (.note hf _ _) ?_ idle rfl
    rw [hp]
    exact ⟨.slnil, fun _ h => h, rfl, .inl rfl, fun _ => rfl, ⟨rfl, rfl⟩, ⟨rfl, rfl⟩, rfl⟩

theorem books_endWait {o : CallId} (hp : w.phaseOf c = .waiting a o) :
    Books m w (w.endWait c a o) := by
  have idle : (w.phaseOf c).job? = none := by rw [hp]; rfl
  have hl : ∀ q : Phase, q.owns = [] → q.borrows = [] → q.opens? = none →
      (q.wish? = none ∨ q.wish? = some a) → q.releases? = none → q.attached? = none →
      q.isOutside = false → (w.phaseOf c).Leads q := by
    intro q h₁ h₂ h₃ h₄ h₅ h₆ h₇
    rw [hp]
    exact ⟨by simp [h₁], by simp [h₂], h₃, h₄, fun _ => rfl, ⟨rfl, h₅⟩, ⟨rfl, h₆⟩, h₇⟩
  simp only [endWait]
  split
  · exact .go hm (.refl w) (hl _ rfl rfl rfl (.inl rfl) rfl rfl rfl) idle rfl
  · split
    · exact .go hm (.note (.refl w) _ _) (hl _ rfl rfl rfl (.inl rfl) rfl rfl rfl) idle rfl
    · exact .go hm (.refl w) (hl _ rfl rfl rfl (.inr rfl) rfl rfl rfl) idle rfl

/-! ### Opening -/

omit hm in
theorem leads_opening (hp : w.phaseOf c = .opening a s moves wait) {rest : List OpenMove}
    {wait' : OpenWait} (hw : wait' ≠ .outside) :
    (w.phaseOf c).Leads (.opening a s rest wait') := by
  rw [hp]
  refine ⟨.refl _, fun _ h => h, rfl, .inr rfl, fun _ => rfl, ⟨rfl, rfl⟩, ⟨rfl, rfl⟩, ?_⟩
  cases wait' <;> simp_all [Phase.isOutside]

section Opening

variable (hp : w.phaseOf c = .opening a s moves wait)

include hp

/-- An open goes on with the job it waits for. -/
theorem Books.opening {wait' : OpenWait} (h : Work m s wait.job? wait'.job? w w₁)
    (hw : wait' ≠ .outside) : Books m w (w₁.setPhase c (.opening a s rest wait')) :=
  .change (.work hm h (by simp [hp, Phase.holds]) (leads_opening hp hw) (by rw [hp]; rfl) rfl)

variable (h : Work m s wait.job? none w w₁)

include h

theorem books_failOpen (e : StreamError) : Books m w (w₁.failOpen c a s e) :=
  .announce (.note (.record (.reap (.change (.giveUp hm hp h (.failed e))) s) _ _) _ _) _

theorem books_concludeOpen (hi : wait ≠ .outside) : Books m w (w₁.concludeOpen c a s) := by
  simp only [concludeOpen]
  split
  · exact .announce (.note (.change (.giveUp hm hp h (.rejecting _))) _ _) _
  · rename_i hf
    rw [not_or, not_not] at hf
    refine .announce (.note (.record (.change (.register hm hp h hf.1 ?_ hi)) _ _) _ _) _
    simpa [Stream.isConnected] using hf.2

theorem books_nextMove (hi : wait ≠ .outside) (l : List OpenMove) :
    Books m w (w₁.nextMove c a s l) := by
  cases l with
  | nil => exact books_concludeOpen hm hp h hi
  | cons move rest =>
    cases move with
    | pause ms => exact .opening hm hp h (by simp)
    | fail e => exact books_failOpen hm hp h e
    | connect token =>
      have hf := h.trans (w₁.work_startOpen c s token)
      simp only [nextMove]
      split <;> rename_i heq <;> rw [heq] at hf
      · exact .opening hm hp hf (by simp)
      · exact .opening hm hp hf (by simp)
      · exact books_failOpen hm hp hf _
    | exhaust =>
      simp only [nextMove]
      split
      · exact .opening hm hp (h.trans (.drift (drift_deliver _ _ _ (.inr rfl)))) (by simp)
      · exact .opening hm hp h (by simp)
    | close =>
      have hf := h.trans (w₁.work_startClose c s)
      simp only [nextMove]
      split <;> rename_i heq <;> rw [heq] at hf
      · exact .opening hm hp hf (by simp)
      · exact .opening hm hp hf (by simp)
      · exact books_failOpen hm hp hf _

end Opening

theorem books_turnOpening (hp : w.phaseOf c = .opening a s moves wait) :
    Books m w (w.turnOpening c a s moves wait) := by
  cases wait with
  | nowhere => exact books_nextMove hm hp (.refl w) (by simp) moves
  | outside => exact .still (.refl w)
  | pausing due => exact .opening hm hp (.refl w) (by simp)
  | ending => exact .opening hm hp (.refl w) (by simp)
  | dialing d =>
    have hf := w.work_finishOpen (m := m) c s d
    simp only [turnOpening]
    split <;> rename_i heq <;> rw [heq] at hf
    · exact books_nextMove hm hp hf (by simp) moves
    · exact books_failOpen hm hp hf _
  | closing stage =>
    have hf := w.work_advanceClose (m := m) c s stage
    simp only [turnOpening]
    split <;> rename_i heq <;> rw [heq] at hf
    · exact .opening hm hp hf (by simp)
    · exact .opening hm hp hf (by simp)
    · exact books_failOpen hm hp hf _

theorem books_provide (w : System) (result : Except StreamError StreamId) :
    Books m w (w.provide c result) := by
  simp only [provide]
  split
  · rename_i hp
    exact .opening hm hp (.refl w) (by simp)
  · rename_i hp
    split
    · exact .change (.provide hp ‹_› hm)
    · exact .still (.refl w)
  · exact .still (.refl w)

/-! ### Closing -/

section Closing

variable {stage : Option CloseStage} {e : StreamError} {current : Option (StreamId × CloseStage)}
  {left : List StreamId} {n : Nat}

theorem books_settleRejection (hp : w.phaseOf c = .rejecting s stage e) (step : CloseStep)
    (h : Work m s (stage.map .close) step.job? w w₁) :
    Books m w (w₁.settleRejection c s e step) := by
  have held : s ∈ (w.phaseOf c).holds := by simp [hp, Phase.holds]
  have before : (w.phaseOf c).job? = (stage.map Job.close).map (s, ·) := by
    rw [hp]
    cases stage <;> rfl
  have leads : (w.phaseOf c).Leads (.finished (.failed e)) := by
    rw [hp]
    exact .finish rfl rfl rfl rfl rfl
  simp only [settleRejection]
  split
  · refine .change (.work hm h held ?_ before rfl)
    rw [hp]
    exact ⟨.refl _, List.nil_subset _, rfl, .inl rfl, by rintro ⟨⟩, ⟨rfl, rfl⟩, ⟨rfl, rfl⟩, rfl⟩
  · exact .reap (.change (.work hm h held leads before rfl)) s
  · exact .reap (.change (.work hm (.note h _ _) held leads before rfl)) s

theorem books_turnRejecting (hp : w.phaseOf c = .rejecting s stage e) :
    Books m w (w.turnRejecting c s e stage) :=
  books_settleRejection hm hp _ (w.work_turnClose c s stage)

theorem books_settleTear (hp : w.phaseOf c = .tearing s stage) (step : CloseStep)
    (h : Work m s (stage.map .close) step.job? w w₁) : Books m w (w₁.settleTear c s step) := by
  have held : s ∈ (w.phaseOf c).holds := by simp [hp, Phase.holds]
  have before : (w.phaseOf c).job? = (stage.map Job.close).map (s, ·) := by
    rw [hp]
    cases stage <;> rfl
  simp only [settleTear]
  split
  · refine .change (.work hm h held ?_ before rfl)
    rw [hp]
    exact ⟨.refl _, List.nil_subset _, rfl, .inl rfl, by rintro ⟨⟩, ⟨rfl, rfl⟩, ⟨rfl, rfl⟩, rfl⟩
  · rename_i result
    have h' := h.trans (.drift (.still (still_account w₁ (w₁.brokerOf c) result)))
    refine .reap (.change (.work hm h' held ?_ before rfl)) s
    rw [hp]
    cases result <;> exact .finish rfl rfl rfl rfl rfl

theorem books_turnTearing (hp : w.phaseOf c = .tearing s stage) :
    Books m w (w.turnTearing c s stage) :=
  books_settleTear hm hp _ (w.work_turnClose c s stage)

theorem books_settleSweep (hp : w.phaseOf c = .sweeping current left n)
    {rest : List StreamId} (owns : (w.phaseOf c).owns = s :: rest)
    (before : (w.phaseOf c).job? = i.map (s, ·)) (step : CloseStep) (h : Work m s i step.job? w w₁)
    (count : Nat) : Books m w (w₁.settleSweep c s rest count step) := by
  have held : s ∈ (w.phaseOf c).holds := (Phase.mem_holds _ _).2 (.inl (by simp [owns]))
  have leads : ∀ x : Option (StreamId × CloseStage), ∀ n, (x.map (·.1)).toList.Sublist [s] →
      (w.phaseOf c).Leads (.sweeping x rest n) := by
    intro x n hx
    refine ⟨by rw [owns]; exact hx.append (.refl rest), List.nil_subset _, by rw [hp]; rfl, .inl rfl,
      by rintro ⟨⟩, ⟨by rw [hp]; rfl, rfl⟩, ⟨by rw [hp]; rfl, rfl⟩, rfl⟩
  simp only [settleSweep]
  split
  · exact .change (.work hm h held (leads _ _ (.refl _)) before rfl)
  · rename_i result
    have h' := h.trans (.drift (.still (still_account w₁ (w₁.brokerOf c) result)))
    exact .reap (.change (.work hm h' held (leads none _ (List.nil_sublist _)) before rfl)) s

theorem books_turnSweeping (hp : w.phaseOf c = .sweeping current left n) :
    Books m w (w.turnSweeping c current left n) := by
  simp only [turnSweeping]
  split
  · rename_i s stage
    exact books_settleSweep (i := some (.close stage)) hm hp (by simp [hp, Phase.owns])
      (by rw [hp]; rfl) _ (w.work_turnClose c s (some stage)) _
  · refine books_settleSweep (i := none) hm hp (by simp [hp, Phase.owns]) (by rw [hp]; rfl) _
      (.trans ?_ (work_turnClose _ c _ none)) _
    exact .note (.refl w) _ _
  · refine .go hm ?_ (by rw [hp]; exact .finish rfl rfl rfl rfl rfl) (by rw [hp]; rfl) rfl
    split
    · exact .note (.refl w) _ _
    · exact .refl w

end Closing

end Turn

/-! ### Releasing -/

theorem books_release {k : ConsumerId} (hp : w.phaseOf c = .releasing k) :
    Books (.turn (.call c)) w (w.release c k) := by
  simp only [release]
  split
  · exact .change (.miss hp ‹_› rfl)
  · rename_i x hx
    split
    · rename_i hh
      exact .note (.change (.refuse hp hx (fun h => by simp [h] at hh) rfl)) _ _
    · split
      · rename_i hr
        exact .note (.change (.refuse hp hx (fun _ h => by simp [h] at hr) rfl)) _ _
      · rename_i hr
        rw [Bool.not_eq_true', Bool.not_eq_false] at hr
        split
        · rename_i hc
          exact .note (.change (.refuse hp hx (fun _ _ => hc) rfl)) _ _
        · rename_i hc
          have hs : x.stream < w.streams.size := by
            rcases Nat.lt_or_ge x.stream w.streams.size with h | h
            · exact h
            · exact absurd (by rw [w.stream_of_size_le _ h]; rfl) hc
          have hd : (((w.setStanding k .released).setStream x.stream fun y =>
              { y with consumers := y.consumers - 1 }).stream x.stream).consumers =
              (w.stream x.stream).consumers - 1 := by
            rw [stream_setStream_self _ _ _ (by exact hs)]
            rfl
          rw [hd]
          split
          · rename_i hn
            exact .note (.change (.detach rfl hp hx hr ⟨hc, hn⟩)) _ _
          · rename_i hn
            rw [not_not] at hn
            exact .note (.change (.last rfl hp hx hr ⟨hc, hn⟩)) _ _

/-! ### Streams by themselves -/

section Borrower

variable (hm : m.actor = some c) (hb : s ∈ (w.phaseOf c).borrows)
  (before : (w.phaseOf c).job? = i.map (s, ·))

include hm hb before

/-- A call on a stream by itself goes on with it. -/
theorem books_keep (h : Work m s i j w w₁) (hp : p.borrows = [s]) (ho : p.owns = [])
    (hq : p.opens? = none) (hw : p.wish? = none) (hs : p.isSeated = false)
    (hr : p.releases? = none) (ha : p.attached? = none) (after : p.job? = j.map (s, ·)) :
    Books m w (w₁.setPhase c p) := by
  obtain ⟨h₁, h₂, h₃⟩ := Phase.borrower hb
  refine .change (.work hm h ((Phase.mem_holds _ _).2 (.inr hb)) ⟨by simp [ho], by simpa [hp] using hb,
    hq.trans h₁.symm, .inl hw, by simp [hs], ⟨h₃, hr⟩, ⟨h₂, ha⟩, ?_⟩ before after)
  cases p <;> simp_all [Phase.isOutside, Phase.opens?]

/-- A call on a stream by itself comes to its end. -/
theorem books_leave {o : Outcome} (h : Work m s i none w w₁)
    (ha : (Phase.finished o).attached? = none) : Books m w ((w₁.finish c o).reap s) := by
  obtain ⟨h₁, h₂, h₃⟩ := Phase.borrower hb
  exact .reap (.change (.work hm h ((Phase.mem_holds _ _).2 (.inr hb)) (.finish h₁ h₂ h₃ rfl ha) before
    rfl)) s

theorem books_settleClose (step : CloseStep) (h : Work m s i step.job? w w₁) :
    Books m w (w₁.settleClose c s step) := by
  simp only [settleClose]
  split
  · exact books_keep hm hb before h rfl rfl rfl rfl rfl rfl rfl rfl
  · exact books_leave hm hb before h rfl
  · exact books_leave hm hb before h rfl

end Borrower

theorem books_turnDialStart {token : Option Token} (hm : m.actor = some c)
    (hp : w.phaseOf c = .dialStart s token) : Books m w (w.turnDialStart c s token) := by
  have hb : s ∈ (w.phaseOf c).borrows := by simp [hp, Phase.borrows]
  have before : (w.phaseOf c).job? = (none : Option Job).map (s, ·) := by rw [hp]; rfl
  have hf := w.work_startOpen (m := m) c s token
  simp only [turnDialStart]
  split <;> rename_i heq <;> rw [heq] at hf
  · exact books_keep hm hb before hf rfl rfl rfl rfl rfl rfl rfl rfl
  · exact books_leave hm hb before hf rfl
  · exact books_leave hm hb before hf rfl

theorem books_turnDialing {d : Dial} (hm : m.actor = some c) (hp : w.phaseOf c = .dialing s d) :
    Books m w (w.turnDialing c s d) := by
  have hb : s ∈ (w.phaseOf c).borrows := by simp [hp, Phase.borrows]
  have before : (w.phaseOf c).job? = (some (Job.dial d)).map (s, ·) := by rw [hp]; rfl
  have hf := w.work_finishOpen (m := m) c s d
  simp only [turnDialing]
  split <;> rename_i heq <;> rw [heq] at hf
  · exact books_leave hm hb before hf rfl
  · exact books_leave hm hb before hf rfl

/-! ### Steps -/

theorem books_turnCall (w : System) (c : CallId) :
    Books (.turn (.call c)) w (w.turnCall c (w.phaseOf c)) := by
  have hm : (Move.turn (.call c)).actor = some c := rfl
  cases hp : w.phaseOf c with
  | admission ctx a => exact books_enter hm hp
  | seeking a => exact books_seek hm hp
  | waiting a o => exact books_endWait hm hp
  | opening a s moves wait => exact books_turnOpening hm hp
  | rejecting s stage e => exact books_turnRejecting hm hp
  | releasing k => exact books_release hp
  | tearing s stage => exact books_turnTearing hm hp
  | sweepStart => exact .change (.sweep rfl hp)
  | sweeping current rest n => exact books_turnSweeping hm hp
  | dialStart s token => exact books_turnDialStart hm hp
  | dialing s d => exact books_turnDialing hm hp
  | closeStart s =>
    exact books_settleClose (i := none) hm (by simp [hp, Phase.borrows]) (by rw [hp]; rfl) _
      (w.work_turnClose c s none)
  | closing s stage =>
    exact books_settleClose (i := some (.close stage)) hm (by simp [hp, Phase.borrows])
      (by rw [hp]; rfl) _ (w.work_turnClose c s (some stage))
  | finished o => exact .still (.refl w)
  | abandoned => exact .still (.refl w)

theorem books_abandon (w : System) (c : CallId) : Books (.abandon c) w (w.abandon c) := by
  have hm : (Move.abandon c).actor = some c := rfl
  -- A call abandoned in a close leaves that close, and ends.
  have left : ∀ s stage, s ∈ (w.phaseOf c).holds →
      (w.phaseOf c).job? = some (s, .close stage) → (w.phaseOf c).opens? = none →
      (w.phaseOf c).attached? = none → (w.phaseOf c).releases? = none →
      Books (.abandon c) w (((w.abandonClose s stage).setPhase c .abandoned).reap s) := by
    intro s stage held before ho ha hr
    exact .reap (.change (.work (i := some (.close stage)) hm (w.work_abandonClose c s stage) held
      (.finish ho ha hr rfl rfl) before rfl)) s
  by_cases hs : (w.phaseOf c).isSuspended
  · simp only [abandon, hs, Bool.not_true, Bool.false_eq_true, if_false]
    cases hp : w.phaseOf c with
    | waiting a o =>
      refine .go hm (.refl w) ?_ (by rw [hp]; rfl) rfl
      rw [hp]
      exact .finish rfl rfl rfl rfl rfl
    | opening a s moves wait =>
      exact .note (.reap (.change (.giveUp hm hp (w.work_abandonWait c s wait) .abandoned)) s) _ _
    | rejecting s stage e =>
      cases stage with
      | none => simp [hp, Phase.isSuspended] at hs
      | some stage =>
        exact left s stage (by simp [hp, Phase.holds]) (by rw [hp]; rfl) (by rw [hp]; rfl)
          (by rw [hp]; rfl) (by rw [hp]; rfl)
    | tearing s stage =>
      cases stage with
      | none => simp [hp, Phase.isSuspended] at hs
      | some stage =>
        exact left s stage (by simp [hp, Phase.holds]) (by rw [hp]; rfl) (by rw [hp]; rfl)
          (by rw [hp]; rfl) (by rw [hp]; rfl)
    | sweeping current rest n =>
      cases current with
      | none => simp [hp, Phase.isSuspended] at hs
      | some current =>
        refine .after ?_ (.foldl_reap _ (.refl _))
        exact left current.1 current.2 (by simp [hp, Phase.holds]) (by rw [hp]; rfl) (by rw [hp]; rfl)
          (by rw [hp]; rfl) (by rw [hp]; rfl)
    | dialing s d =>
      refine .reap (.change (.work (s := s) (i := some (.dial d)) hm (.forsake rfl)
        (by simp [hp, Phase.holds]) ?_ (by rw [hp]; rfl) rfl)) s
      rw [hp]
      exact .finish rfl rfl rfl rfl rfl
    | closing s stage =>
      exact left s stage (by simp [hp, Phase.holds]) (by rw [hp]; rfl) (by rw [hp]; rfl)
        (by rw [hp]; rfl) (by rw [hp]; rfl)
    | _ => simp [hp, Phase.isSuspended] at hs
  · simp only [abandon, hs]
    exact .still (.refl w)

/-- Every step changes the books in one of the few ways. -/
theorem step_books (w : System) (m : Move) : Books m w (w.step m) := by
  cases m with
  | turn r =>
    simp only [step, turn]
    split
    · cases r with
      | call c => exact books_turnCall w c
      | pump s => exact .still (w.drift_turnPump s)
    · exact .still (.refl w)
  | start b gated errand =>
    simp only [step, start]
    split
    · exact .change (.begin ‹_› rfl)
    · exact .still (.refl w)
  | deliver n e => exact .still (w.drift_deliver n e (.inl rfl))
  | cancel t =>
    simp only [step]
    split
    · exact .still (.refl w)
    · exact .still (.still ⟨{ Frame.refl w with }, rfl, rfl, rfl, rfl⟩)
  | abandon c => exact books_abandon w c
  | provide c result => exact books_provide rfl w result
  | dropConsumer k =>
    simp only [step, dropConsumer]
    split
    · split
      · exact .note (.change (.drop ‹_› ‹_› rfl)) _ _
      · exact .still (.refl w)
    · exact .still (.refl w)
  | make r config => exact .change (.make rfl)
  | letGo s => exact .reap (.change .letGo) s
  | setDesk desk => exact .still (.still ⟨{ Frame.refl w with }, rfl, rfl, rfl, rfl⟩)
  | elapse ms => exact .still (.still ⟨{ Frame.refl w with }, rfl, rfl, rfl, rfl⟩)

end System

end TunerBroker
