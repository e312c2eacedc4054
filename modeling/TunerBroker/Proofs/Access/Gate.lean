import TunerBroker.Proofs.Consumers.Attachment
import TunerBroker.Proofs.Invariants.LedgerRuns
import TunerBroker.Proofs.Access.Policy
import TunerBroker.Proofs.Consumers.Tenure
import TunerBroker.Proofs.Steps.Guise

/-! The gate lets nobody through to the broker who is not entitled to live TV. A call that is turned away
leaves everything as it was. One that is let in goes on as one made without the gate, step for step. Where
a broker is used through its gate only, each of its consumers was given to a call let in. -/

namespace TunerBroker

/-- Who may watch live TV: an API key or a user, with live TV access or an administrator's, after setup
or as an administrator. Neither a known address nor running setup entitles anybody. -/
structure Entitled (desk : AccessDesk) (ctx : RequestContext) : Prop where
  liveTv : ctx.IsAdmin ∨ ctx.HasLiveTv
  identity : ctx.IsApiKey ∨ ∃ u, ctx.Names u
  setup : ctx.IsAdmin ∨ desk.setupComplete = true
  grant : (desk.decide ctx .liveTvAccess).verdict = .accepted .apiKey ∨
    ∃ u, ctx.Names u ∧ (desk.decide ctx .liveTvAccess).verdict = .accepted (.credential u)

section Entitlement
variable {desk : AccessDesk} {ctx : RequestContext}

theorem AccessDesk.verdict_decide (desk : AccessDesk) (ctx : RequestContext) (r : Requirement) :
    (desk.decide ctx r).verdict = Id.run (judge desk.collaborators ctx r) := by
  simp [AccessDesk.decide, authorize]

/-- Whom the gate lets in is entitled, by a credential of its own. -/
theorem entitled_of_accepted (h : (desk.decide ctx .liveTvAccess).isAccepted = true) :
    Entitled desk ctx := by
  have verdict := desk.verdict_decide ctx .liveTvAccess
  cases hv : Id.run (judge desk.collaborators ctx .liveTvAccess) with
  | rejected e => simp [Decision.isAccepted, verdict, hv, Verdict.isAccepted] at h
  | accepted g =>
    rw [hv] at verdict
    cases judge_accepts.mp hv with
    | setup opens =>
      obtain ⟨⟨_, ⟨⟩⟩, -⟩ := opens
    | claims _ meets =>
      refine ⟨meets.liveTv rfl, ?_, ?_, ?_⟩
      · exact meets.identity.imp And.left fun h => h.2.imp fun _ => And.left
      · exact meets.setup.imp_right fun h => h.resolve_left (by rintro ⟨⟩)
      · rcases meets.identity with ⟨-, rfl⟩ | ⟨-, u, named, -, rfl⟩
        · exact .inl verdict
        · exact .inr ⟨u, named, verdict⟩

/-- The gate does not ask for the sessions: whatever would come of asking, its decision is the same. -/
theorem authorize_unscanned {m : Type → Type} [Monad m] (k : Collaborators m) (other : m (List Session))
    (ctx : RequestContext) :
    authorize { k with sessions := other } ctx .liveTvAccess = authorize k ctx .liveTvAccess := rfl

end Entitlement

/-- What is asked of a broker through its gate: to watch a request, to stop watching, to shut down. -/
def Errand.IsGates : Errand → Prop
  | enter _ a => ∃ r token config, a = .ofRequest r token config
  | release _ | sweep => True
  | acquire _ | openStream _ _ | closeStream _ => False

/-- The move makes no call on the broker but through its gate. -/
def Move.UsesGate (b : BrokerId) : Move → Prop
  | start b' gated errand => b' = b → gated = true ∧ errand.IsGates
  | _ => True

namespace Phase

/-- The call is about to be decided on. -/
def isAdmission : Phase → Bool
  | admission _ _ => true
  | _ => false

/-- The call is on its way to a consumer, from its admission on, or has one. -/
def isAcquiring : Phase → Bool
  | admission _ _ | seeking _ | waiting _ _ | opening _ _ _ _ | rejecting _ _ _
  | finished (.attached _) => true
  | _ => false

/-- The call sweeps, or is about to. -/
def isSweep : Phase → Bool
  | sweepStart | sweeping _ _ _ => true
  | _ => false

end Phase

namespace System

variable {m : Move} {moves : List Move} {w w' : System} {b : BrokerId} {c : CallId} {p : Phase}
  {ticks : List Tick} {x : Option Announcement} {a : Acquisition} {ctx : RequestContext}

/-! ### Where calls do not come to -/

/-- No call comes to its admission. -/
theorem Course.admission (h : Course m w c p ticks x) (hp : p.isAdmission) :
    (w.phaseOf c).isAdmission := by
  cases h with
  | stay => exact hp
  | lone _ next => cases p <;> simp_all [Phase.isAdmission, Phase.borrows, Phase.isOver]
  | _ => cases hp

/-- No call sets out for a consumer that has not been made for one. -/
theorem Course.acquiring (h : Course m w c p ticks x) (hp : p.isAcquiring) :
    (w.phaseOf c).isAcquiring := by
  cases h with
  | stay => exact hp
  | lone _ next =>
    rcases next with next | ⟨ended, none⟩
    · cases p <;> simp_all [Phase.isAcquiring, Phase.borrows]
    · cases p with
      | finished o => cases o <;> simp_all [Phase.isAcquiring, Phase.attached?]
      | _ => simp_all [Phase.isAcquiring, Phase.isOver]
  | torn result => cases result <;> cases hp
  | enter place | reuse place | join place | «open» place | retry place | onward place | reject place
  | give place | rejecting place => simp [place, Phase.isAcquiring]
  | _ => cases hp

/-- No call sweeps that has not been made to. -/
theorem Course.sweeps (h : Course m w c p ticks x) (hp : p.isSweep) : (w.phaseOf c).isSweep := by
  cases h with
  | stay => exact hp
  | lone _ next => cases p <;> simp_all [Phase.isSweep, Phase.borrows, Phase.isOver]
  | sweep place | sweeping place | swept result place => simp [place, Phase.isSweep]
  | _ => cases hp

/-- A call never comes to a kind of place that is come to from its like only. -/
theorem run_lacks {P : Phase → Bool}
    (back : ∀ {m w c p ticks x}, Course m w c p ticks x → P p → P (w.phaseOf c))
    (lt : c < w.calls.size) (no : P (w.phaseOf c) = false) (moves : List Move) :
    P ((w.run moves).phaseOf c) = false := by
  induction moves generalizing w with
  | nil => exact no
  | cons m moves ih =>
    refine ih (step_keeps lt m).1 (Bool.eq_false_of_not_eq_true fun yes => ?_)
    by_cases actor : m.actor = some c
    · obtain ⟨p, ticks, x, course, adv⟩ := step_fares (w := w) actor
      rw [adv.phaseOf, if_pos rfl] at yes
      simp [back course yes] at no
    · rw [(step_other lt actor).1, no] at yes
      cases yes

/-- A call at its admission stays there until its turn. -/
theorem step_admission (place : w.phaseOf c = .admission ctx a) (other : m ≠ .turn (.call c)) :
    (w.step m).phaseOf c = .admission ctx a := by
  have lt : c < w.calls.size := w.lt_of_phaseOf c (by simp [place])
  by_cases actor : m.actor = some c
  · cases m with
    | turn r => cases r <;> simp_all [Move.actor]
    | abandon d =>
      obtain rfl : d = c := Option.some.inj actor
      simp [step, abandon, place, Phase.isSuspended]
    | provide d result =>
      obtain rfl : d = c := Option.some.inj actor
      cases result <;> simp [step, provide, place]
    | _ => cases actor
  · rw [(step_other lt actor).1, place]

theorem run_admission (place : w.phaseOf c = .admission ctx a) (other : ∀ m ∈ moves, m ≠ .turn (.call c)) :
    (w.run moves).phaseOf c = .admission ctx a := by
  induction moves generalizing w with
  | nil => exact place
  | cons m moves ih =>
    exact ih (step_admission place (other m List.mem_cons_self)) fun m' hm' =>
      other m' (List.mem_cons_of_mem _ hm')

/-! ### The turn that decides -/

/-- The turn of a call at its admission, as the gate decides. -/
theorem turn_admission (place : w.phaseOf c = .admission ctx a) :
    w.step (.turn (.call c)) = w.enter c ctx a := by
  simp [step, turn, ready, phaseReady, turnCall, place]

/-- A call that is turned away is over, with the decision for its outcome, and nothing else changes but
the log. -/
theorem turn_denied (place : w.phaseOf c = .admission ctx a)
    (rejected : (w.desk.decide ctx .liveTvAccess).isAccepted = false) :
    (w.step (.turn (.call c))).phaseOf c = .finished (.denied (w.desk.decide ctx .liveTvAccess)) ∧
    w.step (.turn (.call c)) =
      { w with
        calls := w.calls.update c fun x =>
          { x with phase := .finished (.denied (w.desk.decide ctx .liveTvAccess)) }
        journal := ⟨some c, .requestRejected a.key (w.desk.decide ctx .liveTvAccess)⟩ ::
          ⟨some c, .authorizationDecided .liveTvAccess⟩ :: w.journal } := by
  have lt : c < w.calls.size := w.lt_of_phaseOf c (by simp [place])
  rw [turn_admission place]
  simp only [enter, authorized, rejected, Bool.false_eq_true, if_false]
  exact ⟨(phaseOf_setPhase _ _ _ _).trans (if_pos ⟨rfl, lt⟩), rfl⟩

/-- A call that is let in looks at the slot next, as one without the gate does from the start. -/
theorem turn_accepted (place : w.phaseOf c = .admission ctx a)
    (accepted : (w.desk.decide ctx .liveTvAccess).isAccepted = true) :
    (w.step (.turn (.call c))).phaseOf c = .seeking a ∧
    (w.step (.turn (.call c))).ungated c =
      (w.ungated c).note (some c) (.authorizationDecided .liveTvAccess) := by
  have lt : c < w.calls.size := w.lt_of_phaseOf c (by simp [place])
  rw [turn_admission place]
  simp only [enter, authorized, accepted, if_true]
  refine ⟨by rw [phaseOf_setPhase, if_pos ⟨rfl, lt⟩], ungated_setPhase _ c ?_⟩
  rw [phaseOf_note, place]
  rfl

/-! ### A call let in and one made without the gate -/

/-- Two systems that differ in how one call was made, through the gate or not, and in the entry of the log
that it was decided on. -/
structure GoesAs (c : CallId) (w v : System) : Prop where
  phases : ∀ d, w.phaseOf d = v.phaseOf d
  rest : w.ungated c = { v with journal := w.journal }
  log : ∃ news old, v.journal = news ++ old ∧
    w.journal = news ++ ⟨some c, .authorizationDecided .liveTvAccess⟩ :: old

/-- Short of its admission, a call through the gate goes the way of one made without. -/
theorem run_ungated (lt : c < w.calls.size) (still : (w.phaseOf c).isSweep = false)
    (later : (w.phaseOf c).isAdmission → ∀ m ∈ moves, m ≠ .turn (.call c)) :
    (w.ungated c).run moves = (w.run moves).ungated c := by
  induction moves generalizing w with
  | nil => rfl
  | cons m moves ih =>
    have here : (w.ungated c).step m = (w.step m).ungated c := by
      refine step_ungated lt (fun _ _ _ h => by simp [h, Phase.isSweep] at still) ?_
      intro hm ctx a h
      exact later (by rw [h]; rfl) m List.mem_cons_self hm
    have still' := run_lacks Course.sweeps lt still [m]
    have rest := ih (step_keeps lt m).1 still' fun place m' hm' => by
      refine later ?_ m' (List.mem_cons_of_mem _ hm')
      by_contra no
      have := run_lacks Course.admission lt (Bool.eq_false_of_not_eq_true no) [m]
      exact absurd place (Bool.eq_false_iff.mp this)
    exact (congrArg (run · moves) here).trans rest

/-- Over an older log a run does what it does without it. -/
theorem run_atop (w : System) (j : List Entry) (moves : List Move) :
    (w.atop j).run moves = (w.run moves).atop j := by
  induction moves generalizing w with
  | nil => rfl
  | cons m moves ih => exact (congrArg (run · moves) (step_atop w j m)).trans (ih (w.step m))

/-- A call through the gate, at its admission, is one made without it. -/
theorem start_ungated (seated : b < w.brokers.size) :
    (w.step (.start b true (.enter ctx a))).ungated w.calls.size =
      w.step (.start b false (.acquire a)) := by
  simp only [step, start, Errand.isAllowed, seated, decide_true, if_true, begin, addCall, ungated,
    Table.update_add_self]
  rfl

/-- Once a call is let in, the run goes on as one in which it was made without the gate. -/
theorem goes_as_direct {before after : List Move} (seated : b < w.brokers.size)
    (waits : ∀ m ∈ before, m ≠ .turn (.call w.calls.size))
    (accepted : (((w.step (.start b true (.enter ctx a))).run before).desk.decide ctx
      .liveTvAccess).isAccepted = true) :
    GoesAs w.calls.size
      ((w.step (.start b true (.enter ctx a))).run (before ++ .turn (.call w.calls.size) :: after))
      ((w.step (.start b false (.acquire a))).run (before ++ after)) := by
  let c := w.calls.size
  let entry : Entry := ⟨some c, .authorizationDecided .liveTvAccess⟩
  let v := (w.step (.start b true (.enter ctx a))).run before
  let u := (w.step (.start b false (.acquire a))).run before
  have made : w.step (.start b true (.enter ctx a)) = w.begin b true (.enter ctx a) :=
    if_pos (decide_eq_true seated)
  have lt₀ : c < (w.step (.start b true (.enter ctx a))).calls.size := by
    rw [made, calls_begin, calls_size_addCall]
    exact Nat.lt_succ_self _
  have place₀ : (w.step (.start b true (.enter ctx a))).phaseOf c = .admission ctx a := by
    rw [made, phaseOf_begin, if_pos rfl]
    rfl
  have place : v.phaseOf c = .admission ctx a := run_admission place₀ waits
  have lt : c < v.calls.size := (run_keeps lt₀ before).1
  have alike : v.ungated c = u := by
    rw [← run_ungated lt₀ (by rw [place₀]; rfl) fun _ => waits, start_ungated seated]
  obtain ⟨seeks, let_in⟩ := turn_accepted place accepted
  have lt' : c < (v.step (.turn (.call c))).calls.size := (step_keeps lt _).1
  have inside : ((v.step (.turn (.call c))).phaseOf c).isAdmission = false := by rw [seeks]; rfl
  -- The turn that lets the call in adds its entry to the log; both runs go on from the same system.
  have later : ((v.step (.turn (.call c))).run after).ungated c =
      (u.bare.run after).atop (entry :: u.journal) := by
    rw [← run_ungated lt' (by rw [seeks]; rfl) fun h => by simp [inside] at h, let_in, alike, ← run_atop]
    rfl
  have direct : u.run after = (u.bare.run after).atop u.journal := run_atop u.bare u.journal after
  have past := run_lacks Course.admission lt' inside after
  rw [run_append, run_append]
  change GoesAs c ((v.step (.turn (.call c))).run after) (u.run after)
  generalize (v.step (.turn (.call c))).run after = x at later past
  have log : x.journal = (u.bare.run after).journal ++ entry :: u.journal :=
    congrArg System.journal later
  refine ⟨fun d => ?_, ?_, (u.bare.run after).journal, u.journal, ?_, log⟩
  · have same : (x.ungated c).phaseOf d = (u.run after).phaseOf d := by rw [later, direct]; rfl
    rw [← same, phaseOf_ungated]
    split
    · subst_vars
      exact (Phase.past_eq fun ctx a h => by simp [h, Phase.isAdmission] at past).symm
    · rfl
  · rw [later, log, direct]
    rfl
  · rw [direct]
    rfl

/-! ### A broker used through its gate -/

/-- In the course of a run the call was made through the gate of `b`, to watch a request, and the caller
was entitled when its turn came to be decided on. -/
inductive LetIn (w : System) (b : BrokerId) (c : CallId) : List Move → Prop where
  | intro {before between after : List Move} {ctx : RequestContext} {r : StreamRequest}
      {token : Option Token} {config : BrokerConfig} (made : (w.run before).calls.size = c)
      (place : (w.run (before ++ .start b true (.enter ctx (.ofRequest r token config)) ::
        between)).phaseOf c = .admission ctx (.ofRequest r token config))
      (entitled : Entitled (w.run (before ++ .start b true (.enter ctx (.ofRequest r token config)) ::
        between)).desk ctx) :
      LetIn w b c (before ++ .start b true (.enter ctx (.ofRequest r token config)) :: between ++
        .turn (.call c) :: after)

/-- A move makes one call at most, and only if it sets out to. -/
theorem exists_begin (hc : w.calls.size ≤ c) (there : c < (w.run moves).calls.size) :
    ∃ before b gated errand after, moves = before ++ .start b gated errand :: after ∧
      errand.isAllowed (w.run before) b ∧ (w.run before).calls.size = c := by
  induction moves generalizing w with
  | nil => exact absurd there (Nat.not_lt.mpr hc)
  | cons m moves ih =>
    by_cases lt : c < (w.step m).calls.size
    · rcases w.step_course m with ⟨d, -, p, ticks, x, -, adv⟩ | ⟨b, gated, errand, rfl, ok, he⟩ | ⟨-, h⟩
      · exact absurd lt (adv.calls ▸ Nat.not_lt.mpr hc)
      · rw [he, calls_begin, calls_size_addCall] at lt
        exact ⟨[], b, gated, errand, moves, rfl, ok, Nat.le_antisymm hc (Nat.le_of_lt_succ lt)⟩
      · exact absurd lt (h.calls ▸ Nat.not_lt.mpr hc)
    · obtain ⟨before, b, gated, errand, after, rfl, rest⟩ := ih (Nat.le_of_not_lt lt) there
      exact ⟨m :: before, b, gated, errand, after, rfl, rest⟩

/-- A call that is past its admission and was not turned away had its turn there, and was accepted. -/
theorem exists_acceptance (place : w.phaseOf c = .admission ctx a)
    (past : ((w.run moves).phaseOf c).isAdmission = false)
    (acquiring : ((w.run moves).phaseOf c).isAcquiring) :
    ∃ between after, moves = between ++ .turn (.call c) :: after ∧
      (w.run between).phaseOf c = .admission ctx a ∧
      ((w.run between).desk.decide ctx .liveTvAccess).isAccepted = true := by
  have lt : c < w.calls.size := w.lt_of_phaseOf c (by simp [place])
  have turns : Move.turn (.call c) ∈ moves := by
    by_contra none
    rw [run_admission place fun m hm => ne_of_mem_of_not_mem hm none] at past
    cases past
  obtain ⟨between, after, rfl, first⟩ := List.eq_append_cons_of_mem turns
  have here := run_admission place fun m hm => ne_of_mem_of_not_mem hm first
  refine ⟨between, after, rfl, here, ?_⟩
  by_contra rejected
  have lt' := (step_keeps (run_keeps lt between).1 (.turn (.call c))).1
  obtain ⟨denied, -⟩ := turn_denied here (Bool.eq_false_of_not_eq_true rejected)
  have stays := run_over after (by rw [denied]; rfl) lt'
  rw [run_append] at acquiring
  change ((((w.run between).step (.turn (.call c))).run after).phaseOf c).isAcquiring = true at acquiring
  rw [stays, denied] at acquiring
  cases acquiring

theorem letIn_of_acquiring (gate : ∀ m ∈ moves, m.UsesGate b) (new : w.calls.size ≤ c)
    (broker : (w.run moves).brokerOf c = b) (past : ((w.run moves).phaseOf c).isAdmission = false)
    (acquiring : ((w.run moves).phaseOf c).isAcquiring) : LetIn w b c moves := by
  have there : c < (w.run moves).calls.size :=
    lt_of_phaseOf _ _ fun h => by simp [h, Phase.isAcquiring] at acquiring
  obtain ⟨before, b', gated, errand, rest, rfl, allowed, rfl⟩ := exists_begin new there
  have begun : (w.run before).step (.start b' gated errand) = (w.run before).begin b' gated errand :=
    if_pos allowed
  have cut : ∀ l, w.run (before ++ .start b' gated errand :: l) =
      ((w.run before).begin b' gated errand).run l := fun l => by
    rw [run_append, ← begun]
    rfl
  have lt : (w.run before).calls.size < ((w.run before).begin b' gated errand).calls.size := by
    rw [calls_begin, calls_size_addCall]
    exact Nat.lt_succ_self _
  have origin : ((w.run before).begin b' gated errand).phaseOf (w.run before).calls.size =
      errand.origin := by rw [phaseOf_begin, if_pos rfl]
  rw [cut] at broker past acquiring
  rw [(run_keeps lt rest).2, brokerOf_begin, if_pos rfl] at broker
  subst broker
  obtain ⟨rfl, gates⟩ := gate _ (List.mem_append_right _ List.mem_cons_self) rfl
  cases errand with
  | enter ctx a =>
    obtain ⟨r, token, config, rfl⟩ := gates
    obtain ⟨between, after, rfl, place, accepted⟩ := exists_acceptance origin past acquiring
    rw [← cut] at place accepted
    have letIn : LetIn w b' _ (before ++ .start b' true (.enter ctx (.ofRequest r token config)) ::
        between ++ .turn (.call (w.run before).calls.size) :: after) :=
      .intro rfl place (entitled_of_accepted accepted)
    rwa [List.append_assoc, List.cons_append] at letIn
  | release i =>
    have never := run_lacks Course.acquiring lt (by rw [origin]; rfl) rest
    simp [never] at acquiring
  | sweep =>
    have never := run_lacks Course.acquiring lt (by rw [origin]; rfl) rest
    simp [never] at acquiring
  | acquire | openStream | closeStream => cases gates

/-- The gate guards the broker. In every state that can come about, a call that is turned away returns
the decision and changes nothing but the log. A call that is let in goes on, to the last step, as one made
without the gate. Where a broker is used through its gate only, every call that has gone on from its
admission was let in, and so was the call that any of its consumers was given to. The sessions have no
part in what the gate decides. -/
theorem gate_guards (configs : List BrokerConfig) (desk : AccessDesk) (terms : List TunerTerms)
    (moves : List Move) :
    let w₀ := fresh configs desk terms
    let w := w₀.run moves
    (∀ c ctx a d, w.phaseOf c = .admission ctx a → d = w.desk.decide ctx .liveTvAccess →
      d.isAccepted = false →
      (w.step (.turn (.call c))).phaseOf c = .finished (.denied d) ∧
      w.step (.turn (.call c)) =
        { w with
          calls := w.calls.update c fun x => { x with phase := .finished (.denied d) }
          journal := ⟨some c, .requestRejected a.key d⟩ ::
            ⟨some c, .authorizationDecided .liveTvAccess⟩ :: w.journal }) ∧
    (∀ c b ctx a before after, c = w.calls.size → b < configs.length →
      (∀ m ∈ before, m ≠ .turn (.call c)) →
      ((w.run (.start b true (.enter ctx a) :: before)).desk.decide ctx .liveTvAccess).isAccepted =
        true →
      GoesAs c (w.run (.start b true (.enter ctx a) :: before ++ .turn (.call c) :: after))
        (w.run (.start b false (.acquire a) :: before ++ after))) ∧
    (∀ b, (∀ m ∈ moves, m.UsesGate b) →
      (∀ c, w.brokerOf c = b → (w.phaseOf c).isAdmission = false → (w.phaseOf c).isAcquiring = true →
        LetIn w₀ b c moves) ∧
      ∀ i x, w.consumers.get? i = some x → x.broker = b →
        ∃ c, w.phaseOf c = .finished (.attached i) ∧ LetIn w₀ b c moves) ∧
    ∀ (m : Type → Type) [Monad m] (k : Collaborators m) (sessions : m (List Session)) ctx,
      authorize { k with sessions } ctx .liveTvAccess = authorize k ctx .liveTvAccess := by
  intro w₀ w
  refine ⟨?_, ?_, fun b gate => ?_, fun m _ k sessions ctx => authorize_unscanned k sessions ctx⟩
  · rintro c ctx a d place rfl rejected
    exact turn_denied place rejected
  · rintro c b ctx a before after rfl seated waits accepted
    have seated' : b < w.brokers.size := by
      rw [brokers_size_run]
      simpa [w₀, fresh, Table.size] using seated
    exact goes_as_direct seated' waits accepted
  · have let_in : ∀ c, w.brokerOf c = b → (w.phaseOf c).isAdmission = false →
        (w.phaseOf c).isAcquiring = true → LetIn w₀ b c moves := fun c broker past acquiring =>
      letIn_of_acquiring gate (Nat.zero_le c) broker past acquiring
    refine ⟨let_in, fun i x there hb => ?_⟩
    have g₀ := sound_fresh configs desk terms
    have l₀ := ledger_fresh configs desk terms
    have l : w.Ledger := l₀.run g₀ moves
    obtain ⟨c, -, given⟩ := List.mem_filterMap.mp
      (l.receipts.mem_iff.mpr (List.mem_range.mpr (Table.lt_size_of_get? there)))
    obtain ⟨y, hy, broker⟩ := ((credited_fresh configs desk terms).run l₀ g₀ moves) c i given
    obtain rfl : x = y := Option.some.inj (there.symm.trans hy)
    have attached : w.phaseOf c = .finished (.attached i) := by
      generalize w.phaseOf c = p at given
      cases p with
      | finished o => cases o <;> simp_all [Phase.attached?]
      | _ => cases given
    exact ⟨c, attached, let_in c (broker.symm.trans hb) (by rw [attached]; rfl) (by rw [attached]; rfl)⟩

/-- A user with live TV access. -/
def sampleViewer : RequestContext := { claims := some (Claims.ofUser ⟨1⟩ "tv" "session").withLiveTv }

/-- The errand of a call through the gate, by a caller of this kind. -/
def sampleEntry (ctx : RequestContext) : Errand := .enter ctx (.ofRequest sampleRequest none {})

/-- Somebody without a credential comes to the gate. -/
def strangerComes : List Move := [.start 0 true (sampleEntry {})]

/-- A viewer comes through the gate and is given a consumer. -/
def viewerComes : List Move :=
  .start 0 true (sampleEntry sampleViewer) :: List.replicate 4 (.turn (.call 0))

theorem gate_guards_viewerComes :
    (((fresh [{}] {} []).run strangerComes).step (.turn (.call 0))).phaseOf 0 =
        .finished (.denied ⟨.liveTvAccess, .rejected .liveTvAccessDenied⟩) ∧
      GoesAs 0 ((fresh [{}] {} []).run viewerComes)
        ((fresh [{}] {} []).run
          (.start 0 false (.acquire (.ofRequest sampleRequest none {})) ::
            List.replicate 3 (.turn (.call 0)))) ∧
      ∃ c, ((fresh [{}] {} []).run viewerComes).phaseOf c = .finished (.attached 0) ∧
        LetIn (fresh [{}] {} []) 0 c viewerComes := by
  obtain ⟨denied, -⟩ := gate_guards [{}] {} [] strangerComes
  obtain ⟨-, goes, -⟩ := gate_guards [{}] {} [] []
  obtain ⟨-, -, through, -⟩ := gate_guards [{}] {} [] viewerComes
  refine ⟨(denied 0 {} _ _ rfl rfl rfl).1, ?_, ?_⟩
  · exact goes 0 0 sampleViewer _ [] (List.replicate 3 (.turn (.call 0))) rfl (by decide) (by simp) rfl
  · refine (through 0 fun m hm => ?_).2 0 ⟨0, 0, sampleRequest.key, .held⟩ rfl rfl
    simp only [viewerComes, List.mem_cons, List.mem_replicate] at hm
    rcases hm with rfl | ⟨-, rfl⟩
    · exact fun _ => ⟨rfl, _, _, _, rfl⟩
    · trivial

end System

end TunerBroker
