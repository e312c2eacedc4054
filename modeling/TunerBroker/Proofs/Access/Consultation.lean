import TunerBroker.Proofs.Access.Policy

/-! What one decision asks of its collaborators. They may answer differently from one question to the
next; the evaluation is run with each question and its answer written down. -/

namespace TunerBroker

/-- A question to a collaborator with the answer it got. -/
inductive Inquiry where
  | setup (complete : Bool)
  | schedule (user : UserId) (allowed : Bool)
  | sessions (listed : List Session)
  deriving DecidableEq

namespace Collaborators

/-- The same collaborators, with each question and its answer added to a log. -/
def logged {m : Type → Type} [Monad m] (k : Collaborators m) :
    Collaborators (StateT (List Inquiry) m) where
  setupComplete := do
    let complete ← k.setupComplete
    modify (· ++ [.setup complete])
    return complete
  allows user := do
    let allowed ← k.allows user
    modify (· ++ [.schedule user allowed])
    return allowed
  sessions := do
    let listed ← k.sessions
    modify (· ++ [.sessions listed])
    return listed

/-- The same collaborators, but setup is said to be complete or not whatever its state answers. -/
def withSetup {m : Type → Type} [Monad m] (k : Collaborators m) (complete : Bool) :
    Collaborators m :=
  { k with setupComplete := do
      let _ ← k.setupComplete
      return complete }

/-- Collaborators that do not change answer as the log says. -/
def Gives (k : Collaborators Id) (log : List Inquiry) : Prop :=
  ∀ q ∈ log, match q with
    | .setup complete => Id.run k.setupComplete = complete
    | .schedule user allowed => Id.run (k.allows user) = allowed
    | .sessions listed => Id.run k.sessions = listed

variable {k : Collaborators Id} {log more : List Inquiry}

theorem gives_append : k.Gives (log ++ more) ↔ k.Gives log ∧ k.Gives more := by
  simp only [Gives, List.mem_append, or_imp, forall_and]

end Collaborators

/-! ### Procedures that ask -/

/-- A procedure that asks collaborators, however these come by their answers. -/
abbrev Procedure (α : Type) := ∀ {m : Type → Type} [Monad m], Collaborators m → m α

/-- The procedure, started in a state of its collaborators, asks what the log says: written down, its
questions are these and the answers the same; collaborators who always answer so bring it to the same
result; and the setup state may as well give its one answer throughout. -/
structure Evaluates {σ α : Type} (k : Collaborators (StateM σ)) (f : Procedure α) (s : σ)
    (log : List Inquiry) : Prop where
  logged (before : List Inquiry) :
    ((f k.logged).run before).run s = ((((f k).run s).1, before ++ log), ((f k).run s).2)
  replayed (k' : Collaborators Id) (gives : k'.Gives log) : Id.run (f k') = ((f k).run s).1
  settled (complete : Bool) (same : ∀ b, .setup b ∈ log → b = complete) :
    (f (k.withSetup complete)).run s = (f k).run s

namespace Evaluates

variable {σ α β : Type} {k : Collaborators (StateM σ)} {s : σ} {log more : List Inquiry}
  {f : Procedure α} {g : α → Procedure β}

theorem pure (a : α) : Evaluates k (fun _ => Pure.pure a) s [] where
  logged before := by simp; rfl
  replayed _ _ := rfl
  settled _ _ := rfl

theorem bind (first : Evaluates k f s log)
    (next : Evaluates k (g ((f k).run s).1) ((f k).run s).2 more) :
    Evaluates k (fun k => f k >>= fun a => g a k) s (log ++ more) where
  logged before := by
    change ((g (((f k.logged).run before).run s).1.1 k.logged).run
      (((f k.logged).run before).run s).1.2).run (((f k.logged).run before).run s).2 = _
    rw [first.logged, next.logged, List.append_assoc]
    rfl
  replayed k' gives := by
    obtain ⟨gives, gives'⟩ := Collaborators.gives_append.mp gives
    change Id.run (g (Id.run (f k')) k') = _
    rw [first.replayed k' gives, next.replayed k' gives']
    rfl
  settled complete same := by
    change (g ((f (k.withSetup complete)).run s).1 (k.withSetup complete)).run
      ((f (k.withSetup complete)).run s).2 = _
    rw [first.settled complete fun b asked => same b (List.mem_append_left _ asked),
      next.settled complete fun b asked => same b (List.mem_append_right _ asked)]
    rfl

theorem setup : Evaluates k (fun k => k.setupComplete) s [.setup (k.setupComplete.run s).1] where
  logged _ := rfl
  replayed _ gives := gives _ (List.mem_singleton_self _)
  settled complete same := by
    change (complete, (k.setupComplete.run s).2) = _
    rw [← same _ (List.mem_singleton_self _)]
    rfl

theorem schedule (user : UserId) :
    Evaluates k (fun k => k.allows user) s [.schedule user ((k.allows user).run s).1] where
  logged _ := rfl
  replayed _ gives := gives _ (List.mem_singleton_self _)
  settled _ _ := rfl

theorem sessions : Evaluates k (fun k => k.sessions) s [.sessions (k.sessions.run s).1] where
  logged _ := rfl
  replayed _ gives := gives _ (List.mem_singleton_self _)
  settled _ _ := rfl

end Evaluates

/-- The procedure, started in a state of its collaborators, asks questions of this kind. -/
def Asks {σ α : Type} (k : Collaborators (StateM σ)) (f : Procedure α) (s : σ)
    (kind : List Inquiry → Prop) : Prop :=
  ∃ log, Evaluates k @f s log ∧ kind log

theorem Asks.bind {σ α β : Type} {k : Collaborators (StateM σ)} {s : σ} {log : List Inquiry}
    {f : Procedure α} {g : α → Procedure β} {kind : List Inquiry → Prop} (first : Evaluates k f s log)
    (next : Asks k (g ((f k).run s).1) ((f k).run s).2 fun more => kind (log ++ more)) :
    Asks k (fun k => f k >>= fun a => g a k) s kind := by
  obtain ⟨more, next, this⟩ := next
  exact ⟨log ++ more, first.bind next, this⟩

/-- What is asked on either side of a condition. -/
theorem Asks.ite {σ α : Type} {k : Collaborators (StateM σ)} {s : σ} {f g : Procedure α}
    {kind : List Inquiry → Prop} {c : Prop} [Decidable c] (yes : c → Asks k f s kind)
    (no : ¬c → Asks k g s kind) : Asks k (fun k => if c then f k else g k) s kind := by
  by_cases h : c
  · simpa only [h, if_true] using yes h
  · simpa only [h, if_false] using no h

/-- A question that is left out where its answer is known to be yes, and what is done with any answer. -/
theorem Asks.unlessKnown {σ β : Type} {k : Collaborators (StateM σ)} {s : σ} {f : Procedure Bool}
    {g : Bool → Procedure β} {kind : List Inquiry → Prop} {q : Bool → Inquiry} (known : Bool)
    (ask : Evaluates k f s [q ((f k).run s).1])
    (next : ∀ answer s', (known = true → answer = true) →
      Asks k (g answer) s' fun more => kind ((if known then [] else [q answer]) ++ more)) :
    Asks k (fun k => if known then pure true >>= fun a => g a k else f k >>= fun a => g a k) s
      kind := by
  cases known with
  | false =>
    simp only [Bool.false_eq_true, if_false]
    exact .bind ask (next _ _ nofun)
  | true =>
    simp only [if_true]
    exact .bind (.pure true) (next true s fun _ => rfl)

/-! ### Questions that decide -/

/-- Questions of an evaluation: each of its kind was asked once or not at all. -/
structure Survey where
  setup : Option Bool := none
  schedule : Option (UserId × Bool) := none
  sessions : Option (List Session) := none

/-- The questions in the order they were asked. -/
def Survey.log (q : Survey) : List Inquiry :=
  (q.setup.map .setup).toList ++ (q.schedule.map fun (user, allowed) => .schedule user allowed).toList
    ++ (q.sessions.map .sessions).toList

/-- It is left to the schedule whether the caller may proceed: he is the user asked about, and all
other checks have been passed with the answers in the log. -/
structure LeftToSchedule (ctx : RequestContext) (rule : Rule) (log : List Inquiry) (user : UserId) :
    Prop where
  names : ctx.Names user
  noAdmin : ¬ctx.IsAdmin
  noKey : ¬ctx.IsApiKey
  heeded : rule.ignoreSchedule = false
  passes (k : Collaborators Id) (gives : k.Gives log) (c : Check) (other : c ≠ .schedule) :
    ¬c.Fails k ctx rule

/-- It is left to the sessions: the requirement trusts addresses, the caller's is known, and his
credential has been rejected. -/
structure LeftToSessions {σ : Type} (k : Collaborators (StateM σ)) (ctx : RequestContext)
    (r : Requirement) (s : σ) : Prop where
  requirement : r = .unsafeAddress
  known : ∃ peer, ctx.peer = some peer
  rejected : ∃ reason, ((validate k ctx.claims r.rule).run s).1 = .rejected reason

/-- What is asked about claims. -/
def AboutClaims (ctx : RequestContext) (rule : Rule) (log : List Inquiry) : Prop :=
  ∃ q : Survey, log = q.log ∧ q.sessions = none ∧ (rule.allowBeforeSetup = true → q.setup = none) ∧
    ∀ user allowed, q.schedule = some (user, allowed) → LeftToSchedule ctx rule log user

/-- What is asked about a request. -/
def AboutRequest {σ : Type} (k : Collaborators (StateM σ)) (ctx : RequestContext) (r : Requirement)
    (s : σ) (log : List Inquiry) : Prop :=
  ∃ q : Survey, log = q.log ∧ (∀ listed, q.sessions = some listed → LeftToSessions k ctx r s) ∧
    ∀ user allowed, q.schedule = some (user, allowed) → LeftToSchedule ctx r.rule log user

section Claims
variable {σ : Type} {k : Collaborators (StateM σ)} {ctx : RequestContext} {rule : Rule} {s : σ}
  {log more : List Inquiry} {user : UserId}

/-- What is left to the schedule is so whatever else was asked. -/
theorem LeftToSchedule.prepend (h : LeftToSchedule ctx rule more user) :
    LeftToSchedule ctx rule (log ++ more) user :=
  { h with passes := fun k gives => h.passes k (Collaborators.gives_append.mp gives).2 }

theorem LeftToSchedule.extend (h : LeftToSchedule ctx rule log user) :
    LeftToSchedule ctx rule (log ++ more) user :=
  { h with passes := fun k gives => h.passes k (Collaborators.gives_append.mp gives).1 }

/-- A question about setup, unless it was left out, and then perhaps one about the schedule. -/
theorem aboutClaims (ctx : RequestContext) {known : Bool} (ready : Bool)
    (early : rule.allowBeforeSetup = true → known = true)
    (schedule : Option (UserId × Bool))
    (left : ∀ user allowed, schedule = some (user, allowed) →
      LeftToSchedule ctx rule ((if known then [] else [.setup ready]) ++ [.schedule user allowed]) user) :
    AboutClaims ctx rule ((if known then [] else [.setup ready]) ++
      (schedule.map fun (user, allowed) => .schedule user allowed).toList) := by
  refine ⟨{ setup := if known then none else some ready, schedule }, ?_, rfl, ?_, ?_⟩
  · cases known <;> simp [Survey.log]
  · intro allows
    simp [early allows]
  · rintro user allowed ⟨⟩
    exact left user allowed rfl

/-- Checking claims asks about setup where the rule and the claims leave it open, and then about the
schedule if all depends on it. -/
theorem validate_asks (k : Collaborators (StateM σ)) (ctx : RequestContext) (rule : Rule) (s : σ) :
    Asks k (fun k => validate k ctx.claims rule) s (AboutClaims ctx rule) := by
  unfold validate
  refine .ite (fun _ => ⟨[], .pure _, {}, rfl, rfl, fun _ => rfl, nofun⟩) fun noAdmin => ?_
  refine .unlessKnown (q := .setup) _ .setup fun ready s _ => ?_
  have early (h : rule.allowBeforeSetup = true) :
      (rule.allowBeforeSetup || ctx.claims.any (·.administrator)) = true := by simp [h]
  have stop := aboutClaims ctx ready early none nofun
  refine .ite (fun _ => ⟨[], .pure _, stop⟩) fun isReady => ?_
  refine .ite (fun _ => ⟨[], .pure _, stop⟩) fun tv => ?_
  refine .ite (fun _ => ⟨[], .pure _, stop⟩) fun key => ?_
  cases found : ctx.claims.bind Claims.resolvedUser with
  | none => exact ⟨[], .pure _, stop⟩
  | some user =>
    refine .unlessKnown (q := .schedule user) _ (.schedule user) fun allowed s _ => ?_
    refine ⟨[], .pure _, ?_⟩
    by_cases skipped : (rule.ignoreSchedule || ctx.claims.any (·.administrator)) = true
    · simpa [skipped] using stop
    simp only [skipped, Bool.false_eq_true, if_false]
    obtain ⟨heeded, admin⟩ : rule.ignoreSchedule = false ∧ ¬ctx.IsAdmin := by
      simpa [RequestContext.isAdmin_iff] using skipped
    have names : ctx.Names user := RequestContext.names_iff.mpr found
    refine aboutClaims ctx ready early (some (user, allowed)) ?_
    rintro _ _ ⟨⟩
    refine ⟨names, admin, mt RequestContext.isApiKey_iff.mp key, heeded,
      fun k' gives c other fails => ?_⟩
    -- Whatever else fails, the evaluation would have ended there.
    cases c with
    | administrator =>
      exact noAdmin (by simpa [Check.Fails, RequestContext.isAdmin_iff] using fails)
    | setup =>
      obtain ⟨strict, -, running⟩ := fails
      have asked : k'.setupComplete = ready :=
        gives (.setup ready) (by simpa [strict, RequestContext.isAdmin_iff] using admin)
      exact isReady (by simp [← asked, running])
    | liveTv =>
      exact tv (by
        simpa [Check.Fails, RequestContext.isAdmin_iff, RequestContext.hasLiveTv_iff] using fails)
    | identity => exact fails.2 user names
    | schedule => exact other rfl

end Claims

section Requests
variable {σ : Type} {k : Collaborators (StateM σ)} {ctx : RequestContext} {r : Requirement} {s : σ}
  {log : List Inquiry}

/-- Where the claims decide, what is asked about them is all. -/
theorem AboutClaims.request (h : AboutClaims ctx r.rule log) : AboutRequest k ctx r s log := by
  obtain ⟨q, rfl, unlisted, -, left⟩ := h
  exact ⟨q, rfl, by simp [unlisted], left⟩

/-- The sessions are asked for after all other questions, and about a known address. -/
theorem authorizeByAddress_asks (k : Collaborators (StateM σ)) (ctx : RequestContext) (s : σ) :
    Asks k (fun k => authorizeByAddress k ctx) s (AboutRequest k ctx .unsafeAddress s) := by
  unfold authorizeByAddress
  obtain ⟨log, evaluates, about⟩ := validate_asks k ctx Requirement.unsafeAddress.rule s
  refine .bind evaluates ?_
  have stop : AboutRequest k ctx .unsafeAddress s (log ++ []) := by simpa using about.request
  refine .ite (fun _ => ⟨[], .pure _, stop⟩) fun refused => ?_
  simp only [RequestContext.remoteAddress]
  cases known : ctx.peer with
  | none => exact ⟨[], .pure _, stop⟩
  | some peer =>
    refine .bind .sessions ⟨[], .pure _, ?_⟩
    generalize (StateT.run k.sessions _).1 = listed
    obtain ⟨q, rfl, unlisted, -, left⟩ := about
    refine ⟨{ q with sessions := some listed }, by simp [Survey.log, unlisted], ?_, ?_⟩
    · intro _ _
      refine ⟨rfl, ⟨peer, known⟩, ?_⟩
      cases verdict : ((validate k ctx.claims Requirement.unsafeAddress.rule).run s).1 with
      | accepted g => simp [verdict, Verdict.isAccepted] at refused
      | rejected reason => exact ⟨reason, rfl⟩
    · intro user allowed asked
      exact (left user allowed asked).extend

/-- First-time setup asks about setup itself, and its rule does not ask again. -/
theorem judge_asks (k : Collaborators (StateM σ)) (ctx : RequestContext) (r : Requirement) (s : σ) :
    Asks k (fun k => judge k ctx r) s (AboutRequest k ctx r s) := by
  have claims : Asks k (fun k => validate k ctx.claims r.rule) s (AboutRequest k ctx r s) := by
    obtain ⟨log, evaluates, about⟩ := validate_asks k ctx r.rule s
    exact ⟨log, evaluates, about.request⟩
  cases r with
  | unsafeAddress => exact authorizeByAddress_asks k ctx s
  | firstTimeSetup admin =>
    unfold judge
    refine .bind .setup ?_
    generalize (k.setupComplete.run s).1 = complete
    refine .ite (fun _ => ?_) fun _ => ⟨[], .pure _, { setup := some complete }, rfl, nofun, nofun⟩
    obtain ⟨more, evaluates, q, rfl, unlisted, unasked, left⟩ :=
      validate_asks k ctx (Requirement.firstTimeSetup admin).rule (k.setupComplete.run s).2
    refine ⟨_, evaluates, { q with setup := some complete }, ?_, by simp [unlisted], ?_⟩
    · simp [Survey.log, unasked rfl]
    · intro user allowed asked
      exact (left user allowed asked).prepend
  | default | elevation | liveTvAccess | schedulesDirectAccess | ignoreParentalControl
  | ignoreSchedule => exact claims

theorem authorize_asks (k : Collaborators (StateM σ)) (ctx : RequestContext) (r : Requirement)
    (s : σ) : Asks k (fun k => authorize k ctx r) s (AboutRequest k ctx r s) := by
  unfold authorize
  obtain ⟨log, evaluates, about⟩ := judge_asks k ctx r s
  exact .bind evaluates ⟨[], .pure _, by simpa using about⟩

/-- Questions that were asked once can be answered in the same way always. -/
theorem Survey.exists_gives (q : Survey) : ∃ k : Collaborators Id, k.Gives q.log := by
  refine ⟨⟨pure (q.setup.getD true), fun _ => pure ((q.schedule.map (·.2)).getD true),
    pure (q.sessions.getD [])⟩, ?_⟩
  intro inquiry asked
  simp only [log, List.mem_append, Option.mem_toList, Option.map_eq_some_iff] at asked
  rcases asked with (⟨complete, given, rfl⟩ | ⟨⟨user, allowed⟩, given, rfl⟩) | ⟨listed, given, rfl⟩ <;>
    simp [given]

end Requests

/-- Collaborators are asked only where their answer decides, whatever they are and however their
answers change. Each of the three questions is asked once at most: about setup first; then about the
schedule, if the caller passes every other check and the schedule matters to him; then for the sessions,
if addresses are trusted, the caller's is known and his credential was rejected. The decision depends
on the answers alone, and is the one under a setup state that does not change. -/
theorem authorize_consults {σ : Type} (k : Collaborators (StateM σ)) (ctx : RequestContext)
    (r : Requirement) (s : σ) :
    ∃ q : Survey,
      ((authorize k.logged ctx r).run []).run s =
        ((((authorize k ctx r).run s).1, q.log), ((authorize k ctx r).run s).2) ∧
      (∀ listed, q.sessions = some listed → LeftToSessions k ctx r s) ∧
      (∀ user allowed, q.schedule = some (user, allowed) →
        LeftToSchedule ctx r.rule q.log user) ∧
      (∃ k' : Collaborators Id, k'.Gives q.log) ∧
      (∀ k' : Collaborators Id, k'.Gives q.log →
        Id.run (authorize k' ctx r) = ((authorize k ctx r).run s).1) ∧
      ∃ complete, (∀ b, q.setup = some b → b = complete) ∧
        (authorize (k.withSetup complete) ctx r).run s = (authorize k ctx r).run s := by
  obtain ⟨log, evaluates, q, rfl, listed, left⟩ := authorize_asks k ctx r s
  refine ⟨q, evaluates.logged [], listed, left, q.exists_gives, evaluates.replayed,
    q.setup.getD true, fun b asked => by simp [asked], evaluates.settled _ fun b asked => ?_⟩
  have asked : q.setup = some b := by simpa [Survey.log] using asked
  simp [asked]

/-- Setup completes once it has been asked about; one session is active. -/
def finishingSetup : Collaborators (StateM Nat) where
  setupComplete := modifyGet fun n => (0 < n, n + 1)
  allows _ := pure true
  sessions := pure [⟨"a", "10.0.0.7", none⟩]

/-- A guest at the session's address is trusted for it. Asked about again, setup would be complete. -/
example :
    Id.run (((authorize finishingSetup.logged { peer := some (.v4 ⟨10, 0, 0, 7⟩) }
      .unsafeAddress).run []).run 0) =
      ((⟨.unsafeAddress, .accepted (.trustedSessionAddress "a")⟩,
        [.setup false, .sessions [⟨"a", "10.0.0.7", none⟩]]), 1) := by
  decide +kernel

end TunerBroker
