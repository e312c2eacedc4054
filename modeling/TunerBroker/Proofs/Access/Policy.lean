import TunerBroker.Access.Authorize

/-! The access policy said without the procedure: what a caller's claims amount to, the ordered
checks of a rule, and the three ways a requirement can be met. `authorize` decides exactly this, for
every setup state, schedule and session list. -/

namespace TunerBroker

namespace RequestContext

/-- The caller's credential is an administrator's. -/
def IsAdmin (ctx : RequestContext) : Prop := ∃ c, ctx.claims = some c ∧ c.administrator = true

/-- The caller's credential carries live TV access. -/
def HasLiveTv (ctx : RequestContext) : Prop := ∃ c, ctx.claims = some c ∧ c.liveTv = true

/-- The caller's credential is an API key. -/
def IsApiKey (ctx : RequestContext) : Prop := ∃ c, ctx.claims = some c ∧ c.apiKey = true

/-- The caller's credential names a user, and not the nil one. -/
def Names (ctx : RequestContext) (u : UserId) : Prop :=
  ∃ c, ctx.claims = some c ∧ c.user = some u ∧ u ≠ UserId.nil

variable {ctx : RequestContext} {u v : UserId}

theorem isAdmin_iff : ctx.IsAdmin ↔ ctx.claims.any (·.administrator) = true :=
  (Option.any_eq_true ..).symm

theorem hasLiveTv_iff : ctx.HasLiveTv ↔ ctx.claims.any (·.liveTv) = true :=
  (Option.any_eq_true ..).symm

theorem isApiKey_iff : ctx.IsApiKey ↔ ctx.claims.any (·.apiKey) = true :=
  (Option.any_eq_true ..).symm

instance : Decidable ctx.IsAdmin := decidable_of_iff _ isAdmin_iff.symm

instance : Decidable ctx.HasLiveTv := decidable_of_iff _ hasLiveTv_iff.symm

instance : Decidable ctx.IsApiKey := decidable_of_iff _ isApiKey_iff.symm

theorem names_iff : ctx.Names u ↔ ctx.claims.bind Claims.resolvedUser = some u := by
  simp [Names, Option.bind_eq_some_iff, Claims.resolvedUser, Option.filter_eq_some_iff,
    UserId.isNil]

/-- A credential names one user at most. -/
theorem Names.unique (h : ctx.Names u) (h' : ctx.Names v) : u = v :=
  Option.some.inj ((names_iff.mp h).symm.trans (names_iff.mp h'))

end RequestContext

/-- What a rule checks. -/
inductive Check where
  | administrator
  | setup
  | liveTv
  | identity
  | schedule
  deriving DecidableEq

namespace Check

/-- The checks in the order they are made. -/
def inOrder : List Check := [administrator, setup, liveTv, identity, schedule]

/-- What a caller that fails the check is told. -/
def reason : Check → RejectReason
  | administrator => .administratorRequired
  | setup => .setupIncomplete
  | liveTv => .liveTvAccessDenied
  | identity => .noIdentity
  | schedule => .outsideAccessSchedule

/-- When a caller fails the check. Administrators pass all but the first and the fourth, and nothing
is asked about the identity of an API key. -/
def Fails (k : Collaborators Id) (ctx : RequestContext) (rule : Rule) : Check → Prop
  | administrator => rule.requireAdmin = true ∧ ¬ctx.IsAdmin
  | setup => rule.allowBeforeSetup = false ∧ ¬ctx.IsAdmin ∧ k.setupComplete = false
  | liveTv => rule.requireLiveTv = true ∧ ¬ctx.IsAdmin ∧ ¬ctx.HasLiveTv
  | identity => ¬ctx.IsApiKey ∧ ∀ u, ¬ctx.Names u
  | schedule => ¬ctx.IsApiKey ∧ rule.ignoreSchedule = false ∧ ¬ctx.IsAdmin ∧
      ∃ u, ctx.Names u ∧ k.allows u = false

/-- The caller fails this check and passes every one before it. -/
def FailsFirst (k : Collaborators Id) (ctx : RequestContext) (rule : Rule) (c : Check) : Prop :=
  ∃ before after, inOrder = before ++ c :: after ∧ (∀ b ∈ before, ¬b.Fails k ctx rule) ∧
    c.Fails k ctx rule

variable {k : Collaborators Id} {ctx : RequestContext} {rule : Rule} {c d : Check}

/-- Of two places in a list that are the first of their kind, neither is before the other. -/
theorem FailsFirst.unique (hc : FailsFirst k ctx rule c) (hd : FailsFirst k ctx rule d) : c = d := by
  obtain ⟨xs, _, hxs, passC, failC⟩ := hc
  obtain ⟨ys, _, hys, passD, failD⟩ := hd
  rw [hxs] at hys
  rcases List.append_eq_append_iff.mp hys with ⟨zs, rfl, h⟩ | ⟨zs, rfl, h⟩
  · cases zs with
    | nil => exact (List.cons.inj h).1
    | cons z zs =>
      obtain ⟨rfl, -⟩ := List.cons.inj h
      exact absurd failC (passD c (by simp))
  · cases zs with
    | nil => exact (List.cons.inj h).1.symm
    | cons z zs =>
      obtain ⟨rfl, -⟩ := List.cons.inj h
      exact absurd failD (passC d (by simp))

end Check

/-- The claims meet a rule, and with what grant. -/
structure Meets (k : Collaborators Id) (ctx : RequestContext) (rule : Rule) (g : Grant) : Prop where
  administrator : rule.requireAdmin = true → ctx.IsAdmin
  setup : ctx.IsAdmin ∨ rule.allowBeforeSetup = true ∨ k.setupComplete = true
  liveTv : rule.requireLiveTv = true → ctx.IsAdmin ∨ ctx.HasLiveTv
  /-- An API key, or a user who is an administrator, in schedule or asked for no schedule. -/
  identity : ctx.IsApiKey ∧ g = .apiKey ∨
    ¬ctx.IsApiKey ∧ ∃ u, ctx.Names u ∧
      (ctx.IsAdmin ∨ k.allows u = true ∨ rule.ignoreSchedule = true) ∧ g = .credential u

/-- The session was last seen from the caller's address, and no session before it in the list was.
Addresses are compared in normal form and without regard to case. -/
def SeenFrom (k : Collaborators Id) (ctx : RequestContext) (s : Session) : Prop :=
  ∃ peer, ctx.peer = some peer ∧ ∃ before after, k.sessions = before ++ s :: after ∧
    s.endpoint.toLower = peer.normalize.text.toLower ∧
    ∀ t ∈ before, t.endpoint.toLower ≠ peer.normalize.text.toLower

/-- The requirement is one that first-time setup opens, and setup still runs. -/
def SetupOpens (k : Collaborators Id) (r : Requirement) : Prop :=
  (∃ b, r = .firstTimeSetup b) ∧ k.setupComplete = false

/-- With what grant a request is to be accepted. -/
inductive Accepts (k : Collaborators Id) (ctx : RequestContext) : Requirement → Grant → Prop
  | setup {r} (opens : SetupOpens k r) : Accepts k ctx r .setupInProgress
  | claims {r g} (shut : ¬SetupOpens k r) (meets : Meets k ctx r.rule g) : Accepts k ctx r g
  | address {s} (fails : ¬∃ g, Meets k ctx Requirement.unsafeAddress.rule g)
      (seen : SeenFrom k ctx s) : Accepts k ctx .unsafeAddress (.trustedSessionAddress s.id)

/-- For what reason a request is to be rejected. -/
inductive Rejects (k : Collaborators Id) (ctx : RequestContext) : Requirement → RejectReason → Prop
  | check {r} {c : Check} (shut : ¬SetupOpens k r) (strict : r ≠ .unsafeAddress)
      (first : c.FailsFirst k ctx r.rule) : Rejects k ctx r c.reason
  | nowhere (fails : ¬∃ g, Meets k ctx Requirement.unsafeAddress.rule g) (peer : ctx.peer = none) :
      Rejects k ctx .unsafeAddress .remoteAddressUnavailable
  | stranger (fails : ¬∃ g, Meets k ctx Requirement.unsafeAddress.rule g) {peer}
      (known : ctx.peer = some peer)
      (unseen : ∀ s ∈ (Id.run k.sessions),
        s.endpoint.toLower ≠ peer.normalize.text.toLower) :
      Rejects k ctx .unsafeAddress .noMatchingSession

section Rules
variable {k : Collaborators Id} {ctx : RequestContext} {rule : Rule} {g g' : Grant} {c : Check}

theorem Meets.not_fails (h : Meets k ctx rule g) : ¬c.Fails k ctx rule := by
  intro fails
  cases c with
  | administrator => exact fails.2 (h.administrator fails.1)
  | setup => obtain ⟨early, admin, running⟩ := fails; simpa [admin, early, running] using h.setup
  | liveTv => obtain ⟨asked, admin, tv⟩ := fails; simpa [admin, tv] using h.liveTv asked
  | identity =>
    rcases h.identity with ⟨key, -⟩ | ⟨-, u, named, -⟩
    · exact fails.1 key
    · exact fails.2 u named
  | schedule =>
    obtain ⟨key, strict, admin, u, named, out⟩ := fails
    rcases h.identity with ⟨key', -⟩ | ⟨-, v, named', lets, -⟩
    · exact key key'
    · rw [named'.unique named] at lets
      simp [admin, out, strict] at lets

/-- Claims meet all the rules they meet with one grant. -/
theorem Meets.unique {rule' : Rule} (h : Meets k ctx rule g) (h' : Meets k ctx rule' g') :
    g = g' := by
  rcases h.identity with ⟨key, rfl⟩ | ⟨key, u, named, -, rfl⟩ <;>
    rcases h'.identity with ⟨key', rfl⟩ | ⟨key', v, named', -, rfl⟩
  · rfl
  · exact absurd key key'
  · exact absurd key' key
  · rw [named.unique named']

/-- What a verdict on claims tells of them. -/
def Verdict.Tells (k : Collaborators Id) (ctx : RequestContext) (rule : Rule) : Verdict → Prop
  | .accepted g => Meets k ctx rule g
  | .rejected e => ∃ c : Check, c.FailsFirst k ctx rule ∧ c.reason = e

/-- `validate` with plain answers, as a chain of checks. A flag of the rule or an administrator
decides whether a question is asked at all, so once those are known both sides ask the same. -/
theorem validate_run (k : Collaborators Id) (ctx : RequestContext) (rule : Rule) :
    Id.run (validate k ctx.claims rule) =
      if rule.requireAdmin = true ∧ ¬ctx.IsAdmin then .rejected .administratorRequired
      else if rule.allowBeforeSetup = false ∧ ¬ctx.IsAdmin ∧ Id.run k.setupComplete = false then
        .rejected .setupIncomplete
      else if rule.requireLiveTv = true ∧ ¬ctx.IsAdmin ∧ ¬ctx.HasLiveTv then
        .rejected .liveTvAccessDenied
      else if ctx.IsApiKey then .accepted .apiKey
      else
        match ctx.claims.bind Claims.resolvedUser with
        | none => .rejected .noIdentity
        | some u =>
          if ctx.IsAdmin ∨ Id.run (k.allows u) = true ∨ rule.ignoreSchedule = true then
            .accepted (.credential u)
          else .rejected .outsideAccessSchedule := by
  unfold validate
  simp only [RequestContext.isAdmin_iff, RequestContext.hasLiveTv_iff, RequestContext.isApiKey_iff]
  cases ctx.claims.any (·.administrator) <;> cases rule.allowBeforeSetup <;>
    cases rule.requireLiveTv <;> cases rule.requireAdmin <;> cases rule.ignoreSchedule <;>
    cases ctx.claims.bind Claims.resolvedUser <;> simp <;> rfl

/-- The verdict on claims, check by check: each branch knows what the ones before it were about. -/
theorem validate_tells (k : Collaborators Id) (ctx : RequestContext) (rule : Rule) :
    Verdict.Tells k ctx rule (Id.run (validate k ctx.claims rule)) := by
  have after {c : Check} {l : List Check} (pass : ∀ b ∈ l, ¬b.Fails k ctx rule)
      (next : ¬c.Fails k ctx rule) : ∀ b ∈ l ++ [c], ¬b.Fails k ctx rule :=
    List.forall_mem_append.mpr ⟨pass, List.forall_mem_singleton.mpr next⟩
  rw [validate_run]
  split
  case isTrue fails => exact ⟨.administrator, ⟨[], _, rfl, by simp, fails⟩, rfl⟩
  case isFalse admin =>
  have passed := after (l := []) (c := .administrator) (by simp) admin
  split
  case isTrue fails => exact ⟨.setup, ⟨_, _, rfl, passed, fails⟩, rfl⟩
  case isFalse setup =>
  replace passed := after (c := .setup) passed setup
  split
  case isTrue fails => exact ⟨.liveTv, ⟨_, _, rfl, passed, fails⟩, rfl⟩
  case isFalse tv =>
  replace passed := after (c := .liveTv) passed tv
  have meets {g} (identity) : Meets k ctx rule g :=
    { administrator := fun asked => Classical.not_not.mp fun no => admin ⟨asked, no⟩
      setup := Classical.not_not.mp fun no => by
        simp only [not_or] at no
        exact setup ⟨eq_false_of_ne_true no.2.1, no.1, eq_false_of_ne_true no.2.2⟩
      liveTv := fun asked => Classical.not_not.mp fun no => tv ⟨asked, not_or.mp no⟩
      identity }
  split
  case isTrue key => exact meets (.inl ⟨key, rfl⟩)
  case isFalse key =>
  split
  case h_1 nobody =>
    have unnamed (u) : ¬ctx.Names u := by simp [RequestContext.names_iff, nobody]
    exact ⟨.identity, ⟨_, _, rfl, passed, key, unnamed⟩, rfl⟩
  case h_2 u found =>
    have named := RequestContext.names_iff.mpr found
    replace passed := after (c := .identity) passed fun fails => fails.2 u named
    split
    case isTrue lets => exact meets (.inr ⟨key, u, named, lets, rfl⟩)
    case isFalse out =>
      simp only [not_or, Bool.not_eq_true] at out
      exact ⟨.schedule, ⟨_, _, rfl, passed, key, out.2.2, out.1, u, named, out.2.1⟩, rfl⟩

variable {e : RejectReason}

theorem validate_accepts :
    Id.run (validate k ctx.claims rule) = .accepted g ↔ Meets k ctx rule g := by
  have tells := validate_tells k ctx rule
  constructor
  · intro h
    rwa [h] at tells
  · intro meets
    cases h : Id.run (validate k ctx.claims rule) with
    | accepted g' =>
      rw [h] at tells
      rw [Meets.unique meets tells]
    | rejected e =>
      rw [h] at tells
      obtain ⟨c, ⟨_, _, -, -, fails⟩, -⟩ := tells
      exact absurd fails meets.not_fails

theorem validate_rejects : Id.run (validate k ctx.claims rule) = .rejected e ↔
    ∃ c : Check, c.FailsFirst k ctx rule ∧ c.reason = e := by
  have tells := validate_tells k ctx rule
  constructor
  · intro h
    rwa [h] at tells
  · rintro ⟨c, first, rfl⟩
    cases h : Id.run (validate k ctx.claims rule) with
    | accepted g =>
      obtain ⟨_, _, -, -, fails⟩ := first
      exact absurd fails (validate_accepts.mp h).not_fails
    | rejected e =>
      rw [h] at tells
      obtain ⟨d, first', rfl⟩ := tells
      rw [first.unique first']

/-- A verdict that is no grant is for one reason, and the other way round. -/
theorem validate_refuses : (∃ e, Id.run (validate k ctx.claims rule) = .rejected e) ↔
    ¬∃ g, Meets k ctx rule g := by
  cases h : Id.run (validate k ctx.claims rule) with
  | accepted g => simpa using ⟨g, validate_accepts.mp h⟩
  | rejected e =>
    have none (g) : ¬Meets k ctx rule g := fun meets => by simp [validate_accepts.mpr meets] at h
    simpa using none

end Rules

theorem sameIgnoringCase_iff {s t : String} :
    sameIgnoringCase s t = true ↔ s.toLower = t.toLower := by
  have lower : ∀ x : String, x.toLower = x.map Char.toLower := fun _ => rfl
  simp [sameIgnoringCase, lower, ← String.toList_inj]

section Address
variable {k : Collaborators Id} {ctx : RequestContext} {peer : IpAddress} {s : Session}

theorem seenFrom_iff (known : ctx.peer = some peer) : SeenFrom k ctx s ↔
    (Id.run k.sessions).find? (fun t => sameIgnoringCase t.endpoint peer.normalize.text) = some s := by
  rw [List.find?_eq_some_iff_append]
  simp only [SeenFrom, known, Option.some.injEq, exists_eq_left', sameIgnoringCase_iff,
    Bool.not_eq_true', ← Bool.not_eq_true]
  constructor
  · rintro ⟨before, after, list, hit, miss⟩
    exact ⟨hit, before, after, list, miss⟩
  · rintro ⟨hit, before, after, list, miss⟩
    exact ⟨before, after, list, hit, miss⟩

end Address

section Requirements
variable {k : Collaborators Id} {ctx : RequestContext} {r : Requirement} {g : Grant}
  {e : RejectReason}

/-- Where setup does not open the door and no address can help, the claims decide. -/
theorem judge_claims (shut : ¬SetupOpens k r) (strict : r ≠ .unsafeAddress) :
    Id.run (judge k ctx r) = Id.run (validate k ctx.claims r.rule) := by
  cases r with
  | unsafeAddress => exact absurd rfl strict
  | firstTimeSetup b =>
    have ready : Id.run k.setupComplete = true :=
      Classical.not_not.mp fun running => shut ⟨⟨b, rfl⟩, eq_false_of_ne_true running⟩
    simp [judge, ready]
  | default | elevation | liveTvAccess | schedulesDirectAccess | ignoreParentalControl
  | ignoreSchedule => rfl

/-- A credential that will do wins over any address. -/
theorem judge_credential (meets : Meets k ctx Requirement.unsafeAddress.rule g) :
    Id.run (judge k ctx .unsafeAddress) = .accepted g := by
  simp [judge, authorizeByAddress, validate_accepts.mpr meets, Verdict.isAccepted]

/-- Without such a credential the address decides, if there is one. -/
theorem judge_address (fails : ¬∃ g, Meets k ctx Requirement.unsafeAddress.rule g) :
    Id.run (judge k ctx .unsafeAddress) =
      match ctx.peer with
      | none => .rejected .remoteAddressUnavailable
      | some peer => matchAddress peer.normalize (Id.run k.sessions) := by
  obtain ⟨e, refused⟩ := validate_refuses.mpr fails
  cases peer : ctx.peer <;>
    simp [judge, authorizeByAddress, refused, Verdict.isAccepted, RequestContext.remoteAddress, peer]

theorem Accepts.judged (h : Accepts k ctx r g) : Id.run (judge k ctx r) = .accepted g := by
  cases h with
  | setup opens =>
    obtain ⟨⟨b, rfl⟩, running⟩ := opens
    have running : Id.run k.setupComplete = false := running
    simp [judge, running]
  | claims shut meets =>
    by_cases strict : r = .unsafeAddress
    · subst strict
      exact judge_credential meets
    · rw [judge_claims shut strict, validate_accepts.mpr meets]
  | address fails seen =>
    have ⟨peer, known, _⟩ := seen
    rw [judge_address fails, known]
    simp only [matchAddress, (seenFrom_iff known).mp seen]

theorem Rejects.judged (h : Rejects k ctx r e) : Id.run (judge k ctx r) = .rejected e := by
  cases h with
  | check shut strict first =>
    rw [judge_claims shut strict, validate_rejects.mpr ⟨_, first, rfl⟩]
  | nowhere fails peer => rw [judge_address fails, peer]
  | stranger fails known unseen =>
    have missed : (Id.run k.sessions).find? (fun s => sameIgnoringCase s.endpoint _) = none :=
      List.find?_eq_none.mpr fun s hs same => unseen s hs (sameIgnoringCase_iff.mp same)
    rw [judge_address fails, known]
    simp only [matchAddress, missed]

/-- The policy leaves no request undecided. -/
theorem accepts_or_rejects (k : Collaborators Id) (ctx : RequestContext) (r : Requirement) :
    (∃ g, Accepts k ctx r g) ∨ ∃ e, Rejects k ctx r e := by
  by_cases opens : SetupOpens k r
  · exact .inl ⟨_, .setup opens⟩
  by_cases meets : ∃ g, Meets k ctx r.rule g
  · obtain ⟨g, meets⟩ := meets
    exact .inl ⟨g, .claims opens meets⟩
  by_cases strict : r = .unsafeAddress
  · subst strict
    cases known : ctx.peer with
    | none => exact .inr ⟨_, .nowhere meets known⟩
    | some peer =>
      cases found : (Id.run k.sessions).find? fun t =>
          sameIgnoringCase t.endpoint peer.normalize.text with
      | none =>
        refine .inr ⟨_, .stranger meets known fun s hs same => ?_⟩
        exact List.find?_eq_none.mp found s hs (sameIgnoringCase_iff.mpr same)
      | some s => exact .inl ⟨_, .address meets ((seenFrom_iff known).mpr found)⟩
  · obtain ⟨e, refused⟩ := validate_refuses.mpr meets
    obtain ⟨c, first, -⟩ := validate_rejects.mp refused
    exact .inr ⟨_, .check opens strict first⟩

theorem judge_accepts : Id.run (judge k ctx r) = .accepted g ↔ Accepts k ctx r g := by
  refine ⟨fun h => ?_, Accepts.judged⟩
  rcases accepts_or_rejects k ctx r with ⟨g', accepts⟩ | ⟨e, rejects⟩
  · rw [accepts.judged] at h
    cases h
    exact accepts
  · rw [rejects.judged] at h
    cases h

theorem judge_rejects : Id.run (judge k ctx r) = .rejected e ↔ Rejects k ctx r e := by
  refine ⟨fun h => ?_, Rejects.judged⟩
  rcases accepts_or_rejects k ctx r with ⟨g, accepts⟩ | ⟨e', rejects⟩
  · rw [accepts.judged] at h
    cases h
  · rw [rejects.judged] at h
    cases h
    exact rejects

theorem authorize_verdict (k : Collaborators Id) (ctx : RequestContext) (r : Requirement) :
    (Id.run (authorize k ctx r)).verdict = Id.run (judge k ctx r) := by
  simp [authorize]

theorem isAccepted_iff : (Id.run (authorize k ctx r)).isAccepted = true ↔ ∃ g, Accepts k ctx r g := by
  simp only [← judge_accepts, Decision.isAccepted, authorize_verdict]
  cases Id.run (judge k ctx r) <;> simp [Verdict.isAccepted]

end Requirements

/-- Authorization decides exactly the policy, for every setup state, schedule, session list, request
and requirement. A request is accepted when setup opens the door, when its claims meet the rule of
the requirement, or when the requirement trusts addresses and a session was last seen from the
caller's; the grant and the reason are those of the policy. -/
theorem authorize_decides (k : Collaborators Id) (ctx : RequestContext) (r : Requirement) :
    (Id.run (authorize k ctx r)).requirement = r ∧
    ((Id.run (authorize k ctx r)).isAccepted = true ↔
      ((∃ b, r = .firstTimeSetup b) ∧ k.setupComplete = false) ∨
      (∃ g, Meets k ctx r.rule g) ∨
      (r = .unsafeAddress ∧ (¬∃ g, Meets k ctx r.rule g) ∧ ∃ s, SeenFrom k ctx s)) ∧
    (∀ g, (Id.run (authorize k ctx r)).verdict = .accepted g ↔ Accepts k ctx r g) ∧
    (∀ e, (Id.run (authorize k ctx r)).verdict = .rejected e ↔ Rejects k ctx r e) := by
  refine ⟨by simp [authorize], ?_, fun g => ?_, fun e => ?_⟩
  · rw [isAccepted_iff]
    constructor
    · rintro ⟨g, accepts⟩
      cases accepts with
      | setup opens => exact .inl opens
      | claims shut meets => exact .inr (.inl ⟨g, meets⟩)
      | address fails seen => exact .inr (.inr ⟨rfl, fails, _, seen⟩)
    · rintro (opens | ⟨g, meets⟩ | ⟨rfl, fails, s, seen⟩)
      · exact ⟨_, .setup opens⟩
      · by_cases opens : SetupOpens k r
        · exact ⟨_, .setup opens⟩
        · exact ⟨g, .claims opens meets⟩
      · exact ⟨_, .address fails seen⟩
  · rw [authorize_verdict, judge_accepts]
  · rw [authorize_verdict, judge_rejects]

end TunerBroker
