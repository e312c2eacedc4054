import Mathlib.Logic.Relation
import TunerBroker.Proofs.Access.Policy

/-! Requirements by strictness and claims by strength. Stronger claims meet every requirement that weaker
ones meet, and a caller who meets a stricter requirement meets an easier one, with the same grant where
the claims decide. -/

namespace TunerBroker

open Relation

/-! ### Claims by strength -/

/-- Claims are strengthened: rights are added to them, or there were none. -/
inductive Strengthens : Option Claims → Option Claims → Prop
  | administrator (c : Claims) : Strengthens (some c) (some c.asAdministrator)
  | liveTv (c : Claims) : Strengthens (some c) (some c.withLiveTv)
  | supplied (c : Claims) : Strengthens none (some c)

/-- The request with other claims. -/
def RequestContext.withClaims (ctx : RequestContext) (claims : Option Claims) : RequestContext :=
  { ctx with claims }

section Claims
variable {k : Collaborators Id} {ctx : RequestContext} {claims' : Option Claims}
  {rule : Rule} {r : Requirement} {g : Grant}

/-- Added rights leave the caller who he was. -/
theorem Strengthens.identity {c : Claims} (h : Strengthens (some c) claims') :
    ∃ c', claims' = some c' ∧ c'.user = c.user ∧ c'.apiKey = c.apiKey ∧
      (c.administrator = true → c'.administrator = true) ∧ (c.liveTv = true → c'.liveTv = true) := by
  cases h with
  | administrator => exact ⟨_, rfl, rfl, rfl, fun _ => rfl, id⟩
  | liveTv => exact ⟨_, rfl, rfl, rfl, id, fun _ => rfl⟩

/-- Claims that meet a rule are there. -/
theorem Meets.claims (h : Meets k ctx rule g) : ∃ c, ctx.claims = some c := by
  rcases h.identity with ⟨⟨c, hc, -⟩, -⟩ | ⟨-, u, ⟨c, hc, -⟩, -⟩ <;> exact ⟨c, hc⟩

/-- Strengthened claims meet a rule as they did before. -/
theorem Meets.strengthen (h : Meets k ctx rule g) (more : Strengthens ctx.claims claims') :
    Meets k (ctx.withClaims claims') rule g := by
  obtain ⟨c, hc⟩ := h.claims
  obtain ⟨c', rfl, user, apiKey, administrator, liveTv⟩ := Strengthens.identity (hc ▸ more)
  have admin : ctx.IsAdmin → (ctx.withClaims (some c')).IsAdmin := by
    rintro ⟨d, hd, had⟩
    obtain rfl : d = c := Option.some.inj (hd.symm.trans hc)
    exact ⟨c', rfl, administrator had⟩
  have tv : ctx.HasLiveTv → (ctx.withClaims (some c')).HasLiveTv := by
    rintro ⟨d, hd, had⟩
    obtain rfl : d = c := Option.some.inj (hd.symm.trans hc)
    exact ⟨c', rfl, liveTv had⟩
  have key : (ctx.withClaims (some c')).IsApiKey ↔ ctx.IsApiKey := by
    simp [RequestContext.IsApiKey, RequestContext.withClaims, hc, apiKey]
  have names (u : UserId) : (ctx.withClaims (some c')).Names u ↔ ctx.Names u := by
    simp [RequestContext.Names, RequestContext.withClaims, hc, user]
  refine ⟨fun asked => admin (h.administrator asked), h.setup.imp_left admin,
    fun asked => (h.liveTv asked).imp admin tv, ?_⟩
  rcases h.identity with ⟨isKey, rfl⟩ | ⟨noKey, u, named, lets, rfl⟩
  · exact .inl ⟨key.mpr isKey, rfl⟩
  · exact .inr ⟨fun isKey => noKey (key.mp isKey), u, (names u).mpr named, lets.imp_left admin, rfl⟩

/-- A request that is to be accepted is so with strengthened claims. An address that was trusted need
not be looked at any more. -/
theorem Accepts.strengthen (h : Accepts k ctx r g) (more : Strengthens ctx.claims claims') :
    ∃ g', Accepts k (ctx.withClaims claims') r g' := by
  cases h with
  | setup opens => exact ⟨_, .setup opens⟩
  | claims shut meets => exact ⟨g, .claims shut (meets.strengthen more)⟩
  | @address s fails seen =>
    by_cases meets : ∃ g', Meets k (ctx.withClaims claims') Requirement.unsafeAddress.rule g'
    · obtain ⟨g', meets⟩ := meets
      exact ⟨g', .claims (by rintro ⟨⟨b, ⟨⟩⟩, -⟩) meets⟩
    · exact ⟨_, .address meets seen⟩

end Claims

/-! ### Requirements by strictness -/

/-- What the first rule lets pass the second lets pass as well. Administrators have live TV access. -/
structure Rule.Eases (rule rule' : Rule) : Prop where
  administrator : rule'.requireAdmin = true → rule.requireAdmin = true
  liveTv : rule'.requireLiveTv = true → rule.requireLiveTv = true ∨ rule.requireAdmin = true
  setup : rule.allowBeforeSetup = true → rule'.allowBeforeSetup = true
  schedule : rule.ignoreSchedule = true → rule'.ignoreSchedule = true

/-- A requirement and the next easier ones. The first two ask the same. -/
inductive Requirement.Next : Requirement → Requirement → Prop
  | schedulesDirect : Next schedulesDirectAccess elevation
  | elevation : Next elevation schedulesDirectAccess
  | toLiveTv : Next elevation liveTvAccess
  | toDefault : Next liveTvAccess default
  | toIgnoreParentalControl : Next default ignoreParentalControl
  | toIgnoreSchedule : Next ignoreParentalControl ignoreSchedule
  | toUnsafe : Next default unsafeAddress
  | toSetup : Next default (firstTimeSetup false)
  | toAdminSetup : Next elevation (firstTimeSetup true)
  | ofAdminSetup : Next (firstTimeSetup true) (firstTimeSetup false)

/-- The grant comes from a credential. -/
def Grant.isOfClaims : Grant → Bool
  | .credential _ | .apiKey => true
  | .trustedSessionAddress _ | .setupInProgress => false

section Requirements
variable {k : Collaborators Id} {ctx : RequestContext} {rule rule' : Rule} {r r' : Requirement}
  {g g' : Grant}

theorem Requirement.Next.eases (h : r.Next r') : r.rule.Eases r'.rule := by
  cases h <;> constructor <;> simp [Requirement.rule]

/-- Claims that meet a rule meet an easier one, and with the same grant. -/
theorem Meets.ease (h : Meets k ctx rule g) (eases : rule.Eases rule') : Meets k ctx rule' g where
  administrator asked := h.administrator (eases.administrator asked)
  setup := h.setup.imp_right (Or.imp_left eases.setup)
  liveTv asked := (eases.liveTv asked).elim h.liveTv fun admin => .inl (h.administrator admin)
  identity := by
    refine h.identity.imp_right ?_
    rintro ⟨noKey, u, named, lets, rfl⟩
    exact ⟨noKey, u, named, lets.imp_right (Or.imp_right eases.schedule), rfl⟩

/-- A request that is to be accepted for a requirement is so for the next easier ones. -/
theorem Accepts.ease (h : Accepts k ctx r g) (next : r.Next r') : ∃ g', Accepts k ctx r' g' := by
  by_cases opens : SetupOpens k r'
  · exact ⟨_, .setup opens⟩
  cases h with
  | setup first =>
    -- Setup opens one requirement before another one, and that as well.
    obtain ⟨⟨b, rfl⟩, running⟩ := first
    cases next
    exact absurd ⟨⟨_, rfl⟩, running⟩ opens
  | claims shut meets => exact ⟨g, .claims opens (meets.ease next.eases)⟩
  | address fails seen => cases next

/-- A grant that comes from the claims is for claims that meet the rule. -/
theorem Accepts.meets (h : Accepts k ctx r g) (ofClaims : g.isOfClaims = true) :
    Meets k ctx r.rule g := by
  cases h with
  | claims shut meets => exact meets
  | setup | address => cases ofClaims

end Requirements

/-! ### Decisions -/

section Decisions
variable {k : Collaborators Id} {ctx : RequestContext} {claims claims' : Option Claims}
  {r r' : Requirement} {g g' : Grant}

/-- Claims that were strengthened any number of times are accepted where they were before. -/
theorem isAccepted_strengthen (more : ReflTransGen Strengthens claims claims')
    (accepted : (Id.run (authorize k (ctx.withClaims claims) r)).isAccepted = true) :
    (Id.run (authorize k (ctx.withClaims claims') r)).isAccepted = true := by
  induction more with
  | refl => exact accepted
  | @tail b _ _ step ih =>
    obtain ⟨g, accepts⟩ := isAccepted_iff.mp ih
    have more : Strengthens (ctx.withClaims b).claims _ := step
    exact isAccepted_iff.mpr (accepts.strengthen more)

/-- A request is accepted for easier requirements, any number of steps away. -/
theorem isAccepted_ease (easier : ReflTransGen Requirement.Next r r')
    (accepted : (Id.run (authorize k ctx r)).isAccepted = true) :
    (Id.run (authorize k ctx r')).isAccepted = true := by
  induction easier with
  | refl => exact accepted
  | tail _ step ih =>
    obtain ⟨g, accepts⟩ := isAccepted_iff.mp ih
    exact isAccepted_iff.mpr (accepts.ease step)

end Decisions

/-- Authorization is monotone, for every setup state, schedule and session list. A request that is
accepted stays so when its claims are strengthened. A request that is accepted for a requirement is
accepted for every easier one; guide configuration and elevation are accepted for the same requests.
Where the claims decide about both of two such requirements, the grants are equal. -/
theorem authorize_monotone (k : Collaborators Id) (ctx : RequestContext) :
    (∀ r claims claims', ReflTransGen Strengthens claims claims' →
      (Id.run (authorize k (ctx.withClaims claims) r)).isAccepted = true →
      (Id.run (authorize k (ctx.withClaims claims') r)).isAccepted = true) ∧
    (∀ r r', ReflTransGen Requirement.Next r r' → (Id.run (authorize k ctx r)).isAccepted = true →
      (Id.run (authorize k ctx r')).isAccepted = true) ∧
    ((Id.run (authorize k ctx .schedulesDirectAccess)).isAccepted =
      (Id.run (authorize k ctx .elevation)).isAccepted) ∧
    ∀ r r' g g', ReflTransGen Requirement.Next r r' →
      (Id.run (authorize k ctx r)).verdict = .accepted g →
      (Id.run (authorize k ctx r')).verdict = .accepted g' →
      g.isOfClaims = true → g'.isOfClaims = true → g = g' := by
  refine ⟨fun r _ _ => isAccepted_strengthen, fun _ _ => isAccepted_ease, ?_, ?_⟩
  · exact Bool.eq_iff_iff.mpr
      ⟨isAccepted_ease (.single .schedulesDirect), isAccepted_ease (.single .elevation)⟩
  · intro r r' g g' _ granted granted' ofClaims ofClaims'
    rw [authorize_verdict, judge_accepts] at granted granted'
    exact (granted.meets ofClaims).unique (granted'.meets ofClaims')

/-- A guest at the address of a session, where no user is let in at this hour. -/
def guestAtNight : RequestContext := { peer := some (.v4 ⟨10, 0, 0, 7⟩) }

/-- Collaborators of that hour. -/
def atNight : Collaborators Id :=
  { setupComplete := true, allows := fun _ => false
    sessions := [{ id := "a", endpoint := "10.0.0.7" }] }

/-- The guest is trusted by his address. He stays accepted when he signs in, though the schedule keeps
him out, and then as an administrator, whose grants are those of his credential. -/
theorem authorize_monotone_guestSignsIn :
    let c : Claims := { user := some ⟨7⟩ }
    let ctx := guestAtNight.withClaims (some c.asAdministrator)
    ReflTransGen Strengthens none (some c) ∧
    ReflTransGen Strengthens none (some c.asAdministrator) ∧
    (Id.run (authorize atNight guestAtNight .unsafeAddress)).isAccepted = true ∧
    (Id.run (authorize atNight (guestAtNight.withClaims (some c)) .default)).isAccepted = false ∧
    (Id.run (authorize atNight (guestAtNight.withClaims (some c)) .unsafeAddress)).isAccepted = true ∧
    (Id.run (authorize atNight ctx .unsafeAddress)).isAccepted = true ∧
    ReflTransGen Requirement.Next .elevation (.firstTimeSetup false) ∧
    (Id.run (authorize atNight ctx .elevation)).verdict = .accepted (.credential ⟨7⟩) ∧
    (Id.run (authorize atNight ctx (.firstTimeSetup false))).isAccepted = true := by
  intro c ctx
  have signsIn : ReflTransGen Strengthens none (some c) := .single (.supplied c)
  have rises : ReflTransGen Strengthens none (some c.asAdministrator) :=
    signsIn.tail (.administrator c)
  have easier : ReflTransGen Requirement.Next .elevation (.firstTimeSetup false) :=
    .head .toAdminSetup (.single .ofAdminSetup)
  obtain ⟨stronger, -⟩ := authorize_monotone atNight guestAtNight
  obtain ⟨-, weaker, -⟩ := authorize_monotone atNight ctx
  have trusted : (Id.run (authorize atNight guestAtNight .unsafeAddress)).isAccepted = true := by
    decide +kernel
  have granted : (Id.run (authorize atNight ctx .elevation)).verdict =
      .accepted (.credential ⟨7⟩) := by decide +kernel
  exact ⟨signsIn, rises, trusted, by decide +kernel, stronger _ _ _ signsIn trusted,
    stronger _ _ _ rises trusted, easier, granted, weaker _ _ easier (by decide +kernel)⟩

end TunerBroker
