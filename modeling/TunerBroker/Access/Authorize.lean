import TunerBroker.Access.Claims
import TunerBroker.Access.Decision
import TunerBroker.Access.Session
import TunerBroker.Address.Printer

/-! Deciding whether a request may proceed. The setup state, the parental schedule and the session
list answer in a monad, so that one procedure serves plain answers and counted ones; each is asked
only where the answer decides. -/

namespace TunerBroker

/-- What authorization asks of its surroundings. -/
structure Collaborators (m : Type → Type) where
  /-- First-time setup has completed. -/
  setupComplete : m Bool
  /-- The parental schedule lets a user in right now. -/
  allows : UserId → m Bool
  /-- The sessions now active. -/
  sessions : m (List Session)

structure RequestContext where
  claims : Option Claims := none
  peer : Option IpAddress := none

/-- The remote address in the form sessions record it. -/
def RequestContext.remoteAddress (ctx : RequestContext) : Option IpAddress :=
  ctx.peer.map IpAddress.normalize

/-- Texts that differ at most in the case of ASCII letters. -/
def sameIgnoringCase (s t : String) : Bool :=
  s.toList.map Char.toLower = t.toList.map Char.toLower

variable {m : Type → Type} [Monad m]

/-- Checks claims against a rule; the first check that fails gives the reason. Administrators pass
the setup, live TV and schedule checks, and API keys have no schedule. -/
def validate (k : Collaborators m) (claims : Option Claims) (rule : Rule) : m Verdict :=
  let admin := claims.any (·.administrator)
  let liveTv := claims.any (·.liveTv)
  let apiKey := claims.any (·.apiKey)
  if rule.requireAdmin && !admin then pure (.rejected .administratorRequired)
  else do
    let ready ← if rule.allowBeforeSetup || admin then pure true else k.setupComplete
    if !ready then pure (.rejected .setupIncomplete)
    else if rule.requireLiveTv && !(admin || liveTv) then pure (.rejected .liveTvAccessDenied)
    else if apiKey then pure (.accepted .apiKey)
    else
      match claims.bind Claims.resolvedUser with
      | none => pure (.rejected .noIdentity)
      | some user => do
        let allowed ← if rule.ignoreSchedule || admin then pure true else k.allows user
        pure (if allowed then .accepted (.credential user) else .rejected .outsideAccessSchedule)

def matchAddress (address : IpAddress) (sessions : List Session) : Verdict :=
  match sessions.find? fun s => sameIgnoringCase s.endpoint address.text with
  | some s => .accepted (.trustedSessionAddress s.id)
  | none => .rejected .noMatchingSession

/-- A credential that passes the default rule, else an address that matches a session. -/
def authorizeByAddress (k : Collaborators m) (ctx : RequestContext) : m Verdict := do
  let verdict ← validate k ctx.claims Requirement.unsafeAddress.rule
  if verdict.isAccepted then pure verdict
  else
    match ctx.remoteAddress with
    | none => pure (.rejected .remoteAddressUnavailable)
    | some address => return matchAddress address (← k.sessions)

/-- The verdict on a request: the address fallback, the open door of first-time setup, or the claim
checks of the requirement. -/
def judge (k : Collaborators m) (ctx : RequestContext) : Requirement → m Verdict
  | .unsafeAddress => authorizeByAddress k ctx
  | .firstTimeSetup requireAdmin => do
    if ← k.setupComplete then validate k ctx.claims (Requirement.firstTimeSetup requireAdmin).rule
    else pure (.accepted .setupInProgress)
  | requirement => validate k ctx.claims requirement.rule

def authorize (k : Collaborators m) (ctx : RequestContext) (requirement : Requirement) :
    m Decision := do
  return ⟨requirement, ← judge k ctx requirement⟩

end TunerBroker
