import TunerBroker.Access.Requirement
import TunerBroker.UserId

/-! Outcomes of an authorization: a grant or a reason, together with the requirement it answers. -/

namespace TunerBroker

/-- Why a request was accepted. -/
inductive Grant where
  | credential (user : UserId)
  | apiKey
  | trustedSessionAddress (session : String)
  | setupInProgress
  deriving DecidableEq

inductive RejectReason where
  | administratorRequired
  | setupIncomplete
  | liveTvAccessDenied
  | noIdentity
  | outsideAccessSchedule
  | remoteAddressUnavailable
  | noMatchingSession
  deriving DecidableEq

inductive Verdict where
  | accepted (grant : Grant)
  | rejected (reason : RejectReason)
  deriving DecidableEq

structure Decision where
  requirement : Requirement
  verdict : Verdict
  deriving DecidableEq

/-- What the caller lacks. -/
def RejectReason.text : RejectReason → String
  | administratorRequired => "administrator rights required"
  | setupIncomplete => "server setup is not complete"
  | liveTvAccessDenied => "live TV access not granted"
  | noIdentity => "no identity resolved"
  | outsideAccessSchedule => "outside the user's access schedule"
  | remoteAddressUnavailable => "remote address unavailable"
  | noMatchingSession => "no active session from this address"

namespace Verdict

def isAccepted : Verdict → Bool
  | accepted _ => true
  | rejected _ => false

def reason? : Verdict → Option RejectReason
  | accepted _ => none
  | rejected r => some r

end Verdict

namespace Decision

def isAccepted (d : Decision) : Bool := d.verdict.isAccepted

/-- The requirement by name, and whether it was met or why it was not. -/
def text (d : Decision) : String :=
  match d.verdict with
  | .accepted _ => d.requirement.name ++ " requirement satisfied"
  | .rejected r => d.requirement.name ++ " requirement failed: " ++ r.text

def denial (d : Decision) : String := "Access denied: " ++ d.text

end Decision

end TunerBroker
