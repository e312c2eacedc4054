/-! What an endpoint asks of its caller, and the claim checks behind each demand. -/

namespace TunerBroker

/-- The claim checks of a requirement. -/
structure Rule where
  requireAdmin : Bool := false
  requireLiveTv : Bool := false
  /-- Leaves out the check that setup is complete. -/
  allowBeforeSetup : Bool := false
  /-- Leaves out the check of the parental schedule. -/
  ignoreSchedule : Bool := false
  deriving DecidableEq

/-- What an endpoint asks of its caller. -/
inductive Requirement where
  | default
  | elevation
  | liveTvAccess
  | schedulesDirectAccess
  | ignoreParentalControl
  | ignoreSchedule
  | firstTimeSetup (requireAdmin : Bool)
  | unsafeAddress
  deriving DecidableEq

namespace Requirement

/-- The claim checks of each requirement; the address fallback starts from the default ones. -/
def rule : Requirement → Rule
  | default | unsafeAddress => {}
  | elevation => { requireAdmin := true }
  | liveTvAccess => { requireLiveTv := true }
  | schedulesDirectAccess => { requireAdmin := true, requireLiveTv := true }
  | ignoreParentalControl => { ignoreSchedule := true }
  | ignoreSchedule => { allowBeforeSetup := true, ignoreSchedule := true }
  | firstTimeSetup requireAdmin => { requireAdmin, allowBeforeSetup := true }

def name : Requirement → String
  | default => "default"
  | elevation => "elevation"
  | liveTvAccess => "live-tv-access"
  | schedulesDirectAccess => "schedules-direct-access"
  | ignoreParentalControl => "ignore-parental-control"
  | ignoreSchedule => "ignore-schedule"
  | firstTimeSetup false => "first-time-setup-or-default"
  | firstTimeSetup true => "first-time-setup-or-elevated"
  | unsafeAddress => "unsafe-ip-fallback"

end Requirement

end TunerBroker
