import TunerBroker.UserId

/-! The claims a credential carries. -/

namespace TunerBroker

structure Claims where
  user : Option UserId := none
  device : String := ""
  session : String := ""
  administrator : Bool := false
  liveTv : Bool := false
  apiKey : Bool := false
  deriving DecidableEq

namespace Claims

def ofUser (user : UserId) (device session : String) : Claims :=
  { user := some user, device, session }

def ofApiKey (device : String) : Claims := { device, apiKey := true }

/-- Claims of a bare session token. -/
def ofSession (session : String) : Claims := { session }

def asAdministrator (c : Claims) : Claims := { c with administrator := true }

def withLiveTv (c : Claims) : Claims := { c with liveTv := true }

/-- The user the claims name; the nil identifier names nobody. -/
def resolvedUser (c : Claims) : Option UserId := c.user.filter fun u => !u.isNil

/-- The claims behind an authorization header: `Token`, a space and a session, or none. -/
def ofHeader? (header : String) : Option Claims :=
  let mark := "Token ".toList
  let cs := header.toList
  if mark.isPrefixOf cs then some (ofSession (String.ofList (cs.drop mark.length))) else none

end Claims

end TunerBroker
