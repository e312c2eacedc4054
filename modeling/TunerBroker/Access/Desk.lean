import TunerBroker.Access.Authorize

/-! The standing state authorization answers from, and how often one evaluation asked each part. -/

namespace TunerBroker

structure AccessDesk where
  setupComplete : Bool := true
  /-- Users the parental schedule keeps out. -/
  blocked : List UserId := []
  /-- No schedule is kept at all. -/
  unrestricted : Bool := false
  book : SessionBook := {}
  /-- A session list given as it stands, in place of the book. -/
  fixedSessions : Option (List Session) := none

/-- How often each collaborator was asked. -/
structure Tally where
  setupChecks : Nat := 0
  scheduleChecks : Nat := 0
  sessionScans : Nat := 0
  deriving DecidableEq

namespace AccessDesk

/-- The sessions that address matching looks at. -/
def sessions (a : AccessDesk) : List Session := a.fixedSessions.getD a.book.snapshot

def allows (a : AccessDesk) (u : UserId) : Bool := a.unrestricted || !a.blocked.contains u

def collaborators (a : AccessDesk) : Collaborators Id where
  setupComplete := a.setupComplete
  allows u := a.allows u
  sessions := a.sessions

/-- Collaborators that answer from the desk and count each question; no schedule, nobody to ask. -/
def counted (a : AccessDesk) : Collaborators (StateM Tally) where
  setupComplete := do
    modify fun t => { t with setupChecks := t.setupChecks + 1 }
    return a.setupComplete
  allows u := do
    if !a.unrestricted then
      modify fun t => { t with scheduleChecks := t.scheduleChecks + 1 }
    return a.allows u
  sessions := do
    modify fun t => { t with sessionScans := t.sessionScans + 1 }
    return a.sessions

def decide (a : AccessDesk) (ctx : RequestContext) (r : Requirement) : Decision :=
  Id.run (authorize a.collaborators ctx r)

def decideCounted (a : AccessDesk) (ctx : RequestContext) (r : Requirement) : Decision × Tally :=
  (authorize a.counted ctx r).run {}

def validateCounted (a : AccessDesk) (claims : Option Claims) (rule : Rule) : Verdict × Tally :=
  (validate a.counted claims rule).run {}

/-- Keeps a user out, and tells whether that is news. -/
def block (a : AccessDesk) (u : UserId) : AccessDesk × Bool :=
  if a.blocked.contains u then (a, false) else ({ a with blocked := u :: a.blocked }, true)

/-- Lets a user in again, and tells whether that is news. -/
def unblock (a : AccessDesk) (u : UserId) : AccessDesk × Bool :=
  ({ a with blocked := a.blocked.filter (· ≠ u) }, a.blocked.contains u)

def describe (a : AccessDesk) : String :=
  "Authorizer \x7b validator: ClaimValidator \x7b setup_complete: "
    ++ (if a.setupComplete then "true" else "false") ++ ", .. \x7d, .. \x7d"

end AccessDesk

end TunerBroker
