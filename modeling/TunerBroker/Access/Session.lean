import TunerBroker.Keyed
import TunerBroker.UserId

/-! The sessions now active, each with the address it was last seen from. -/

namespace TunerBroker

structure Session where
  id : String
  endpoint : String := ""
  user : Option UserId := none
  deriving DecidableEq

/-- The active sessions by id. -/
structure SessionBook where
  sessions : Keyed String Session := {}

namespace SessionBook

/-- Adds a session or replaces the one of its id. -/
def upsert (b : SessionBook) (s : Session) : SessionBook := ⟨b.sessions.put s.id s⟩

/-- Moves a known session to an address, and tells whether it is known. -/
def touch (b : SessionBook) (id endpoint : String) : SessionBook × Bool :=
  match b.sessions.get? id with
  | some s => (⟨b.sessions.put id { s with endpoint }⟩, true)
  | none => (b, false)

def remove (b : SessionBook) (id : String) : SessionBook × Option Session :=
  (⟨b.sessions.erase id⟩, b.sessions.get? id)

def size (b : SessionBook) : Nat := b.sessions.pairs.length

/-- The active sessions by increasing id. -/
def snapshot (b : SessionBook) : List Session :=
  b.sessions.values.mergeSort fun s t => s.id ≤ t.id

end SessionBook

end TunerBroker
