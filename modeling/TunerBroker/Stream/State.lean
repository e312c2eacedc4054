/-! The states of a live stream as they are reported. -/

namespace TunerBroker

inductive StreamState where
  /-- No connection yet. -/
  | unopened
  /-- Connecting. -/
  | opening
  /-- Connected and delivering. -/
  | live
  /-- Connected, but the source has stopped delivering. -/
  | ended
  /-- Being torn down. -/
  | closing
  /-- The connection is given back. -/
  | closed
  deriving DecidableEq

def StreamState.name : StreamState → String
  | unopened => "Unopened"
  | opening => "Opening"
  | live => "Open"
  | ended => "Ended"
  | closing => "Closing"
  | closed => "Closed"

end TunerBroker
