import TunerBroker.System

/-! What can be asked of a broker without changing it. -/

namespace TunerBroker

namespace System

def isRegistered (w : System) (b : BrokerId) (k : SourceKey) : Bool := (w.slot b k).hasStreams

def listedAt (w : System) (b : BrokerId) (k : SourceKey) : List StreamId := (w.slot b k).streams

/-- Consumers of all streams listed under the key. -/
def consumerCount (w : System) (b : BrokerId) (k : SourceKey) : UInt32 :=
  ((w.listedAt b k).map fun s => (w.stream s).consumers).foldl (· + ·) 0

def streamCount (w : System) (b : BrokerId) : Nat :=
  ((w.broker b).slots.values.map fun s => s.streams.length).foldl (· + ·) 0

/-- Connections the tuner was asked for. -/
def connects (w : System) : Nat := w.connections.size

/-- Shutdowns begun. -/
def shutdowns (w : System) : Nat :=
  w.sightings.countP fun
    | .shutdown _ => true
    | _ => false

end System

end TunerBroker
