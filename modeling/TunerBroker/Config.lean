import TunerBroker.Duration

/-! Settings of a broker. -/

namespace TunerBroker

structure BrokerConfig where
  /-- How long a physical open may take. -/
  openTimeout : Duration := .ofSeconds 30
  /-- Chunks buffered per stream before slow readers skip. -/
  capacity : Nat := 256
  /-- Consumers may share a connection where the host allows it. -/
  sharing : Bool := true
  deriving DecidableEq

namespace BrokerConfig

def withOpenTimeout (c : BrokerConfig) (d : Duration) : BrokerConfig := { c with openTimeout := d }

/-- Sets the capacity, to one chunk at the least. -/
def withCapacity (c : BrokerConfig) (n : Nat) : BrokerConfig := { c with capacity := max n 1 }

/-- Gives every consumer a connection of its own. -/
def withoutSharing (c : BrokerConfig) : BrokerConfig := { c with sharing := false }

end BrokerConfig

end TunerBroker
