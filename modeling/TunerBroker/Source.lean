/-! Live sources: the key a source is looked up by, the media it delivers, and the tuner host that
serves it. -/

namespace TunerBroker

/-- A logical source: a channel of a tuner host. -/
structure SourceKey where
  host : String
  channel : String
  deriving DecidableEq

structure MediaSource where
  id : String
  path : String
  container : Option String := none
  deriving DecidableEq

/-- The tuner host that owns the physical connection. -/
structure TunerHost where
  id : String
  kind : String
  url : String
  /-- One connection may feed several consumers. -/
  allowSharing : Bool := true
  deriving DecidableEq

structure StreamRequest where
  key : SourceKey
  media : MediaSource
  host : TunerHost
  deriving DecidableEq

def SourceKey.text (k : SourceKey) : String := k.host ++ "/" ++ k.channel

/-- A request for a channel of a host, under the key the two make. -/
def StreamRequest.ofChannel (channel : String) (media : MediaSource) (host : TunerHost) :
    StreamRequest :=
  ⟨⟨host.id, channel⟩, media, host⟩

end TunerBroker
