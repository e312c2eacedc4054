import TunerBroker.Config
import TunerBroker.Fanout
import TunerBroker.Source
import TunerBroker.Stream.State
import TunerBroker.Text.Hex
import TunerBroker.Text.Quoted

/-! One live stream: its lifecycle, the pump that reads its connection, and the fan-out of what the
pump reads. -/

namespace TunerBroker

/-- Connections are numbered in the order they are dialed. -/
abbrev ConnectionId := Nat

inductive Lifecycle where
  | unopened
  | opening
  | connected
  | closing
  | closed
  deriving DecidableEq

/-- The reported state that goes with a place in life, as long as the source delivers. -/
def Lifecycle.state : Lifecycle → StreamState
  | unopened => .unopened
  | opening => .opening
  | connected => .live
  | closing => .closing
  | closed => .closed

/-- The task that reads the connection and sends what it reads to the fan-out. -/
inductive Pump where
  /-- Not started yet. -/
  | idle
  /-- Reading. -/
  | reading (connection : ConnectionId)
  /-- Done; the connection waits to be collected. -/
  | stopped (connection : ConnectionId)
  /-- Died while reading, and its connection with it. -/
  | crashed (connection : ConnectionId) (message : String)
  /-- Done, and the connection has moved on. -/
  | collected (connection : ConnectionId)
  deriving DecidableEq

/-- The connection a pump was started on. -/
def Pump.connection? : Pump → Option ConnectionId
  | idle => none
  | reading n | stopped n | crashed n _ | collected n => some n

def Pump.isReading : Pump → Bool
  | reading _ => true
  | _ => false

structure Stream where
  request : StreamRequest
  /-- Several consumers may read it. -/
  sharing : Bool
  openTimeout : Duration
  capacity : Nat
  /-- Attached consumers, counted in a 32-bit word. -/
  consumers : UInt32 := 0
  lifecycle : Lifecycle := .unopened
  /-- The fan-out takes subscriptions; cleared when the stream stops. -/
  feed : Bool := false
  pump : Pump := .idle
  /-- The pump has been told to stop. -/
  stopping : Bool := false
  /-- Nobody will collect the connection from the pump. -/
  detached : Bool := false
  buffer : Fanout Text.Bytes
  /-- Held from outside, by a name of its own. -/
  named : Bool := false

namespace Stream

def ofRequest (r : StreamRequest) (c : BrokerConfig) : Stream where
  request := r
  sharing := c.sharing && r.host.allowSharing
  openTimeout := c.openTimeout
  capacity := max c.capacity 1
  buffer := .ofCapacity c.capacity

/-- A stream that was never made, as good as closed. -/
def blank : Stream :=
  { ofRequest ⟨⟨"", ""⟩, ⟨"", "", none⟩, ⟨"", "", "", true⟩⟩ {} with lifecycle := .closed }

def key (s : Stream) : SourceKey := s.request.key

/-- A connection is held, delivering or not. -/
def isConnected (s : Stream) : Bool := s.lifecycle = .connected

/-- The reported state; a connected stream without a feed has ended. -/
def state (s : Stream) : StreamState :=
  if s.lifecycle = .connected ∧ s.feed = false then .ended else s.lifecycle.state

def isLive (s : Stream) : Bool := s.state = .live

/-- No chunk can be sent any more: the feed is cleared and the pump has let go of it. -/
def isShut (s : Stream) : Bool := !s.feed && !s.pump.isReading

def describe (s : Stream) : String :=
  "LiveStreamHandle \x7b unique_id: ID, key: LiveSourceKey \x7b tuner_host_id: "
    ++ Text.quoted s.key.host ++ ", channel_id: " ++ Text.quoted s.key.channel
    ++ " \x7d, enable_sharing: " ++ (if s.sharing then "true" else "false")
    ++ ", consumer_count: " ++ toString s.consumers.toNat ++ ", state: " ++ s.state.name ++ " \x7d"

end Stream

end TunerBroker
