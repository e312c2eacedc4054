import TunerBroker.System.Payload

/-! What a step of a scenario answers, and what else is reported with it. -/

namespace TunerBroker

structure StreamReport where
  label : String
  key : SourceKey
  consumers : UInt32
  sharing : Bool
  state : StreamState

/-- Why a batch of reads ends. -/
inductive ReadEnd where
  /-- As many chunks were read as asked for. -/
  | more
  | waiting
  | ended

/-- Why a step cannot be carried out: what it refers to is not there, or is there already, or what
it brings cannot be read. -/
inductive Refusal where
  /-- No such node, or one without the gate that the step goes through. -/
  | noNode
  | noConsumer
  | noReader
  | noReceiver
  | noStream
  /-- A connection that was never dialed. -/
  | noConnection
  /-- A chunk to deliver is not written as bytes are. -/
  | unreadableChunk
  /-- The name is that of a consumer or of a call under way. -/
  | nameTaken
  /-- A consumer of this name is still being released. -/
  | stillReleasing
  deriving DecidableEq

inductive Answer where
  /-- The step has changed nothing, but for the chunks it delivered before the one at fault. -/
  | refused (why : Refusal)
  | ok
  | flag (value : Bool)
  | flags (values : List Bool)
  | count (value : Nat)
  | text (value : String)
  | pending
  | attached (label : String) (key : SourceKey)
  | failed (gated : Bool) (error : StreamError)
  | denied (decision : Decision)
  | decided (decision : Decision) (tally : Tally)
  | inspection (registered : Bool) (consumers : UInt32) (streams : List StreamReport)
  | settings (config : BrokerConfig)
  | counters (counters : Counters)
  | stream (report : StreamReport) (request : StreamRequest)
  | chunks (chunks : List Text.Bytes) (readEnd : ReadEnd) (skipped : Nat)
  | chunk (data : Text.Bytes)
  | empty
  | shut
  | lagged (missed : Nat)
  | session (session : Option Session)
  | sessions (sessions : List Session)

structure NodeReport where
  streams : Nat
  counters : Counters

structure StepReport where
  answer : Answer
  /-- Calls of earlier steps that ended in this one, by name. -/
  done : List (String × Answer)
  /-- What the tuner saw, by kind and number. -/
  sightings : List TunerEvent
  connects : Nat
  shutdowns : Nat
  nodes : List NodeReport
  /-- What was logged, in order. -/
  journal : List Event

end TunerBroker
