import TunerBroker.Access.Authorize
import TunerBroker.Slot
import TunerBroker.Stream
import TunerBroker.Stream.Error

/-! The calls made on brokers and streams, each as the place it has come to. A call moves from place
to place in turns; at some places it waits, and only there can it be abandoned. -/

namespace TunerBroker

/-- Cancellation tokens are told apart by number. -/
abbrev Token := Nat
/-- Brokers are known by their position in the table of all brokers. -/
abbrev BrokerId := Nat
/-- Consumers are known by their position in the table of all consumers. -/
abbrev ConsumerId := Nat

/-- One move of a procedure that opens a stream. -/
inductive OpenMove where
  /-- Let some milliseconds pass. -/
  | pause (ms : Nat)
  /-- Give up with an error. -/
  | fail (error : StreamError)
  /-- Open the stream. -/
  | connect (token : Option Token)
  /-- Have the source end, and wait until the stream shows it. -/
  | exhaust
  /-- Close the stream. -/
  | close

/-- A procedure that makes a stream and takes it through some moves. -/
structure OpenPlan where
  request : StreamRequest
  config : BrokerConfig
  moves : List OpenMove
  /-- The procedure first does work of its own, for as long as it likes; it ends that with an error
  or with a stream from elsewhere, and the moves are made on that stream. -/
  outside : Bool := false

/-- A wish for a consumer of a source. -/
structure Acquisition where
  key : SourceKey
  /-- The media a shared stream has to deliver, if that matters. -/
  media : Option MediaSource
  /-- The token that ends a wait for another call's open. -/
  cancel : Option Token
  plan : OpenPlan

/-- A wish for the source of a request, opened by one connect under the same token. -/
def Acquisition.ofRequest (r : StreamRequest) (token : Option Token) (c : BrokerConfig) :
    Acquisition :=
  ⟨r.key, some r.media, token, { request := r, config := c, moves := [.connect token] }⟩

/-- A connection attempt under way. -/
structure Dial where
  connection : ConnectionId
  /-- When the tuner answers. -/
  answer : Nat
  /-- When the attempt is given up. -/
  deadline : Nat
  token : Option Token

/-- Where a close waits: for the pump to stop, or for the connection to shut down. -/
inductive CloseStage where
  | joining
  | shutting (due : Nat)

/-- Where a procedure that opens a stream waits. -/
inductive OpenWait where
  /-- Nowhere: its next move is due. -/
  | nowhere
  /-- For the work of its own. -/
  | outside
  | pausing (due : Nat)
  | dialing (dial : Dial)
  /-- For the stream to have ended. -/
  | ending
  | closing (stage : CloseStage)

inductive Outcome where
  | attached (consumer : ConsumerId)
  | done
  | swept (closed : Nat)
  | failed (error : StreamError)
  | denied (decision : Decision)

/-- The place a call has come to. A close stage of `none` stands for a close about to begin. -/
inductive Phase where
  /-- About to be authorized. -/
  | admission (ctx : RequestContext) (wish : Acquisition)
  /-- About to look at the slot. -/
  | seeking (wish : Acquisition)
  /-- Waiting for another call's open. -/
  | waiting (wish : Acquisition) (opener : CallId)
  /-- Opening a stream, the moves still to make listed. -/
  | opening (wish : Acquisition) (stream : StreamId) (moves : List OpenMove) (wait : OpenWait)
  /-- Closing a stream that its open should not have given. -/
  | rejecting (stream : StreamId) (stage : Option CloseStage) (error : StreamError)
  /-- About to detach a consumer. -/
  | releasing (consumer : ConsumerId)
  /-- Closing a stream after its last consumer. -/
  | tearing (stream : StreamId) (stage : Option CloseStage)
  /-- About to take all streams off the lists. -/
  | sweepStart
  /-- Closing the streams of a sweep one by one. -/
  | sweeping (current : Option (StreamId × CloseStage)) (rest : List StreamId) (closed : Nat)
  /-- About to open a stream by itself. -/
  | dialStart (stream : StreamId) (token : Option Token)
  | dialing (stream : StreamId) (dial : Dial)
  /-- About to close a stream by itself. -/
  | closeStart (stream : StreamId)
  | closing (stream : StreamId) (stage : CloseStage)
  | finished (outcome : Outcome)
  | abandoned

/-- What an opener tells the calls that wait for it. -/
inductive Announcement where
  | opened
  | failed (error : StreamError)

structure Call where
  broker : BrokerId := 0
  /-- Made through the gate. -/
  gated : Bool := false
  phase : Phase
  announced : Option Announcement := none

namespace Phase

def isOpening : Phase → Bool
  | opening _ _ _ _ => true
  | _ => false

def isOver : Phase → Bool
  | finished _ | abandoned => true
  | _ => false

/-- A place to wait at, where the call can be abandoned. -/
def isSuspended : Phase → Bool
  | waiting _ _ | dialing _ _ | closing _ _ => true
  | opening _ _ _ .nowhere => false
  | opening _ _ _ _ => true
  | rejecting _ stage _ | tearing _ stage => stage.isSome
  | sweeping current _ _ => current.isSome
  | _ => false

/-- The streams a call keeps alive by itself. -/
def holds : Phase → List StreamId
  | opening _ s _ _ | rejecting s _ _ | tearing s _ | dialStart s _ | dialing s _ | closeStart s
  | closing s _ => [s]
  | sweeping current rest _ => (current.map (·.1)).toList ++ rest
  | _ => []

end Phase

end TunerBroker
