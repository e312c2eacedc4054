import TunerBroker.Access.Decision
import TunerBroker.Stream.Error

/-! What is written to the log: one constructor an occasion, and its level, message and fields. -/

namespace TunerBroker

inductive Level where
  | error
  | warn
  | info
  | debug
  deriving DecidableEq

def Level.name : Level → String
  | error => "error"
  | warn => "warn"
  | info => "info"
  | debug => "debug"

inductive FieldValue where
  | text (value : String)
  | number (value : Nat)
  | flag (value : Bool)

/-- A value as it is reported. -/
def FieldValue.shown : FieldValue → FieldValue
  | text s => .text (Text.masked s)
  | v => v

inductive Event where
  | authorizationDecided (requirement : Requirement)
  | requestRejected (key : SourceKey) (decision : Decision)
  | gateShutDown (closed : Nat)
  | attachedToNew (key : SourceKey) (sharing : Bool)
  | attachedToExisting (key : SourceKey) (consumers : UInt32)
  | mediaMismatch (key : SourceKey) (registered requested : String)
  | replacingEnded (key : SourceKey) (consumers : UInt32)
  | sharedUnattended (key : SourceKey)
  | joinedOpenFailed (key : SourceKey) (error : StreamError)
  | openFailed (key : SourceKey) (error : StreamError)
  | openAbandoned (key : SourceKey)
  | streamRejected (key : SourceKey) (breach : Breach)
  | rejectedCloseFailed (key : SourceKey) (error : StreamError)
  | releasedVanished (key : SourceKey)
  | releasedUnregistered (key : SourceKey)
  | releasedUncounted (key : SourceKey)
  | consumerDetached (key : SourceKey) (consumers : UInt32)
  | lastConsumerDetached (key : SourceKey)
  | sweeping (key : SourceKey) (consumers : UInt32)
  | consumerDropped (key : SourceKey)
  | readerLagged (key : SourceKey) (missed : Nat)
  | openMisused (key : SourceKey) (state : StreamState)
  | closeMisused (key : SourceKey) (state : StreamState)
  | streamOpened (key : SourceKey) (sharing : Bool)
  | streamClosed (key : SourceKey)
  | closeFailed (key : SourceKey) (error : StreamError)
  | droppedWhileOpen (key : SourceKey)
  | sourceEnded (key : SourceKey)
  | readFailed (key : SourceKey) (message : String)

namespace Event

/-- Breaches are errors, mishaps warnings; a stream coming or going is information, and the rest is
for debugging. -/
def level : Event → Level
  | sharedUnattended _ | streamRejected _ _ | releasedVanished _ | releasedUnregistered _
  | releasedUncounted _ | openMisused _ _ | closeMisused _ _ => .error
  | mediaMismatch _ _ _ | replacingEnded _ _ | openFailed _ _ | rejectedCloseFailed _ _
  | consumerDropped _ | closeFailed _ _ | droppedWhileOpen _ | readFailed _ _ => .warn
  | gateShutDown _ | attachedToNew _ _ | attachedToExisting _ _ | streamOpened _ _
  | streamClosed _ => .info
  | authorizationDecided _ | requestRejected _ _ | joinedOpenFailed _ _ | openAbandoned _
  | consumerDetached _ _ | lastConsumerDetached _ | sweeping _ _ | readerLagged _ _
  | sourceEnded _ => .debug

def message : Event → String
  | authorizationDecided _ => "Authorization decided"
  | requestRejected _ _ => "Live stream request rejected"
  | gateShutDown _ => "Live TV gate shut down"
  | attachedToNew _ _ => "Consumer attached to new live stream"
  | attachedToExisting _ _ => "Consumer attached to existing live stream"
  | mediaMismatch _ _ _ => "Media source mismatch for shared live stream"
  | replacingEnded _ _ => "Shared live stream ended, opening a replacement"
  | sharedUnattended _ => "Registered live stream has no consumers"
  | joinedOpenFailed _ _ => "Joined live stream open failed"
  | openFailed _ _ => "Failed to open live stream"
  | openAbandoned _ => "Live stream open abandoned"
  | streamRejected _ _ => "Rejected handle from open"
  | rejectedCloseFailed _ _ => "Failed to close rejected handle"
  | releasedVanished _ => "Released consumer outlived its live stream"
  | releasedUnregistered _ => "Released live stream is not registered"
  | releasedUncounted _ => "Released live stream already had no consumers"
  | consumerDetached _ _ => "Consumer detached"
  | lastConsumerDetached _ => "Last consumer detached, closing live stream"
  | sweeping _ _ => "Closing live stream on shutdown"
  | consumerDropped _ => "Live stream consumer dropped without release"
  | readerLagged _ _ => "Live stream reader lagged"
  | openMisused _ _ => "Open called on a handle that is not unopened"
  | closeMisused _ _ => "Close called on a handle that is not open"
  | streamOpened _ _ => "Live stream opened"
  | streamClosed _ => "Live stream closed"
  | closeFailed _ _ => "Live stream close failed"
  | droppedWhileOpen _ => "Live stream handle dropped while open"
  | sourceEnded _ => "Live source reached end of stream"
  | readFailed _ _ => "Live source read failed"

def fields : Event → List (String × FieldValue)
  | authorizationDecided r => [("requirement", .text r.name)]
  | requestRejected k d => [("stream", .text k.text), ("decision", .text d.text)]
  | gateShutDown n => [("closed", .number n)]
  | attachedToNew k b | streamOpened k b => [("stream", .text k.text), ("sharing", .flag b)]
  | attachedToExisting k n | replacingEnded k n | consumerDetached k n | sweeping k n =>
    [("stream", .text k.text), ("consumers", .number n.toNat)]
  | mediaMismatch k registered requested =>
    [("stream", .text k.text), ("registered", .text registered), ("requested", .text requested)]
  | sharedUnattended k | openAbandoned k | releasedVanished k | releasedUnregistered k
  | releasedUncounted k | lastConsumerDetached k | consumerDropped k | streamClosed k
  | droppedWhileOpen k | sourceEnded k => [("stream", .text k.text)]
  | joinedOpenFailed k e | openFailed k e | rejectedCloseFailed k e | closeFailed k e =>
    [("stream", .text k.text), ("error", .text e.text)]
  | streamRejected k b => [("stream", .text k.text), ("detail", .text b.text)]
  | readerLagged k n => [("stream", .text k.text), ("missed", .number n)]
  | openMisused k s | closeMisused k s => [("stream", .text k.text), ("state", .text s.name)]
  | readFailed k message => [("stream", .text k.text), ("error", .text message)]

def shownFields (e : Event) : List (String × FieldValue) :=
  e.fields.map fun (name, value) => (name, value.shown)

end Event

end TunerBroker
