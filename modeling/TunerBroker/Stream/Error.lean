import TunerBroker.Duration
import TunerBroker.Source
import TunerBroker.Stream.State
import TunerBroker.Text.Masked
import TunerBroker.Text.Quoted

/-! Why a stream operation fails, and the text of each failure. -/

namespace TunerBroker

/-- A breach of the broker's own bookkeeping. -/
inductive Breach where
  /-- A stream opened in a state other than unopened. -/
  | openOn (state : StreamState)
  /-- A stream closed in a state without a connection to close. -/
  | closeOn (state : StreamState)
  /-- A shared stream on offer without a consumer. -/
  | unattended
  /-- A consumer released after its stream was destroyed. -/
  | vanished
  /-- A consumer released to a broker that does not list its stream. -/
  | unregistered
  /-- A consumer released from a stream without consumers. -/
  | uncounted
  /-- An open that gave a stream of another key, or one not connected. -/
  | unfit (state : StreamState) (key : SourceKey)
  /-- Any other, in its own words. -/
  | other (detail : String)
  deriving DecidableEq

inductive ShutdownFault where
  /-- The connection reports a failure. -/
  | transport (message : String)
  /-- The task reading the connection has died; it has the number of the connection. -/
  | readerDied (task : Nat) (message : String)
  deriving DecidableEq

inductive StreamError where
  | connect (key : SourceKey) (message : String)
  | openTimeout (key : SourceKey) (timeout : Duration)
  | cancelled (key : SourceKey)
  | mismatch (key : SourceKey) (registered requested : MediaSource)
  | closed (key : SourceKey)
  | shutdown (key : SourceKey) (fault : ShutdownFault)
  | violation (key : SourceKey) (breach : Breach)
  deriving DecidableEq

def Breach.text : Breach → String
  | openOn s => "open called on " ++ s.name ++ " handle"
  | closeOn s => "close called on " ++ s.name ++ " handle"
  | unattended => "registered shared handle has consumer count 0"
  | vanished => "released consumer's handle no longer exists"
  | unregistered => "released handle is not registered"
  | uncounted => "consumer count would drop below zero"
  | unfit s k => "open produced a " ++ s.name ++ " handle for " ++ k.text ++ " while acquiring"
  | other detail => detail

def ShutdownFault.text : ShutdownFault → String
  | transport message => message
  | readerDied task message =>
    String.ofList Text.failedTask ++ toString task ++ " panicked with message "
      ++ Text.quoted message

namespace StreamError

/-- The full text of an error; it names the source. -/
def text : StreamError → String
  | connect k message => "Failed to connect live source " ++ k.text ++ ": " ++ message
  | openTimeout k timeout => "Timed out after " ++ timeout.text ++ " opening live source " ++ k.text
  | cancelled k => "Open cancelled for live source " ++ k.text
  | mismatch k registered requested =>
    "Live source " ++ k.text ++ " is already streaming media source " ++ registered.id
      ++ " (requested " ++ requested.id ++ ")"
  | closed k => "Live stream closed: " ++ k.text
  | shutdown k fault => "Failed to shut down live source " ++ k.text ++ ": " ++ fault.text
  | violation k breach => "Live registry invariant violated for " ++ k.text ++ ": " ++ breach.text

/-- The message of an error as it is reported. -/
def message (e : StreamError) : String := Text.masked e.text

/-- A fault of the program rather than of its surroundings. -/
def isViolation : StreamError → Bool
  | violation _ _ => true
  | _ => false

end StreamError

end TunerBroker
