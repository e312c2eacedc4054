import TunerBroker.System

/-! Closing one stream: the pump is told to stop, its connection is collected from it, and the
connection is shut down. -/

namespace TunerBroker

inductive CloseStep where
  | stage (stage : CloseStage)
  | finished (result : Except StreamError Unit)

namespace System

/-- Starts to close a stream. A connected one has its feed cleared and its pump told to stop; an
unopened one is closed at once; any other may not be closed. -/
def startClose (w : System) (c : CallId) (s : StreamId) : System × CloseStep :=
  let x := w.stream s
  match x.lifecycle with
  | .connected =>
    (w.setStream s fun x => { x with lifecycle := .closing, feed := false, stopping := true },
      .stage .joining)
  | .unopened => (w.setStream s fun x => { x with lifecycle := .closed }, .finished (.ok ()))
  | other =>
    (w.note c (.closeMisused x.key other.state),
      .finished (.error (.violation x.key (.closeOn other.state))))

def stageDue (w : System) (s : StreamId) : CloseStage → Bool
  | .joining => !(w.stream s).pump.isReading
  | .shutting due => due ≤ w.clock

def closed (w : System) (c : CallId) (s : StreamId) (fault : Option ShutdownFault) :
    System × CloseStep :=
  let w := w.setStream s fun x => { x with lifecycle := .closed }
  let key := (w.stream s).key
  match fault with
  | none => (w.note c (.streamClosed key), .finished (.ok ()))
  | some f =>
    let e := .shutdown key f
    (w.note c (.closeFailed key e), .finished (.error e))

/-- Takes the connection from a pump that has stopped and begins to shut it down. -/
def collect (w : System) (s : StreamId) (n : ConnectionId) : System :=
  let w := w.setStream s fun x => { x with pump := .collected n }
  (w.setLink n .shutting).witness (.shutdown n)

/-- Takes a close on from a wait that is over: from the pump to the shutdown of what it hands back,
from the shutdown to the end. -/
def advanceClose (w : System) (c : CallId) (s : StreamId) : CloseStage → System × CloseStep
  | .joining =>
    match (w.stream s).pump with
    | .stopped n =>
      (w.collect s n, .stage (.shutting (w.clock + (w.connection n).terms.shutdownDelay)))
    | .crashed n message => w.closed c s (some (.readerDied n message))
    | _ => (w, .stage .joining)
  | .shutting due =>
    match (w.stream s).pump with
    | .collected n =>
      let failure := (w.connection n).terms.shutdownFailure
      (w.setLink n .shut).closed c s (failure.map ShutdownFault.transport)
    | _ => (w, .stage (.shutting due))

def turnClose (w : System) (c : CallId) (s : StreamId) : Option CloseStage → System × CloseStep
  | none => w.startClose c s
  | some stage => w.advanceClose c s stage

/-- A close is abandoned: one that waits for the pump leaves it to itself. -/
def abandonClose (w : System) (s : StreamId) : CloseStage → System
  | .joining => w.detachPump s
  | .shutting _ => w

/-- Counts a close that a broker made of a stream it had listed. -/
def account (w : System) (b : BrokerId) : Except StreamError Unit → System
  | .ok () => w.record b .closed
  | .error e => if e.isViolation then w else (w.record b .closed).record b .closeFailed

end System

end TunerBroker
