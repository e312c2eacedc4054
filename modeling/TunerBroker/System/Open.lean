import TunerBroker.System

/-! Opening one stream: the connection attempt races against its token and its timeout. The token is
looked at first, then the tuner's answer, then the timeout. -/

namespace TunerBroker

inductive OpenStep where
  | dialing (dial : Dial)
  | finished (result : Except StreamError Unit)

namespace System

/-- Asks the tuner for a connection for a stream; its number is how many there were. -/
def ask (w : System) (s : StreamId) : System :=
  let x := w.stream s
  let n := w.connections.size
  let connections := w.connections.add { stream := s, terms := w.terms.headD {} }
  let w := { w with connections, terms := w.terms.tail }
  let w := w.witness (.connect n x.request.media.id x.request.host.id)
  w.setStream s fun x => { x with lifecycle := .opening }

/-- Starts to open a stream. Only an unopened one may be opened, and a token that has fired already
keeps the tuner from being asked. -/
def startOpen (w : System) (c : CallId) (s : StreamId) (token : Option Token) :
    System × OpenStep :=
  let x := w.stream s
  if x.lifecycle ≠ .unopened then
    (w.note c (.openMisused x.key x.lifecycle.state),
      .finished (.error (.violation x.key (.openOn x.lifecycle.state))))
  else if w.hasFired token then (w, .finished (.error (.cancelled x.key)))
  else
    let terms := w.terms.headD {}
    (w.ask s, .dialing ⟨w.connections.size, w.clock + terms.delay,
      w.clock + x.openTimeout.ceilMillis, token⟩)

/-- The attempt has come out one way or another. -/
def dialDue (w : System) (d : Dial) : Bool :=
  w.hasFired d.token || d.answer ≤ w.clock || d.deadline ≤ w.clock

/-- Gives a stream its connection: the feed opens and the pump starts. -/
def connected (w : System) (c : CallId) (s : StreamId) (n : ConnectionId) : System :=
  let w := w.setLink n .live
  let w := w.setStream s fun x =>
    { x with lifecycle := .connected, feed := true, pump := .reading n,
             buffer := .ofCapacity x.capacity }
  w.note c (.streamOpened (w.stream s).key (w.stream s).sharing)

/-- Takes a stream back to unopened after a failed attempt. -/
def unconnected (w : System) (s : StreamId) (n : ConnectionId) (link : LinkState) : System :=
  (w.setLink n link).setStream s fun x => { x with lifecycle := .unopened }

def finishOpen (w : System) (c : CallId) (s : StreamId) (d : Dial) :
    System × Except StreamError Unit :=
  let x := w.stream s
  if w.hasFired d.token then
    (w.unconnected s d.connection .forsaken, .error (.cancelled x.key))
  else if d.answer ≤ w.clock then
    match (w.connection d.connection).terms.failure with
    | some message => (w.unconnected s d.connection .refused, .error (.connect x.key message))
    | none => (w.connected c s d.connection, .ok ())
  else (w.unconnected s d.connection .forsaken, .error (.openTimeout x.key x.openTimeout))

end System

end TunerBroker
