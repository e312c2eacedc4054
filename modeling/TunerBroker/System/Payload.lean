import TunerBroker.System

/-! Payload: what a connection delivers goes through the pump into the fan-out, and readers take it
from there. -/

namespace TunerBroker

inductive SourceEvent where
  | chunk (data : Text.Bytes)
  /-- The end of the stream. -/
  | finish
  /-- A read that fails. -/
  | failure (message : String)
  /-- A read that kills the task reading. -/
  | fatal (message : String)

/-- A reader of a stream: the number of its next chunk, and how many it had to skip. -/
structure StreamReader where
  stream : StreamId
  key : SourceKey
  next : Nat
  skipped : Nat := 0

inductive ReadResult where
  | chunk (data : Text.Bytes)
  | waiting
  | ended

namespace System

/-- The pump of a stream is reading this connection and has not been told to stop. -/
def accepts (w : System) (n : ConnectionId) : Bool :=
  let x := w.stream (w.connection n).stream
  x.pump = .reading n && !x.stopping

/-- The pump ends: the feed is cleared, and the connection is handed to whoever collects it. -/
def endPump (w : System) (s : StreamId) (n : ConnectionId) : System :=
  if (w.stream s).detached then
    (w.setStream s fun x => { x with feed := false, pump := .collected n }).dropLink n
  else w.setStream s fun x => { x with feed := false, pump := .stopped n }

/-- A turn of a pump that was told to stop. -/
def turnPump (w : System) (s : StreamId) : System :=
  match (w.stream s).pump with
  | .reading n => if (w.stream s).stopping then w.endPump s n else w
  | _ => w

/-- A connection delivers to the pump that reads it; to no other it can deliver. -/
def deliver (w : System) (n : ConnectionId) (e : SourceEvent) : System :=
  if w.accepts n then
    let s := (w.connection n).stream
    match e with
    | .chunk data => w.setStream s fun x => { x with buffer := x.buffer.push data }
    | .finish => (w.note none (.sourceEnded (w.stream s).key)).endPump s n
    | .failure message => (w.note none (.readFailed (w.stream s).key message)).endPump s n
    | .fatal message => (w.setStream s fun x => { x with pump := .crashed n message }).dropLink n
  else w

/-- Subscribes to a stream whose feed is open, from the next chunk on. -/
def subscribe (w : System) (s : StreamId) : Except StreamError StreamReader :=
  let x := w.stream s
  if x.feed then .ok { stream := s, key := x.key, next := x.buffer.sent }
  else .error (.closed x.key)

/-- A reader for a consumer, as long as its stream is there and delivers. -/
def readerOf (w : System) (k : ConsumerId) : Except StreamError StreamReader :=
  match w.consumers.get? k with
  | some x => if w.isHeld x.stream then w.subscribe x.stream else .error (.closed x.key)
  | none => .error (.closed ⟨"", ""⟩)

/-- What the fan-out gives a subscription: the chunk of its number, how many it has lost, or nothing
for now or for good. -/
def receive (w : System) (r : StreamReader) : Received Text.Bytes :=
  (w.stream r.stream).buffer.receive r.next

/-- The reader steps over the chunks it has lost. -/
def catchUp (w : System) (r : StreamReader) : System × StreamReader :=
  match w.receive r with
  | .lagged missed =>
    (w.note none (.readerLagged r.key missed),
      { r with next := r.next + missed, skipped := r.skipped + missed })
  | _ => (w, r)

/-- The next chunk for a reader, after it has stepped over those it has lost. -/
def read (w : System) (r : StreamReader) : System × StreamReader × ReadResult :=
  let (w, r) := w.catchUp r
  match w.receive r with
  | .chunk data => (w, { r with next := r.next + 1 }, .chunk data)
  | _ => (w, r, if (w.stream r.stream).isShut then .ended else .waiting)

end System

end TunerBroker
