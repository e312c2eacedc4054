import TunerBroker.System.Close
import TunerBroker.System.Open
import TunerBroker.System.Payload

/-! Attaching a consumer to a source. A call reuses the shared stream while it delivers, waits for
another call's open, or opens a stream itself; all who wait for one open learn how it came out. -/

namespace TunerBroker

namespace System

/-- Makes a consumer of a stream and ends the call with it. -/
def attach (w : System) (c : CallId) (s : StreamId) : System :=
  let consumer := { broker := w.brokerOf c, stream := s, key := (w.stream s).key }
  (w.addConsumer consumer).finish c (.attached w.consumers.size)

/-- Ends an open in flight: its mark is cleared, and the stream it gave, if any, is listed. -/
def endOpen (w : System) (c : CallId) (k : SourceKey) (given : Option StreamId) : System :=
  let b := w.brokerOf c
  let slot := w.slot b k
  let slot := if slot.opening = some c then { slot with opening := none } else slot
  let slot :=
    match given with
    | some s => slot.register s (w.stream s).sharing
    | none => slot
  w.putSlot b k slot

/-- Starts an open with a new stream and marks the slot, whose streams stay as given. -/
def beginOpen (w : System) (c : CallId) (a : Acquisition) (slot : Slot) : System :=
  let w := w.putSlot (w.brokerOf c) a.key { slot with opening := some c }
  let wait := if a.plan.outside then .outside else .nowhere
  (w.addStream (.ofRequest a.plan.request a.plan.config)).setPhase c
    (.opening a w.streams.size a.plan.moves wait)

/-- Joins the open in flight for a key, or starts one. -/
def enqueue (w : System) (c : CallId) (a : Acquisition) : System :=
  let slot := w.slot (w.brokerOf c) a.key
  match slot.opening.filter w.inFlight with
  | some opener => w.setPhase c (.waiting a opener)
  | none => w.beginOpen c a slot

def reuse (w : System) (c : CallId) (a : Acquisition) (s : StreamId) : System :=
  let w := (w.setStream s fun x => { x with consumers := x.consumers + 1 }).attach c s
  let w := w.record (w.brokerOf c) .reused
  w.note c (.attachedToExisting a.key (w.stream s).consumers)

/-- Looks at the slot: the shared stream is reused while it delivers, unless it delivers other media
than asked for; one that has ended gives up its place. -/
def seek (w : System) (c : CallId) (a : Acquisition) : System :=
  let b := w.brokerOf c
  let slot := w.slot b a.key
  match slot.shared with
  | none => w.enqueue c a
  | some s =>
    let x := w.stream s
    if x.consumers = 0 then
      (w.note c (.sharedUnattended a.key)).finish c (.failed (.violation a.key .unattended))
    else if x.isLive then
      match a.media.filter (· ≠ x.request.media) with
      | some media =>
        (w.note c (.mediaMismatch a.key x.request.media.id media.id)).finish c
          (.failed (.mismatch a.key x.request.media media))
      | none => w.reuse c a s
    else
      let w := w.note c (.replacingEnded a.key x.consumers)
      (w.putSlot b a.key slot.demote).enqueue c a

def openOver (w : System) (opener : CallId) : Bool :=
  match w.calls.get? opener with
  | some call => call.announced.isSome || !call.phase.isOpening
  | none => true

/-- Goes on after a wait: a fired token ends the call, an open that failed fails it as well, and any
other end sends it back to the slot. -/
def endWait (w : System) (c : CallId) (a : Acquisition) (opener : CallId) : System :=
  if w.hasFired a.cancel then w.finish c (.failed (.cancelled a.key))
  else
    match (w.calls.get? opener).bind (·.announced) with
    | some (.failed e) => (w.note c (.joinedOpenFailed a.key e)).finish c (.failed e)
    | _ => w.setPhase c (.seeking a)

/-- The open came to an error; its stream goes with it. -/
def failOpen (w : System) (c : CallId) (a : Acquisition) (s : StreamId) (e : StreamError) :
    System :=
  let w := ((w.finish c (.failed e)).endOpen c a.key none).reap s
  let w := w.record (w.brokerOf c) .openFailed
  (w.note c (.openFailed a.key e)).announce c (.failed e)

/-- The open gave a stream: a connected one of the right key is listed with its first consumer, any
other is refused. -/
def concludeOpen (w : System) (c : CallId) (a : Acquisition) (s : StreamId) : System :=
  let x := w.stream s
  if x.key ≠ a.key ∨ !x.isConnected then
    let breach := .unfit x.state x.key
    let e := .violation a.key breach
    let w := (w.setPhase c (.rejecting s none e)).endOpen c a.key none
    (w.note c (.streamRejected a.key breach)).announce c (.failed e)
  else
    let w := w.setStream s fun x => { x with consumers := x.consumers + 1 }
    let w := (w.endOpen c a.key (some s)).attach c s
    let w := w.record (w.brokerOf c) .opened
    (w.note c (.attachedToNew a.key x.sharing)).announce c .opened

def nextMove (w : System) (c : CallId) (a : Acquisition) (s : StreamId) : List OpenMove → System
  | [] => w.concludeOpen c a s
  | .pause ms :: rest => w.setPhase c (.opening a s rest (.pausing (w.clock + ms)))
  | .fail e :: _ => w.failOpen c a s e
  | .connect token :: rest =>
    match w.startOpen c s token with
    | (w, .dialing d) => w.setPhase c (.opening a s rest (.dialing d))
    | (w, .finished (.ok _)) => w.setPhase c (.opening a s rest .nowhere)
    | (w, .finished (.error e)) => w.failOpen c a s e
  | .exhaust :: rest =>
    let w :=
      match (w.stream s).pump.connection? with
      | some n => w.deliver n .finish
      | none => w
    w.setPhase c (.opening a s rest .ending)
  | .close :: rest =>
    match w.startClose c s with
    | (w, .stage stage) => w.setPhase c (.opening a s rest (.closing stage))
    | (w, .finished (.ok _)) => w.setPhase c (.opening a s rest .nowhere)
    | (w, .finished (.error e)) => w.failOpen c a s e

def openWaitDue (w : System) (s : StreamId) : OpenWait → Bool
  | .nowhere => true
  | .outside => false
  | .pausing due => due ≤ w.clock
  | .dialing d => w.dialDue d
  | .ending => (w.stream s).state = .ended
  | .closing stage => w.stageDue s stage

/-- A turn of a call that is opening a stream. A connection made goes with the next move at once. -/
def turnOpening (w : System) (c : CallId) (a : Acquisition) (s : StreamId) (moves : List OpenMove) :
    OpenWait → System
  | .nowhere => w.nextMove c a s moves
  | .outside => w
  | .pausing _ | .ending => w.setPhase c (.opening a s moves .nowhere)
  | .dialing d =>
    match w.finishOpen c s d with
    | (w, .ok _) => w.nextMove c a s moves
    | (w, .error e) => w.failOpen c a s e
  | .closing stage =>
    match w.advanceClose c s stage with
    | (w, .stage stage) => w.setPhase c (.opening a s moves (.closing stage))
    | (w, .finished (.ok _)) => w.setPhase c (.opening a s moves .nowhere)
    | (w, .finished (.error e)) => w.failOpen c a s e

/-- The work that an open does by itself comes to its end: with an error, or with a stream that goes
by a name so far and is free. -/
def provide (w : System) (c : CallId) (result : Except StreamError StreamId) : System :=
  match w.phaseOf c, result with
  | .opening a s _ .outside, .error e => w.setPhase c (.opening a s [.fail e] .nowhere)
  | .opening a _ moves .outside, .ok s =>
    if w.isFree s then
      let w := w.setStream s fun x => { x with named := false }
      w.setPhase c (.opening a s moves .nowhere)
    else w
  | _, _ => w

/-- The refused stream is closed, and destroyed with the call's end. -/
def settleRejection (w : System) (c : CallId) (s : StreamId) (e : StreamError) :
    CloseStep → System
  | .stage stage => w.setPhase c (.rejecting s (some stage) e)
  | .finished (.ok _) => (w.finish c (.failed e)).reap s
  | .finished (.error f) =>
    let key :=
      match e with
      | .violation k _ => k
      | _ => (w.stream s).key
    ((w.note c (.rejectedCloseFailed key f)).finish c (.failed e)).reap s

def turnRejecting (w : System) (c : CallId) (s : StreamId) (e : StreamError)
    (stage : Option CloseStage) : System :=
  let (w, step) := w.turnClose c s stage
  w.settleRejection c s e step

end System

end TunerBroker
