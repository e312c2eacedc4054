import TunerBroker.System.Close

/-! Detaching consumers. The release that takes the count of a stream to zero takes it off the list
and closes it; a sweep takes everything off the lists and closes one stream after another. -/

namespace TunerBroker

namespace System

/-- The release is refused: its consumer is used up and nothing else changes. -/
def refuseRelease (w : System) (c : CallId) (k : ConsumerId) (e : Event) (key : SourceKey)
    (breach : Breach) : System :=
  ((w.setStanding k .refused).finish c (.failed (.violation key breach))).note c e

/-- Detaches a consumer from its stream, if the broker called lists it. -/
def release (w : System) (c : CallId) (k : ConsumerId) : System :=
  match w.consumers.get? k with
  | none => w.finish c (.failed (.violation ⟨"", ""⟩ .vanished))
  | some consumer =>
    let key := consumer.key
    let s := consumer.stream
    let b := w.brokerOf c
    let slot := w.slot b key
    if !w.isHeld s then w.refuseRelease c k (.releasedVanished key) key .vanished
    else if !slot.isRegistered s then
      w.refuseRelease c k (.releasedUnregistered key) key .unregistered
    else if (w.stream s).consumers = 0 then
      w.refuseRelease c k (.releasedUncounted key) key .uncounted
    else
      let w := w.setStanding k .released
      let w := w.setStream s fun x => { x with consumers := x.consumers - 1 }
      let remaining := (w.stream s).consumers
      if remaining ≠ 0 then (w.finish c .done).note c (.consumerDetached key remaining)
      else
        let w := (w.putSlot b key (slot.deregister s)).setPhase c (.tearing s none)
        w.note c (.lastConsumerDetached key)

/-- Counts the close once it has ended and gives its result. -/
def settleTear (w : System) (c : CallId) (s : StreamId) : CloseStep → System
  | .stage stage => w.setPhase c (.tearing s (some stage))
  | .finished result =>
    let w := w.account (w.brokerOf c) result
    let outcome :=
      match result with
      | .ok _ => .done
      | .error e => .failed e
    (w.finish c outcome).reap s

def turnTearing (w : System) (c : CallId) (s : StreamId) (stage : Option CloseStage) : System :=
  let (w, step) := w.turnClose c s stage
  w.settleTear c s step

/-- The streams a broker lists, over all keys. -/
def listed (w : System) (b : BrokerId) : List StreamId :=
  (w.broker b).slots.values.flatMap Slot.streams

/-- Takes all streams off the lists; a key stays only while an open is in flight for it. -/
def sweep (w : System) (c : CallId) : System :=
  let b := w.brokerOf c
  let streams := w.listed b
  let w := w.setSlots b fun m =>
    m.filterMap fun x => if x.opening.isSome then some x.takeStreams.2 else none
  w.setPhase c (.sweeping none streams 0)

/-- Counts the close of one swept stream and moves on to the next. -/
def settleSweep (w : System) (c : CallId) (s : StreamId) (rest : List StreamId) (count : Nat) :
    CloseStep → System
  | .stage stage => w.setPhase c (.sweeping (some (s, stage)) rest count)
  | .finished result =>
    ((w.account (w.brokerOf c) result).setPhase c (.sweeping none rest (count + 1))).reap s

def isGated (w : System) (c : CallId) : Bool :=
  match w.calls.get? c with
  | some call => call.gated
  | none => false

/-- A turn of a sweep: it takes on the close under way, begins the next, or ends with the count. -/
def turnSweeping (w : System) (c : CallId) (current : Option (StreamId × CloseStage))
    (rest : List StreamId) (count : Nat) : System :=
  match current, rest with
  | some (s, stage), _ =>
    let (w, step) := w.turnClose c s (some stage)
    w.settleSweep c s rest count step
  | none, s :: rest =>
    let w := w.note c (.sweeping (w.stream s).key (w.stream s).consumers)
    let (w, step) := w.turnClose c s none
    w.settleSweep c s rest count step
  | none, [] =>
    let w := if w.isGated c then w.note c (.gateShutDown count) else w
    w.finish c (.swept count)

/-- Gives up a consumer without releasing it. -/
def dropConsumer (w : System) (k : ConsumerId) : System :=
  match w.consumers.get? k with
  | some consumer =>
    if consumer.standing = .held then
      (w.setStanding k .dropped).note none (.consumerDropped consumer.key)
    else w
  | none => w

end System

end TunerBroker
