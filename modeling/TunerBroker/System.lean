import TunerBroker.Access.Desk
import TunerBroker.Call
import TunerBroker.Counters
import TunerBroker.Event
import TunerBroker.Table

/-! The state of all brokers, their streams, the tuner behind them and the calls under way, with the
small changes every step is made of. -/

namespace TunerBroker

structure Broker where
  config : BrokerConfig := {}
  slots : Keyed SourceKey Slot := {}
  counters : Counters := {}

/-- How the tuner treats one connection. -/
structure TunerTerms where
  /-- Milliseconds until it answers. -/
  delay : Nat := 0
  /-- It answers with this failure. -/
  failure : Option String := none
  /-- Milliseconds that a shutdown takes. -/
  shutdownDelay : Nat := 0
  /-- A shutdown ends in this failure. -/
  shutdownFailure : Option String := none

inductive LinkState where
  | dialing
  /-- The tuner refused it. -/
  | refused
  /-- Its caller gave up waiting. -/
  | forsaken
  | live
  | shutting
  | shut
  /-- Destroyed without a shutdown. -/
  | dropped
  deriving DecidableEq

/-- A connection of the tuner, in the order they were dialed. -/
structure Connection where
  stream : StreamId
  terms : TunerTerms := {}
  state : LinkState := .dialing

inductive TunerEvent where
  | connect (connection : ConnectionId) (media host : String)
  | shutdown (connection : ConnectionId)
  | dropped (connection : ConnectionId)

/-- What has become of a consumer. -/
inductive Standing where
  | held
  /-- Given to a release that has not looked at it yet. -/
  | handedOver
  /-- Released, and its stream counted it. -/
  | released
  /-- Released where its stream was not listed. -/
  | refused
  /-- Given up without a release. -/
  | dropped
  deriving DecidableEq

/-- A consumer attached to a stream. It does not keep the stream alive. -/
structure Consumer where
  broker : BrokerId
  stream : StreamId
  key : SourceKey
  standing : Standing := .held

structure Entry where
  call : Option CallId
  event : Event

/-- All brokers with everything around them. -/
structure System where
  /-- Milliseconds since the start. -/
  clock : Nat := 0
  desk : AccessDesk := {}
  brokers : Table Broker := {}
  streams : Table Stream := {}
  connections : Table Connection := {}
  calls : Table Call := {}
  consumers : Table Consumer := {}
  /-- Cancelled tokens. -/
  fired : List Token := []
  /-- Terms of the connections still to come. -/
  terms : List TunerTerms := []
  /-- The log, newest entry first. -/
  journal : List Entry := []
  /-- What the tuner saw, newest first. -/
  sightings : List TunerEvent := []

namespace System

/-- Brokers of these settings at their start, before any call. -/
def fresh (configs : List BrokerConfig) (desk : AccessDesk) (terms : List TunerTerms) : System :=
  { desk, terms, brokers := ⟨configs.map fun c => { config := c }⟩ }

def broker (w : System) (b : BrokerId) : Broker := (w.brokers.get? b).getD {}

/-- The stream of a number; one that was never made counts as closed. -/
def stream (w : System) (s : StreamId) : Stream := (w.streams.get? s).getD .blank

/-- The connection of a number; one that was never dialed counts as dropped. -/
def connection (w : System) (n : ConnectionId) : Connection :=
  (w.connections.get? n).getD { stream := 0, state := .dropped }

/-- The slot under a key, empty if there is none. -/
def slot (w : System) (b : BrokerId) (k : SourceKey) : Slot := ((w.broker b).slots.get? k).getD {}

def brokerOf (w : System) (c : CallId) : BrokerId :=
  match w.calls.get? c with
  | some call => call.broker
  | none => 0

/-- The place a call has come to; one that was never begun counts as abandoned. -/
def phaseOf (w : System) (c : CallId) : Phase :=
  match w.calls.get? c with
  | some call => call.phase
  | none => .abandoned

def hasFired (w : System) : Option Token → Bool
  | some t => w.fired.contains t
  | none => false

def inFlight (w : System) (c : CallId) : Bool := (w.phaseOf c).isOpening

def note (w : System) (c : Option CallId) (e : Event) : System :=
  { w with journal := ⟨c, e⟩ :: w.journal }

/-- Shows the tuner an event. -/
def witness (w : System) (e : TunerEvent) : System := { w with sightings := e :: w.sightings }

def record (w : System) (b : BrokerId) (t : Tick) : System :=
  { w with brokers := w.brokers.update b fun x => { x with counters := x.counters.record t } }

def setSlots (w : System) (b : BrokerId) (f : Keyed SourceKey Slot → Keyed SourceKey Slot) :
    System :=
  { w with brokers := w.brokers.update b fun x => { x with slots := f x.slots } }

/-- Puts a slot under a key, or takes the key out if the slot is empty. -/
def putSlot (w : System) (b : BrokerId) (k : SourceKey) (s : Slot) : System :=
  w.setSlots b fun m => if s.isEmpty then m.erase k else m.put k s

/-- Adds a stream; its number is how many there were. -/
def addStream (w : System) (x : Stream) : System := { w with streams := w.streams.add x }

def setStream (w : System) (s : StreamId) (f : Stream → Stream) : System :=
  { w with streams := w.streams.update s f }

def setLink (w : System) (n : ConnectionId) (state : LinkState) : System :=
  { w with connections := w.connections.update n fun x => { x with state } }

def addCall (w : System) (x : Call) : System := { w with calls := w.calls.add x }

def setPhase (w : System) (c : CallId) (p : Phase) : System :=
  { w with calls := w.calls.update c fun x => { x with phase := p } }

def finish (w : System) (c : CallId) (o : Outcome) : System := w.setPhase c (.finished o)

/-- Tells the waiting calls how the open came out. -/
def announce (w : System) (c : CallId) (a : Announcement) : System :=
  { w with calls := w.calls.update c fun x => { x with announced := some a } }

def addConsumer (w : System) (x : Consumer) : System := { w with consumers := w.consumers.add x }

def setStanding (w : System) (k : ConsumerId) (s : Standing) : System :=
  { w with consumers := w.consumers.update k fun x => { x with standing := s } }

/-- Destroys a connection that was not shut down. -/
def dropLink (w : System) (n : ConnectionId) : System :=
  (w.setLink n .dropped).witness (.dropped n)

/-- The stream is kept alive: a broker lists it, a call holds it, or it has a name outside. -/
def isHeld (w : System) (s : StreamId) : Bool :=
  (w.stream s).named
    || w.brokers.entries.any (fun b => b.slots.values.any fun x => x.isRegistered s)
    || w.calls.entries.any fun c => c.phase.holds.contains s

def isFree (w : System) (s : StreamId) : Bool :=
  (w.stream s).named && !w.calls.entries.any fun c => c.phase.holds.contains s

/-- Nobody will collect the connection of a stream from its pump any more. -/
def detachPump (w : System) (s : StreamId) : System :=
  let w := w.setStream s fun x => { x with stopping := true, detached := true }
  match (w.stream s).pump with
  | .stopped n => (w.setStream s fun x => { x with pump := .collected n }).dropLink n
  | .crashed _ _ => w.setStream s fun x => { x with feed := false }
  | _ => w

/-- Destroys a stream that nothing keeps alive. One destroyed while connected stops its pump, and
its connection is lost. -/
def reap (w : System) (s : StreamId) : System :=
  if w.isHeld s then w
  else if (w.stream s).isConnected && !(w.stream s).detached then
    (w.detachPump s).note none (.droppedWhileOpen (w.stream s).key)
  else w

end System

end TunerBroker
