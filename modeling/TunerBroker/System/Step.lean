import TunerBroker.System.Abandon

/-! The steps of the system. A call or a pump takes a turn when it is ready; besides, calls begin,
connections deliver, tokens fire, calls are abandoned and time passes. -/

namespace TunerBroker

inductive Runner where
  | call (c : CallId)
  | pump (s : StreamId)
  deriving DecidableEq

/-- What a call sets out to do. -/
inductive Errand where
  | acquire (wish : Acquisition)
  /-- To acquire once authorized. -/
  | enter (ctx : RequestContext) (wish : Acquisition)
  | release (consumer : ConsumerId)
  | sweep
  | openStream (stream : StreamId) (token : Option Token)
  | closeStream (stream : StreamId)

def Errand.origin : Errand → Phase
  | acquire wish => .seeking wish
  | enter ctx wish => .admission ctx wish
  | release k => .releasing k
  | sweep => .sweepStart
  | openStream s token => .dialStart s token
  | closeStream s => .closeStart s

/-- What a caller can set out to do: the broker has to be there, a consumer to be released has to be
held, and a stream is opened or closed by itself only under a name. -/
def Errand.isAllowed (w : System) (b : BrokerId) : Errand → Bool
  | acquire _ | enter _ _ | sweep => b < w.brokers.size
  | release k =>
    b < w.brokers.size &&
      match w.consumers.get? k with
      | some x => x.standing = .held
      | none => false
  | openStream s _ | closeStream s => (w.stream s).named

inductive Move where
  | turn (r : Runner)
  | start (b : BrokerId) (gated : Bool) (errand : Errand)
  | deliver (n : ConnectionId) (e : SourceEvent)
  | cancel (t : Token)
  | abandon (c : CallId)
  /-- The work that an open does by itself comes to its end. -/
  | provide (c : CallId) (result : Except StreamError StreamId)
  | dropConsumer (k : ConsumerId)
  /-- A stream of its own, kept alive by a name. -/
  | make (request : StreamRequest) (config : BrokerConfig)
  /-- The name of a stream is given up. -/
  | letGo (s : StreamId)
  | setDesk (desk : AccessDesk)
  | elapse (ms : Nat)

namespace System

/-- Decides on a request and logs that a decision was made. -/
def authorized (w : System) (c : Option CallId) (ctx : RequestContext) (r : Requirement) :
    System × Decision :=
  (w.note c (.authorizationDecided r), w.desk.decide ctx r)

/-- Lets an authorized request through to the slot and turns any other away. -/
def enter (w : System) (c : CallId) (ctx : RequestContext) (a : Acquisition) : System :=
  let (w, d) := w.authorized c ctx .liveTvAccess
  if d.isAccepted then w.setPhase c (.seeking a)
  else (w.note c (.requestRejected a.key d)).finish c (.denied d)

def turnDialStart (w : System) (c : CallId) (s : StreamId) (token : Option Token) : System :=
  match w.startOpen c s token with
  | (w, .dialing d) => w.setPhase c (.dialing s d)
  | (w, .finished (.ok _)) => (w.finish c .done).reap s
  | (w, .finished (.error e)) => (w.finish c (.failed e)).reap s

def turnDialing (w : System) (c : CallId) (s : StreamId) (d : Dial) : System :=
  match w.finishOpen c s d with
  | (w, .ok _) => (w.finish c .done).reap s
  | (w, .error e) => (w.finish c (.failed e)).reap s

/-- Takes on a close that a caller asked for by itself. -/
def settleClose (w : System) (c : CallId) (s : StreamId) : CloseStep → System
  | .stage stage => w.setPhase c (.closing s stage)
  | .finished (.ok _) => (w.finish c .done).reap s
  | .finished (.error e) => (w.finish c (.failed e)).reap s

def turnCall (w : System) (c : CallId) : Phase → System
  | .admission ctx a => w.enter c ctx a
  | .seeking a => w.seek c a
  | .waiting a opener => w.endWait c a opener
  | .opening a s moves wait => w.turnOpening c a s moves wait
  | .rejecting s stage e => w.turnRejecting c s e stage
  | .releasing k => w.release c k
  | .tearing s stage => w.turnTearing c s stage
  | .sweepStart => w.sweep c
  | .sweeping current rest count => w.turnSweeping c current rest count
  | .dialStart s token => w.turnDialStart c s token
  | .dialing s d => w.turnDialing c s d
  | .closeStart s => let (w, step) := w.turnClose c s none; w.settleClose c s step
  | .closing s stage => let (w, step) := w.turnClose c s (some stage); w.settleClose c s step
  | .finished _ | .abandoned => w

def phaseReady (w : System) : Phase → Bool
  | .waiting a opener => w.hasFired a.cancel || w.openOver opener
  | .opening _ s _ wait => w.openWaitDue s wait
  | .rejecting s (some stage) _ | .tearing s (some stage) | .closing s stage => w.stageDue s stage
  | .sweeping (some (s, stage)) _ _ => w.stageDue s stage
  | .dialing _ d => w.dialDue d
  | .finished _ | .abandoned => false
  | _ => true

def ready (w : System) : Runner → Bool
  | .call c => w.phaseReady (w.phaseOf c)
  | .pump s => (w.stream s).pump.isReading && (w.stream s).stopping

def turn (w : System) (r : Runner) : System :=
  if w.ready r then
    match r with
    | .call c => w.turnCall c (w.phaseOf c)
    | .pump s => w.turnPump s
  else w

/-- Begins a call. A consumer goes with the call that releases it, so that it is released once. -/
def begin (w : System) (b : BrokerId) (gated : Bool) (errand : Errand) : System :=
  let w := w.addCall { broker := b, gated, phase := errand.origin }
  match errand with
  | .release k => w.setStanding k .handedOver
  | _ => w

def start (w : System) (b : BrokerId) (gated : Bool) (errand : Errand) : System :=
  if errand.isAllowed w b then w.begin b gated errand else w

def step (w : System) : Move → System
  | .turn r => w.turn r
  | .start b gated errand => w.start b gated errand
  | .deliver n e => w.deliver n e
  | .cancel t => if w.fired.contains t then w else { w with fired := t :: w.fired }
  | .abandon c => w.abandon c
  | .provide c result => w.provide c result
  | .dropConsumer k => w.dropConsumer k
  | .make request config => w.addStream { Stream.ofRequest request config with named := true }
  | .letGo s => (w.setStream s fun x => { x with named := false }).reap s
  | .setDesk desk => { w with desk }
  | .elapse ms => { w with clock := w.clock + ms }

def run (w : System) (moves : List Move) : System := moves.foldl step w

end System

end TunerBroker
