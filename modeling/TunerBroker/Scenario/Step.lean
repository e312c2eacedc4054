import TunerBroker.System.Settle

/-! The steps of a scenario. A scenario names what it works with: consumers, readers, streams of its
own, calls and tokens. -/

namespace TunerBroker

/-- How a stream is made for `acquire` by hand. -/
structure OpenOrder where
  request : StreamRequest
  /-- The settings of the stream, those of the broker by default. -/
  config : Option BrokerConfig := none
  preDelay : Nat := 0
  failure : Option StreamError := none
  connects : Bool := true
  cancel : Option String := none
  exhausts : Bool := false
  closes : Bool := false
  postDelay : Nat := 0

inductive Step where
  /-- Nothing is done. -/
  | idle
  /-- Nothing is done, but what a step at a node needs is checked: the node, its gate for one that
  goes through it, and that the name is free for one that makes a consumer. -/
  | check (node : Nat) (gated : Bool) (name : Option String)
  | acquire (node : Nat) (name : String) (request : StreamRequest) (cancel : Option String)
  | acquireWith (node : Nat) (name : String) (key : SourceKey) (order : OpenOrder)
  | enter (node : Nat) (name : String) (ctx : RequestContext) (request : StreamRequest)
      (cancel : Option String)
  | release (node : Nat) (gated : Bool) (consumer : String)
  | closeAll (node : Nat) (gated : Bool) (name : String)
  | authorizeAt (node : Nat) (ctx : RequestContext) (requirement : Requirement)
  | inspect (node : Nat) (key : SourceKey)
  | settings (node : Nat)
  | counters (node : Nat)
  | consumer (name : String)
  | dropConsumer (name : String)
  | cancel (token : String)
  | abandon (task : String)
  | advance (ms : Nat)
  | reader (consumer name : String)
  | dropReader (name : String)
  | read (name : String) (limit : Nat)
  /-- Delivers chunks one after another; `none` is one that could not be read. -/
  | push (connection : Nat) (chunks : List (Option Text.Bytes))
  | pushNumbers (connection first last : Nat)
  | source (connection : Nat) (event : SourceEvent)
  | makeStream (name : String) (request : StreamRequest) (config : BrokerConfig)
  | openStream (stream : String) (name : String) (cancel : Option String)
  | closeStream (stream : String) (name : String)
  | streamInfo (stream : String)
  | streamText (stream : String)
  | subscribe (stream : String) (name : String)
  | receive (name : String)
  | dropStream (stream : String)
  | authorize (ctx : RequestContext) (requirement : Requirement)
  | markComplete
  | block (user : UserId)
  | unblock (user : UserId)
  | upsertSession (session : Session)
  | touchSession (id endpoint : String)
  | removeSession (id : String)
  | listSessions
  | authorizerText

/-- The moves of an open made to order: wait, fail, connect, end, close and wait, as far as asked
for. -/
def OpenOrder.moves (o : OpenOrder) (cancel : Option Token) : List OpenMove :=
  (if o.preDelay = 0 then [] else [.pause o.preDelay])
    ++ (o.failure.map OpenMove.fail).toList
    ++ (if o.connects then [.connect cancel] else [])
    ++ (if o.exhausts then [.exhaust] else [])
    ++ (if o.closes then [.close] else [])
    ++ (if o.postDelay = 0 then [] else [.pause o.postDelay])

end TunerBroker
