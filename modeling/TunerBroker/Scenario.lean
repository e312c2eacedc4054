import TunerBroker.Scenario.Answer
import TunerBroker.Scenario.Step
import TunerBroker.System.Report

/-! Scenarios: brokers, gates and streams driven step by step under one clock. After each step the
system settles, and the step reports what it answers and what has happened. -/

namespace TunerBroker

/-- A call under way, by the name it was given. -/
structure Task where
  call : CallId
  /-- The name its consumer will have. -/
  consumer : Option String := none

structure Node where
  config : BrokerConfig := {}
  /-- It is reached through a gate. -/
  gate : Bool := false

structure Scenario where
  system : System
  nodes : List Node
  consumers : Keyed String ConsumerId := {}
  readers : Keyed String StreamReader := {}
  receivers : Keyed String StreamReader := {}
  streams : Keyed String StreamId := {}
  tasks : Keyed String Task := {}
  /-- Tokens by name, each at its number. -/
  tokens : List String := []

namespace Scenario

def ofNodes (nodes : List Node) (desk : AccessDesk) (terms : List TunerTerms) : Scenario where
  system := .fresh (nodes.map (·.config)) desk terms
  nodes := nodes

def apply (s : Scenario) (m : Move) : Scenario := { s with system := s.system.step m }

def settle (s : Scenario) : Scenario := { s with system := s.system.settle }

/-- The number of a token, which is made when it is first named. -/
def token (s : Scenario) (name : String) : Scenario × Token :=
  let n := s.tokens.idxOf name
  if n < s.tokens.length then (s, n) else ({ s with tokens := s.tokens ++ [name] }, n)

def token? (s : Scenario) : Option String → Scenario × Option Token
  | some name => let (s, t) := s.token name; (s, some t)
  | none => (s, none)

/-- The name of a stream that a broker opened: the number of its connection. -/
def label (s : Scenario) (x : StreamId) : String :=
  match (s.system.stream x).pump.connection? with
  | some n => "h" ++ toString n
  | none => "?"

def reportStream (s : Scenario) (label : String) (x : StreamId) : StreamReport :=
  let st := s.system.stream x
  ⟨label, st.key, st.consumers, st.sharing, st.state⟩

def answerOf (s : Scenario) (gated : Bool) : Outcome → Answer
  | .attached k =>
    match s.system.consumers.get? k with
    | some c => .attached (s.label c.stream) c.key
    | none => .ok
  | .done => .ok
  | .swept n => .count n
  | .failed e => .failed gated e
  | .denied d => .denied d

def answer? (s : Scenario) (t : Task) : Option Answer :=
  (s.system.calls.get? t.call).bind fun call =>
    match call.phase with
    | .finished o => some (s.answerOf call.gated o)
    | _ => none

/-- Begins a call under a name and lets it take its turns. -/
def launch (s : Scenario) (name : String) (node : Nat) (gated : Bool) (errand : Errand)
    (consumer : Option String) : Scenario × Answer :=
  let call := s.system.calls.size
  let s := (s.apply (.start node gated errand)).settle
  ({ s with tasks := s.tasks.put name { call, consumer } }, .pending)

def launchAcquire (s : Scenario) (name : String) (node : Nat) (gated : Bool) (errand : Errand) :
    Scenario × Answer :=
  s.launch ("acquire:" ++ name) node gated errand (some name)

/-- The name is taken by a consumer or by a call about to make one. -/
def isTaken (s : Scenario) (name : String) : Bool :=
  s.consumers.contains name || s.tasks.contains ("acquire:" ++ name)

def configOf (s : Scenario) (node : Nat) : BrokerConfig := (s.system.broker node).config

/-- The node exists, and has a gate if one is needed. -/
def hasNode (s : Scenario) (node : Nat) (gated : Bool) : Bool :=
  match s.nodes[node]? with
  | some n => n.gate || !gated
  | none => false

/-- Checks what a step at a node needs, the node first: it is there, with a gate if one is needed,
and the name is free if one is given. -/
def check (s : Scenario) (node : Nat) (gated : Bool) (name : Option String) : Except Refusal Unit :=
  if !s.hasNode node gated then .error .noNode
  else if name.any s.isTaken then .error .nameTaken
  else .ok ()

def acquire (s : Scenario) (node : Nat) (name : String) (request : StreamRequest)
    (cancel : Option String) : Scenario × Answer :=
  match s.check node false name with
  | .error why => (s, .refused why)
  | .ok () =>
    let (s, t) := s.token? cancel
    s.launchAcquire name node false (.acquire (.ofRequest request t (s.configOf node)))

/-- Asks a node for a consumer of a stream made to order. -/
def acquireWith (s : Scenario) (node : Nat) (name : String) (key : SourceKey) (o : OpenOrder) :
    Scenario × Answer :=
  match s.check node false name with
  | .error why => (s, .refused why)
  | .ok () =>
    let (s, t) := s.token? o.cancel
    let config := o.config.getD (s.configOf node)
    let plan := { request := o.request, config, moves := o.moves t }
    s.launchAcquire name node false (.acquire ⟨key, none, none, plan⟩)

/-- Asks a gate for a consumer of a source. -/
def enter (s : Scenario) (node : Nat) (name : String) (ctx : RequestContext)
    (request : StreamRequest) (cancel : Option String) : Scenario × Answer :=
  match s.check node true name with
  | .error why => (s, .refused why)
  | .ok () =>
    let (s, t) := s.token? cancel
    s.launchAcquire name node true (.enter ctx (.ofRequest request t (s.configOf node)))

/-- Gives a consumer back; its name is free at once, however the release ends. -/
def release (s : Scenario) (node : Nat) (gated : Bool) (name : String) : Scenario × Answer :=
  if !s.hasNode node gated then (s, .refused .noNode)
  else if s.tasks.contains ("release:" ++ name) then (s, .refused .stillReleasing)
  else
    match s.consumers.get? name with
    | none => (s, .refused .noConsumer)
    | some k =>
      { s with consumers := s.consumers.erase name }.launch ("release:" ++ name) node gated
        (.release k) none

def closeAll (s : Scenario) (node : Nat) (gated : Bool) (name : String) : Scenario × Answer :=
  let task := "close_all:" ++ name
  if !s.hasNode node gated then (s, .refused .noNode)
  else if s.tasks.contains task then (s, .refused .nameTaken)
  else s.launch task node gated .sweep none

/-- Decides on a request and counts the questions it took. -/
def authorize (s : Scenario) (ctx : RequestContext) (r : Requirement) : Scenario × Answer :=
  let (d, tally) := s.system.desk.decideCounted ctx r
  ({ s with system := (s.system.authorized none ctx r).1 }, .decided d tally)

/-- What a node lists under a key, by connection number. -/
def inspect (s : Scenario) (node : Nat) (key : SourceKey) : Answer :=
  let streams := s.system.listedAt node key
  let number := fun x => ((s.system.stream x).pump.connection?).getD 0
  let sorted := streams.mergeSort fun x y => number x ≤ number y
  .inspection (s.system.isRegistered node key) (s.system.consumerCount node key)
    (sorted.map fun x => s.reportStream (s.label x) x)

def abandon (s : Scenario) (name : String) : Scenario × Answer :=
  match s.tasks.get? name with
  | none => (s, .flag false)
  | some t =>
    let s := (s.apply (.abandon t.call)).settle
    ({ s with tasks := s.tasks.erase name }, .flag true)

def readSome : Nat → System → StreamReader → List Text.Bytes →
    System × StreamReader × List Text.Bytes × ReadEnd
  | 0, w, r, chunks => (w, r, chunks.reverse, .more)
  | limit + 1, w, r, chunks =>
    match w.read r with
    | (w, r, .chunk data) => readSome limit w r (data :: chunks)
    | (w, r, .waiting) => (w, r, chunks.reverse, .waiting)
    | (w, r, .ended) => (w, r, chunks.reverse, .ended)

def read (s : Scenario) (name : String) (limit : Nat) : Scenario × Answer :=
  match s.readers.get? name with
  | none => (s, .refused .noReader)
  | some r =>
    let (system, r, chunks, readEnd) := readSome limit s.system r []
    ({ s with system, readers := s.readers.put name r }, .chunks chunks readEnd r.skipped)

/-- A connection delivers, and tells whether it could. -/
def deliver (s : Scenario) (n : Nat) (e : SourceEvent) : Scenario × Bool :=
  let accepted := s.system.accepts n
  ((s.apply (.deliver n e)).settle, accepted)

/-- Delivers chunks one after another and tells which were accepted. The first that cannot be read,
or that has no connection to come from, ends it; those before it stay delivered. -/
def deliverAll (s : Scenario) (n : Nat) :
    List (Option Text.Bytes) → List Bool → Scenario × Except Refusal (List Bool)
  | [], accepted => (s, .ok accepted.reverse)
  | none :: _, _ => (s, .error .unreadableChunk)
  | some data :: chunks, accepted =>
    if n < s.system.connections.size then
      let (s, b) := s.deliver n (.chunk data)
      s.deliverAll n chunks (b :: accepted)
    else (s, .error .noConnection)

def push (s : Scenario) (n : Nat) (chunks : List (Option Text.Bytes))
    (answer : List Bool → Answer) : Scenario × Answer :=
  match s.deliverAll n chunks [] with
  | (s, .ok accepted) => (s, answer accepted)
  | (s, .error why) => (s, .refused why)

def receive (s : Scenario) (name : String) : Scenario × Answer :=
  match s.receivers.get? name with
  | none => (s, .refused .noReceiver)
  | some r =>
    match s.system.receive r with
    | .chunk data =>
      ({ s with receivers := s.receivers.put name { r with next := r.next + 1 } }, .chunk data)
    | .lagged missed =>
      ({ s with receivers := s.receivers.put name { r with next := r.next + missed } },
        .lagged missed)
    | .nothing => (s, if (s.system.stream r.stream).isShut then .shut else .empty)

/-- Makes a stream under a name; one that had the name before loses it. -/
def makeStream (s : Scenario) (name : String) (request : StreamRequest) (config : BrokerConfig) :
    Scenario × Answer :=
  let made := s.system.streams.size
  let old := s.streams.get? name
  let s := s.apply (.make request config)
  let s := { s with streams := s.streams.put name made }
  match old with
  | some x => ((s.apply (.letGo x)).settle, .ok)
  | none => (s, .ok)

def withStream (s : Scenario) (name : String) (f : StreamId → Scenario × Answer) :
    Scenario × Answer :=
  match s.streams.get? name with
  | some x => f x
  | none => (s, .refused .noStream)

def launchOn (s : Scenario) (task : String) (errand : Errand) : Scenario × Answer :=
  if s.tasks.contains task then (s, .refused .nameTaken) else s.launch task 0 false errand none

/-- Changes the desk, and answers with what the change tells. -/
def atDesk (s : Scenario) (result : AccessDesk × Answer) : Scenario × Answer :=
  (s.apply (.setDesk result.1), result.2)

/-- Carries out a step; a call it begins answers as pending for now. -/
def execute (s : Scenario) : Step → Scenario × Answer
  | .idle => (s, .ok)
  | .check node gated name =>
    match s.check node gated name with
    | .error why => (s, .refused why)
    | .ok () => (s, .ok)
  | .acquire node name request cancel => s.acquire node name request cancel
  | .acquireWith node name key order => s.acquireWith node name key order
  | .enter node name ctx request cancel => s.enter node name ctx request cancel
  | .release node gated name => s.release node gated name
  | .closeAll node gated name => s.closeAll node gated name
  | .authorizeAt node ctx r =>
    if s.hasNode node true then s.authorize ctx r else (s, .refused .noNode)
  | .inspect node key =>
    if s.hasNode node false then (s, s.inspect node key) else (s, .refused .noNode)
  | .settings node =>
    if s.hasNode node false then (s, .settings (s.configOf node)) else (s, .refused .noNode)
  | .counters node =>
    if s.hasNode node false then (s, .counters (s.system.broker node).counters)
    else (s, .refused .noNode)
  | .consumer name =>
    match (s.consumers.get? name).bind s.system.consumers.get? with
    | some c => (s, .attached (s.label c.stream) c.key)
    | none => (s, .refused .noConsumer)
  | .dropConsumer name =>
    match s.consumers.get? name with
    | some k =>
      ({ s with consumers := s.consumers.erase name }.apply (.dropConsumer k), .flag true)
    | none => (s, .flag false)
  | .cancel name =>
    let (s, t) := s.token name
    ((s.apply (.cancel t)).settle, .ok)
  | .abandon task => s.abandon task
  | .advance ms => ({ s with system := s.system.advance ms }, .ok)
  | .reader consumer name =>
    match s.consumers.get? consumer with
    | none => (s, .refused .noConsumer)
    | some k =>
      match s.system.readerOf k with
      | .ok r => ({ s with readers := s.readers.put name r }, .ok)
      | .error e => (s, .failed false e)
  | .dropReader name =>
    ({ s with readers := s.readers.erase name }, .flag (s.readers.contains name))
  | .read name limit => s.read name limit
  | .push n chunks => s.push n chunks .flags
  | .pushNumbers n first last =>
    let chunks := (List.range' first (last - first)).map fun i => some (Text.bigEndian16 i)
    s.push n chunks fun accepted => .count (accepted.countP id)
  | .source n e =>
    if n < s.system.connections.size then
      let (s, b) := s.deliver n e
      (s, .flag b)
    else (s, .refused .noConnection)
  | .makeStream name request config => s.makeStream name request config
  | .openStream stream name cancel =>
    s.withStream stream fun x =>
      let (s, t) := s.token? cancel
      s.launchOn ("open:" ++ name) (.openStream x t)
  | .closeStream stream name =>
    s.withStream stream fun x => s.launchOn ("close:" ++ name) (.closeStream x)
  | .streamInfo stream =>
    s.withStream stream fun x =>
      (s, .stream (s.reportStream stream x) (s.system.stream x).request)
  | .streamText stream => s.withStream stream fun x => (s, .text (s.system.stream x).describe)
  | .subscribe stream name =>
    s.withStream stream fun x =>
      match s.system.subscribe x with
      | .ok r => ({ s with receivers := s.receivers.put name r }, .ok)
      | .error e => (s, .failed false e)
  | .receive name => s.receive name
  | .dropStream stream =>
    match s.streams.get? stream with
    | some x =>
      (({ s with streams := s.streams.erase stream }.apply (.letGo x)).settle, .flag true)
    | none => (s, .flag false)
  | .authorize ctx r => s.authorize ctx r
  | .markComplete => s.atDesk ({ s.system.desk with setupComplete := true }, .flag true)
  | .block u => let (desk, news) := s.system.desk.block u; s.atDesk (desk, .flag news)
  | .unblock u => let (desk, news) := s.system.desk.unblock u; s.atDesk (desk, .flag news)
  | .upsertSession session =>
    let book := s.system.desk.book.upsert session
    s.atDesk ({ s.system.desk with book }, .count book.size)
  | .touchSession id endpoint =>
    let (book, known) := s.system.desk.book.touch id endpoint
    s.atDesk ({ s.system.desk with book }, .flag known)
  | .removeSession id =>
    let (book, removed) := s.system.desk.book.remove id
    s.atDesk ({ s.system.desk with book }, .session removed)
  | .listSessions => (s, .sessions s.system.desk.book.snapshot)
  | .authorizerText => (s, .text s.system.desk.describe)

/-- Takes note of the calls that have ended: their consumers get their names. -/
def collect (s : Scenario) : Scenario × List (String × Answer) :=
  s.tasks.pairs.foldl (fun (s, ended) (name, t) =>
    match s.answer? t with
    | none => (s, ended)
    | some answer =>
      let bound :=
        match t.consumer, (s.system.calls.get? t.call).map (·.phase) with
        | some consumer, some (.finished (.attached k)) => s.consumers.put consumer k
        | _, _ => s.consumers
      ({ s with tasks := s.tasks.erase name, consumers := bound }, ended ++ [(name, answer)]))
    (s, [])

/-- The order tuner events are reported in. -/
def sightingOrder : TunerEvent → Nat × Nat
  | .connect n _ _ => (0, n)
  | .dropped n => (1, n)
  | .shutdown n => (2, n)

def sightingLe (e f : TunerEvent) : Bool :=
  let (a, m) := sightingOrder e
  let (b, n) := sightingOrder f
  a < b || (a = b && m ≤ n)

def perform (s : Scenario) (step : Step) : Scenario × StepReport :=
  let earlier := s.tasks.keys
  let logged := s.system.journal.length
  let seen := s.system.sightings.length
  let (s, answer) := s.execute step
  let (s, ended) := s.collect
  let own := ended.find? fun e => !earlier.contains e.1
  let answer :=
    match answer, own with
    | .pending, some (_, a) => a
    | a, _ => a
  let w := s.system
  (s, {
    answer
    done := (ended.filter fun e => earlier.contains e.1).mergeSort fun a b => a.1 ≤ b.1
    sightings := (w.sightings.take (w.sightings.length - seen)).mergeSort sightingLe
    connects := w.connects
    shutdowns := w.shutdowns
    nodes := (List.range s.nodes.length).map fun b => ⟨w.streamCount b, (w.broker b).counters⟩
    journal := (w.journal.take (w.journal.length - logged)).reverse.map (·.event) })

def performAll (s : Scenario) (steps : List Step) : List StepReport :=
  (steps.foldl (fun (s, reports) step =>
    let (s, report) := s.perform step
    (s, report :: reports)) (s, [])).2.reverse

end Scenario

end TunerBroker
