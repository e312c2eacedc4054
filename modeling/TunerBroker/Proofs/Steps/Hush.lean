import TunerBroker.Proofs.Steps.Frame

/-! What goes on unheard. Most of what is done to streams and connections moves no call, counts nothing
and announces nothing, and it raises no alarm in the log: what is recorded there of it is not of the
gravest level. Only the beginnings of an open and of a close can raise one, where they are refused. -/

namespace TunerBroker

/-- The event is of the gravest level. -/
def Event.isAlarm (e : Event) : Bool := e.level = .error

namespace System

/-- The counters of a broker. -/
def countersOf (w : System) (b : BrokerId) : Counters := (w.broker b).counters

/-- What a call has announced to those that wait for it. -/
def announcedBy (w : System) (c : CallId) : Option Announcement :=
  (w.calls.get? c).bind (·.announced)

/-- The alarms in the log, each by the call that has raised it, newest first. -/
def alarms (w : System) : List (Option CallId) := (w.journal.filter (·.event.isAlarm)).map (·.call)

/-- From `w` to `w'` no call moves or announces anything, and nothing is counted. -/
structure Hushed (w w' : System) : Prop where
  phaseOf : ∀ d, w'.phaseOf d = w.phaseOf d
  brokerOf : ∀ d, w'.brokerOf d = w.brokerOf d
  calls : w'.calls.size = w.calls.size
  brokers : w'.brokers.size = w.brokers.size
  counters : ∀ b, w'.countersOf b = w.countersOf b
  announced : ∀ d, w'.announcedBy d = w.announcedBy d
  fired : w.fired ⊆ w'.fired

/-- From `w` to `w'` nothing is heard, of calls or alarms. -/
structure Calm (w w' : System) : Prop extends Hushed w w' where
  alarms : w'.alarms = w.alarms

variable {w w' w'' : System} {b : BrokerId}

theorem countersOf_setSlots (b' : BrokerId) (f : Keyed SourceKey Slot → Keyed SourceKey Slot) :
    (w.setSlots b f).countersOf b' = w.countersOf b' := by
  simp only [countersOf, broker, setSlots, Table.get?_update]
  split
  · cases w.brokers.get? b' <;> rfl
  · rfl

theorem alarms_note (o : Option CallId) (e : Event) :
    (w.note o e).alarms = if e.isAlarm then o :: w.alarms else w.alarms := by
  simp only [alarms, note, List.filter_cons]
  split <;> rfl

/-! ### Small changes -/

namespace Hushed

theorem refl (w : System) : Hushed w w :=
  ⟨fun _ => rfl, fun _ => rfl, rfl, rfl, fun _ => rfl, fun _ => rfl, List.Subset.refl _⟩

theorem trans (h : Hushed w w') (g : Hushed w' w'') : Hushed w w'' where
  phaseOf d := (g.phaseOf d).trans (h.phaseOf d)
  brokerOf d := (g.brokerOf d).trans (h.brokerOf d)
  calls := g.calls.trans h.calls
  brokers := g.brokers.trans h.brokers
  counters b := (g.counters b).trans (h.counters b)
  announced d := (g.announced d).trans (h.announced d)
  fired _ ht := g.fired (h.fired ht)

variable (h : Hushed w w')

include h

theorem note (o : Option CallId) (e : Event) : Hushed w (w'.note o e) := { h with }
theorem witness (e : TunerEvent) : Hushed w (w'.witness e) := { h with }
theorem setLink (n : ConnectionId) (l : LinkState) : Hushed w (w'.setLink n l) := { h with }
theorem dropLink (n : ConnectionId) : Hushed w (w'.dropLink n) := { h with }
theorem setStream (s : StreamId) (f : Stream → Stream) : Hushed w (w'.setStream s f) := { h with }
theorem addStream (y : Stream) : Hushed w (w'.addStream y) := { h with }
theorem addConsumer (y : Consumer) : Hushed w (w'.addConsumer y) := { h with }
theorem setStanding (i : ConsumerId) (y : Standing) : Hushed w (w'.setStanding i y) := { h with }

theorem setSlots (b : BrokerId) (f : Keyed SourceKey Slot → Keyed SourceKey Slot) :
    Hushed w (w'.setSlots b f) :=
  { h with
    brokers := by rw [brokers_size_setSlots, h.brokers]
    counters := fun b' => by rw [countersOf_setSlots, h.counters] }

theorem putSlot (b : BrokerId) (k : SourceKey) (y : Slot) : Hushed w (w'.putSlot b k y) :=
  h.setSlots b _

theorem endOpen (c : CallId) (k : SourceKey) (given : Option StreamId) :
    Hushed w (w'.endOpen c k given) :=
  h.putSlot _ _ _

end Hushed

namespace Calm

theorem refl (w : System) : Calm w w := ⟨.refl w, rfl⟩

theorem trans (h : Calm w w') (g : Calm w' w'') : Calm w w'' :=
  ⟨h.toHushed.trans g.toHushed, g.alarms.trans h.alarms⟩

variable (h : Calm w w')

include h

/-- What changes is not the log. -/
theorem hush (g : Hushed w' w'') (journal : w''.journal = w'.journal) : Calm w w'' :=
  ⟨h.toHushed.trans g, by rw [System.alarms, journal]; exact h.alarms⟩

theorem note (o : Option CallId) {e : Event} (he : e.isAlarm = false) : Calm w (w'.note o e) :=
  ⟨h.toHushed.note o e, by rw [alarms_note, he]; exact h.alarms⟩

theorem setStream (s : StreamId) (f : Stream → Stream) : Calm w (w'.setStream s f) :=
  h.hush ((Hushed.refl w').setStream s f) rfl

theorem setLink (n : ConnectionId) (l : LinkState) : Calm w (w'.setLink n l) :=
  h.hush ((Hushed.refl w').setLink n l) rfl

theorem dropLink (n : ConnectionId) : Calm w (w'.dropLink n) := h.hush ((Hushed.refl w').dropLink n) rfl

theorem setStanding (i : ConsumerId) (x : Standing) : Calm w (w'.setStanding i x) :=
  h.hush ((Hushed.refl w').setStanding i x) rfl

theorem addStream (x : Stream) : Calm w (w'.addStream x) := h.hush ((Hushed.refl w').addStream x) rfl

theorem putSlot (b : BrokerId) (k : SourceKey) (x : Slot) : Calm w (w'.putSlot b k x) :=
  h.hush ((Hushed.refl w').putSlot b k x) rfl

theorem endOpen (c : CallId) (k : SourceKey) (given : Option StreamId) : Calm w (w'.endOpen c k given) :=
  h.hush ((Hushed.refl w').endOpen c k given) rfl

theorem detachPump (s : StreamId) : Calm w (w'.detachPump s) := by
  have marked := h.setStream s fun x => { x with stopping := true, detached := true }
  unfold System.detachPump
  dsimp only
  split
  · exact (marked.setStream s _).dropLink _
  · exact marked.setStream s _
  · exact marked

theorem reap (s : StreamId) : Calm w (w'.reap s) := by
  unfold System.reap
  split
  · exact h
  · split
    · exact (h.detachPump s).note none rfl
    · exact h

theorem foldl_reap (l : List StreamId) : Calm w (l.foldl System.reap w') := by
  induction l generalizing w' with
  | nil => exact h
  | cons s l ih => exact ih (h.reap s)

end Calm

theorem Hushed.reap (h : Hushed w w') (s : StreamId) : Hushed w (w'.reap s) :=
  h.trans ((Calm.refl w').reap s).toHushed

/-! ### Pumps -/

theorem calm_endPump (w : System) (s : StreamId) (n : ConnectionId) : Calm w (w.endPump s n) := by
  unfold endPump
  split
  · exact ((Calm.refl w).setStream s _).dropLink n
  · exact (Calm.refl w).setStream s _

theorem calm_turnPump (w : System) (s : StreamId) : Calm w (w.turnPump s) := by
  unfold turnPump
  split
  · split
    · exact calm_endPump w s _
    · exact .refl w
  · exact .refl w

theorem calm_deliver (w : System) (n : ConnectionId) (e : SourceEvent) : Calm w (w.deliver n e) := by
  unfold deliver
  split
  · cases e with
    | chunk data => exact (Calm.refl w).setStream _ _
    | finish | failure message => exact .trans (.note (.refl w) none rfl) (calm_endPump _ _ _)
    | fatal message => exact ((Calm.refl w).setStream _ _).dropLink n
  · exact .refl w

/-! ### Opening -/

theorem calm_ask (w : System) (s : StreamId) : Calm w (w.ask s) := by
  have asked : Hushed w (w.ask s) := by
    unfold ask
    refine Hushed.setStream (Hushed.witness ?_ _) s _
    exact { Hushed.refl w with }
  exact (Calm.refl w).hush asked rfl

theorem hushed_startOpen (w : System) (c : CallId) (s : StreamId) (token : Option Token) :
    Hushed w (w.startOpen c s token).1 := by
  unfold startOpen
  dsimp only
  split
  · exact (Hushed.refl w).note _ _
  · split
    · exact .refl w
    · exact (calm_ask w s).toHushed

theorem calm_finishOpen (w : System) (c : CallId) (s : StreamId) (a : Dial) :
    Calm w (w.finishOpen c s a).1 := by
  have lost : ∀ l, Calm w (w.unconnected s a.connection l) := fun l =>
    ((Calm.refl w).setLink _ l).setStream s _
  unfold finishOpen
  dsimp only
  split
  · exact lost _
  · split
    · split
      · exact lost _
      · exact (((Calm.refl w).setLink _ _).setStream s _).note c rfl
    · exact lost _

/-! ### Closing -/

theorem hushed_startClose (w : System) (c : CallId) (s : StreamId) :
    Hushed w (w.startClose c s).1 := by
  unfold startClose
  dsimp only
  split
  · exact (Hushed.refl w).setStream s _
  · exact (Hushed.refl w).setStream s _
  · exact (Hushed.refl w).note _ _

theorem calm_closed (w : System) (c : CallId) (s : StreamId) (fault : Option ShutdownFault) :
    Calm w (w.closed c s fault).1 := by
  have shut : Calm w (w.setStream s fun x => { x with lifecycle := .closed }) :=
    (Calm.refl w).setStream s _
  cases fault with
  | none => exact shut.note c rfl
  | some f => exact shut.note c rfl

theorem calm_advanceClose (w : System) (c : CallId) (s : StreamId) (stage : CloseStage) :
    Calm w (w.advanceClose c s stage).1 := by
  cases stage with
  | joining =>
    simp only [advanceClose]
    split
    · exact (((Calm.refl w).setStream s _).setLink _ _).hush ((Hushed.refl _).witness _) rfl
    · exact calm_closed w c s _
    · exact .refl w
  | shutting due =>
    simp only [advanceClose]
    split
    · exact ((Calm.refl w).setLink _ _).trans (calm_closed _ c s _)
    · exact .refl w

theorem hushed_turnClose (w : System) (c : CallId) (s : StreamId) (stage : Option CloseStage) :
    Hushed w (w.turnClose c s stage).1 := by
  cases stage with
  | none => exact hushed_startClose w c s
  | some stage => exact (calm_advanceClose w c s stage).toHushed

theorem calm_abandonClose (w : System) (s : StreamId) (stage : CloseStage) :
    Calm w (w.abandonClose s stage) := by
  cases stage with
  | joining => exact (Calm.refl w).detachPump s
  | shutting due => exact .refl w

theorem calm_abandonWait (w : System) (s : StreamId) (wait : OpenWait) :
    Calm w (w.abandonWait s wait) := by
  cases wait with
  | dialing d => exact (Calm.refl w).setLink _ _
  | closing stage => exact calm_abandonClose w s stage
  | nowhere | outside | pausing | ending => exact .refl w

end System

end TunerBroker
