import Mathlib.Data.List.Induction
import TunerBroker.Proofs.Steps.Guise
import TunerBroker.Proofs.Payload.Reading

/-! An audience. Readers are made while the system runs and ask for chunks as they please; each keeps what
it has been given. All that a reader does to the system is to write in its log, so what it hears does not
depend on the others. -/

namespace TunerBroker

/-- Readers are told apart by number. -/
abbrev ReaderId := Nat

/-- What happens in front of an audience. -/
inductive Act where
  /-- The system takes a step. -/
  | move (m : Move)
  /-- A reader is made for a consumer. -/
  | join (q : ReaderId) (k : ConsumerId)
  /-- A reader of a stream is made. -/
  | watch (q : ReaderId) (s : StreamId)
  /-- A reader asks for its next chunk. -/
  | ask (q : ReaderId)

/-- A reader and what it has been given. -/
structure Hearing where
  reader : StreamReader
  /-- Chunks sent before it was made. -/
  since : Nat
  /-- The chunks it has been given, with their numbers. -/
  heard : List (Nat × Text.Bytes) := []

/-- The system with its readers. -/
structure Audience where
  system : System
  hearing : ReaderId → Option Hearing := fun _ => none

/-- The step of the system that an act is. -/
def Act.move? : Act → Option Move
  | move m => some m
  | _ => none

/-- The steps of the system among some acts. -/
def Act.moves (acts : List Act) : List Move := acts.filterMap Act.move?

/-- An act of the system or of this reader. -/
def Act.concerns (q : ReaderId) : Act → Bool
  | move _ => true
  | join q' _ | watch q' _ | ask q' => q' = q

/-- The reader with an answer: a chunk is kept with the number that the reader has stepped over last. -/
def Hearing.take (x : Hearing) : StreamReader × ReadResult → Hearing
  | (r, .chunk data) => { x with reader := r, heard := x.heard ++ [(r.next - 1, data)] }
  | (r, _) => { x with reader := r }

namespace Audience

/-- A reader that was made is there under its number, in place of any other. -/
def seat (v : Audience) (q : ReaderId) : Except StreamError StreamReader → Audience
  | .ok r => { v with hearing := Function.update v.hearing q (some { reader := r, since := r.next }) }
  | .error _ => v

/-- The effect of an act. -/
def perform (v : Audience) : Act → Audience
  | .move m => { v with system := v.system.step m }
  | .join q k => v.seat q (v.system.readerOf k)
  | .watch q s => v.seat q (v.system.subscribe s)
  | .ask q =>
    match v.hearing q with
    | some x =>
      let (system, answer) := v.system.read x.reader
      { system, hearing := Function.update v.hearing q (some (x.take answer)) }
    | none => v

/-- The effect of acts in a row. -/
def run (v : Audience) (acts : List Act) : Audience := acts.foldl perform v

end Audience

namespace System

variable {w w' : System} {r : StreamReader} {m : Move} {s : StreamId} {history : List Text.Bytes}

/-! ### Systems that differ in their logs -/

theorem stream_of_bare (same : w.bare = w'.bare) (s : StreamId) : w.stream s = w'.stream s := by
  show w.bare.stream s = w'.bare.stream s
  rw [same]

/-- Both make the same readers. -/
theorem readers_of_bare (same : w.bare = w'.bare) :
    (∀ k, w.readerOf k = w'.readerOf k) ∧ ∀ s, w.subscribe s = w'.subscribe s := by
  refine ⟨fun k => ?_, fun s => ?_⟩
  · show w.bare.readerOf k = w'.bare.readerOf k
    rw [same]
  · show w.bare.subscribe s = w'.bare.subscribe s
    rw [same]

/-- A read makes the same of two systems that differ in their logs. -/
theorem read_of_bare (same : w.bare = w'.bare) (r : StreamReader) :
    (w.read r).2 = (w'.read r).2 := by
  have received : ∀ q : StreamReader, w.receive q = w'.receive q := fun q => by
    rw [receive, receive, stream_of_bare same]
  have caught : (w.catchUp r).2 = (w'.catchUp r).2 := by
    rw [catchUp, catchUp, received]
    cases w'.receive r <;> rfl
  have stays : ∀ v : System, ((v.catchUp r).1).stream = v.stream := by
    intro v
    rw [catchUp]
    cases v.receive r <;> rfl
  have again : ∀ v : System, (v.catchUp r).1.receive = v.receive := fun v => by
    funext q
    rw [receive, receive, stays]
  simp only [read, again, stays, caught, received, stream_of_bare same]
  cases w'.receive (w'.catchUp r).2 <;> rfl

theorem bare_read (w : System) (r : StreamReader) : (w.read r).1.bare = w.bare := by
  rcases w.read_log r with same | ⟨missed, noted⟩
  · rw [same]
  · rw [noted]
    rfl

theorem bare_step_congr (same : w.bare = w'.bare) (m : Move) : (w.step m).bare = (w'.step m).bare := by
  rw [bare_step, same, ← bare_step]

end System

namespace Audience

variable {v u : Audience} {q : ReaderId} {x : Hearing} {acts : List Act}

/-! ### The system in front of its audience -/

theorem run_concat (v : Audience) (acts : List Act) (act : Act) :
    v.run (acts ++ [act]) = (v.run acts).perform act := by
  rw [run, List.foldl_append]
  rfl

theorem system_seat (v : Audience) (q : ReaderId) (r : Except StreamError StreamReader) :
    (v.seat q r).system = v.system := by
  cases r <;> rfl

/-- Readers change nothing in the system but its log. -/
theorem bare_perform (v : Audience) (act : Act) : (v.perform act).system.bare =
    (match act.move? with | some m => v.system.step m | none => v.system).bare := by
  cases act with
  | move m => rfl
  | join q k => exact congrArg System.bare (system_seat v q _)
  | watch q s => exact congrArg System.bare (system_seat v q _)
  | ask q =>
    cases there : v.hearing q with
    | none => simp only [perform, there, Act.move?]
    | some x =>
      simp only [perform, there, Act.move?]
      exact v.system.bare_read x.reader

theorem bare_perform_congr (same : v.system.bare = u.system.bare) (act : Act) :
    (v.perform act).system.bare = (u.perform act).system.bare := by
  rw [bare_perform, bare_perform]
  cases act.move? with
  | none => exact same
  | some m => exact System.bare_step_congr same m

/-- The system runs as it does without an audience. -/
theorem bare_run (v : Audience) (acts : List Act) :
    (v.run acts).system.bare = (v.system.run (Act.moves acts)).bare := by
  induction acts using List.reverseRecOn with
  | nil => rfl
  | append_singleton acts act ih =>
    rw [run_concat, bare_perform, Act.moves, List.filterMap_append]
    cases hm : act.move? with
    | none =>
      simp only [List.filterMap_cons, hm, List.filterMap_nil, List.append_nil]
      exact ih
    | some m =>
      simp only [List.filterMap_cons, hm, List.filterMap_nil]
      rw [System.run_concat]
      exact System.bare_step_congr ih m

/-! ### One reader and the others -/

theorem hearing_seat (v : Audience) (q q' : ReaderId) (r : Except StreamError StreamReader) :
    (v.seat q r).hearing q' =
      if q' = q then (match r with
        | .ok r => some { reader := r, since := r.next }
        | .error _ => v.hearing q')
      else v.hearing q' := by
  cases r with
  | ok r => exact Function.update_apply _ _ _ _
  | error e => exact (ite_self _).symm

theorem hearing_ask (v : Audience) (q q' : ReaderId) : (v.perform (.ask q)).hearing q' =
    if q' = q then (v.hearing q').map fun x => x.take (v.system.read x.reader).2
    else v.hearing q' := by
  cases there : v.hearing q with
  | none =>
    simp only [perform, there]
    split
    · rename_i same
      rw [same, there]
      rfl
    · rfl
  | some x =>
    simp only [perform, there, Function.update_apply]
    split
    · rename_i same
      rw [same, there]
      rfl
    · rfl

/-- A reader hears of an act of its own what it would hear of it at any other system that differs in the
log, whatever the other readers have heard. -/
theorem hearing_perform_congr (same : v.system.bare = u.system.bare)
    (own : v.hearing q = u.hearing q) (act : Act) :
    (v.perform act).hearing q = (u.perform act).hearing q := by
  obtain ⟨joins, watches⟩ := System.readers_of_bare same
  cases act with
  | move m => exact own
  | join q' k =>
    simp only [perform, hearing_seat, joins, own]
  | watch q' s =>
    simp only [perform, hearing_seat, watches, own]
  | ask q' =>
    simp only [hearing_ask, own, System.read_of_bare same]

/-- The acts of other readers do not concern it. -/
theorem hearing_perform_other {act : Act} (other : act.concerns q = false) :
    (v.perform act).hearing q = v.hearing q ∧ act.move? = none := by
  cases act with
  | move m => cases other
  | join q' k =>
    have ne : q ≠ q' := by simpa [Act.concerns, eq_comm] using other
    exact ⟨by rw [perform, hearing_seat, if_neg ne], rfl⟩
  | watch q' s =>
    have ne : q ≠ q' := by simpa [Act.concerns, eq_comm] using other
    exact ⟨by rw [perform, hearing_seat, if_neg ne], rfl⟩
  | ask q' =>
    have ne : q ≠ q' := by simpa [Act.concerns, eq_comm] using other
    exact ⟨by rw [hearing_ask, if_neg ne], rfl⟩

/-- A reader hears what it would hear if there were no others. -/
theorem alone (v : Audience) (q : ReaderId) (acts : List Act) :
    (v.run (acts.filter (·.concerns q))).system.bare = (v.run acts).system.bare ∧
      (v.run (acts.filter (·.concerns q))).hearing q = (v.run acts).hearing q := by
  induction acts using List.reverseRecOn with
  | nil => exact ⟨rfl, rfl⟩
  | append_singleton acts act ih =>
    obtain ⟨same, own⟩ := ih
    rw [run_concat, List.filter_append]
    cases concerned : act.concerns q with
    | true =>
      rw [List.filter_cons_of_pos concerned, List.filter_nil, run_concat]
      exact ⟨bare_perform_congr same act, hearing_perform_congr same own act⟩
    | false =>
      obtain ⟨unheard, still⟩ := hearing_perform_other (v := v.run acts) concerned
      rw [List.filter_cons_of_neg (by simp [concerned]), List.filter_nil, List.append_nil,
        bare_perform, still, unheard]
      exact ⟨same, own⟩

end Audience

end TunerBroker
