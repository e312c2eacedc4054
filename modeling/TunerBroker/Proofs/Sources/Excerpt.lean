import TunerBroker.Proofs.Steps.View
import Mathlib.Data.Nat.Count

/-! Excerpts. An excerpt of a system shows some of its calls, streams, connections and consumers, and the
slots of some sources. What it shows is numbered anew, in the order it had. -/

namespace TunerBroker

/-- A key on a broker: what one slot is for. -/
abbrev Source := BrokerId × SourceKey

/-- The entries of a table that are shown, and the numbers they are shown under. -/
structure Pick where
  shows : Nat → Bool
  number : Nat → Nat
  mono : Monotone number
  succ : ∀ i, shows i → number (i + 1) = number i + 1

namespace Pick

instance : Membership Nat Pick := ⟨fun p i => p.shows i⟩

instance : CoeFun Pick fun _ => Nat → Nat := ⟨number⟩

/-- What is shown is counted. -/
def rank (shows : Nat → Bool) : Pick where
  shows
  number i := Nat.count (fun j => shows j) i
  mono := Nat.count_monotone _
  succ i hi := by rw [Nat.count_succ, if_pos hi]

theorem rank_zero (shows : Nat → Bool) : rank shows 0 = 0 := Nat.count_zero fun j => shows j

variable {p : Pick} {i j : Nat}

theorem lt (hi : i ∈ p) (h : i < j) : p i < p j := by
  have next := p.succ i hi
  have := p.mono (Nat.succ_le_of_lt h)
  simp only [Nat.succ_eq_add_one, next] at this
  exact this

/-- What is shown keeps apart. -/
theorem inj (hi : i ∈ p) (hj : j ∈ p) : p i = p j ↔ i = j := by
  refine ⟨fun h => ?_, congrArg p⟩
  rcases Nat.lt_trichotomy i j with hij | hij | hij
  · exact absurd h (Nat.ne_of_lt (p.lt hi hij))
  · exact hij
  · exact absurd h.symm (Nat.ne_of_lt (p.lt hj hij))

theorem lt_iff (hi : i ∈ p) : p i < p j ↔ i < j :=
  ⟨fun h => Nat.lt_of_not_le fun hji => Nat.not_le.2 h (p.mono hji), p.lt hi⟩

end Pick

/-- What an excerpt shows. -/
structure Excerpt where
  sources : Source → Bool
  calls : Pick
  streams : Pick
  connections : Pick
  consumers : Pick

namespace Excerpt

variable (E : Excerpt)

instance : Membership Source Excerpt := ⟨fun E x => E.sources x⟩

/-! ### What is shown, by its new numbers -/

def pump : Pump → Pump
  | .idle => .idle
  | .reading n => .reading (E.connections n)
  | .stopped n => .stopped (E.connections n)
  | .crashed n message => .crashed (E.connections n) message
  | .collected n => .collected (E.connections n)

def stream (x : Stream) : Stream := { x with pump := E.pump x.pump }

def slot (x : Slot) : Slot where
  shared := x.shared.map E.streams
  unshared := x.unshared.map E.streams
  opening := x.opening.map E.calls

def consumer (x : Consumer) : Consumer := { x with stream := E.streams x.stream }

def fault : ShutdownFault → ShutdownFault
  | .transport message => .transport message
  | .readerDied n message => .readerDied (E.connections n) message

def error : StreamError → StreamError
  | .shutdown k f => .shutdown k (E.fault f)
  | e => e

def result {α : Type} : Except StreamError α → Except StreamError α
  | .ok x => .ok x
  | .error e => .error (E.error e)

def outcome : Outcome → Outcome
  | .attached i => .attached (E.consumers i)
  | .failed e => .failed (E.error e)
  | o => o

def announcement : Announcement → Announcement
  | .opened => .opened
  | .failed e => .failed (E.error e)

def openMove : OpenMove → OpenMove
  | .fail e => .fail (E.error e)
  | m => m

def wish (a : Acquisition) : Acquisition :=
  { a with plan := { a.plan with moves := a.plan.moves.map E.openMove } }

def dial (d : Dial) : Dial := { d with connection := E.connections d.connection }

def wait : OpenWait → OpenWait
  | .dialing d => .dialing (E.dial d)
  | x => x

def phase : Phase → Phase
  | .admission ctx a => .admission ctx (E.wish a)
  | .seeking a => .seeking (E.wish a)
  | .waiting a o => .waiting (E.wish a) (E.calls o)
  | .opening a s moves x => .opening (E.wish a) (E.streams s) (moves.map E.openMove) (E.wait x)
  | .rejecting s stage e => .rejecting (E.streams s) stage (E.error e)
  | .releasing i => .releasing (E.consumers i)
  | .tearing s stage => .tearing (E.streams s) stage
  | .sweepStart => .sweepStart
  | .sweeping current rest n =>
    .sweeping (current.map fun x => (E.streams x.1, x.2)) (rest.map E.streams) n
  | .dialStart s token => .dialStart (E.streams s) token
  | .dialing s d => .dialing (E.streams s) (E.dial d)
  | .closeStart s => .closeStart (E.streams s)
  | .closing s stage => .closing (E.streams s) stage
  | .finished o => .finished (E.outcome o)
  | .abandoned => .abandoned

def closeStep : CloseStep → CloseStep
  | .stage stage => .stage stage
  | .finished result => .finished (E.result result)

def openStep : OpenStep → OpenStep
  | .dialing d => .dialing (E.dial d)
  | .finished result => .finished (E.result result)

def reader (r : StreamReader) : StreamReader := { r with stream := E.streams r.stream }

/-! ### Numbers do not show in the rest -/

section

variable {E} (x : Stream) (p : Phase) (a : Acquisition) (e : StreamError)

@[simp] theorem lifecycle_stream : (E.stream x).lifecycle = x.lifecycle := rfl
@[simp] theorem request_stream : (E.stream x).request = x.request := rfl
@[simp] theorem consumers_stream : (E.stream x).consumers = x.consumers := rfl
@[simp] theorem sharing_stream : (E.stream x).sharing = x.sharing := rfl
@[simp] theorem stopping_stream : (E.stream x).stopping = x.stopping := rfl
@[simp] theorem detached_stream : (E.stream x).detached = x.detached := rfl
@[simp] theorem named_stream : (E.stream x).named = x.named := rfl
@[simp] theorem feed_stream : (E.stream x).feed = x.feed := rfl
@[simp] theorem buffer_stream : (E.stream x).buffer = x.buffer := rfl
@[simp] theorem openTimeout_stream : (E.stream x).openTimeout = x.openTimeout := rfl
@[simp] theorem pump_stream : (E.stream x).pump = E.pump x.pump := rfl
@[simp] theorem key_stream : (E.stream x).key = x.key := rfl
@[simp] theorem isConnected_stream : (E.stream x).isConnected = x.isConnected := rfl
@[simp] theorem state_stream : (E.stream x).state = x.state := rfl
@[simp] theorem isLive_stream : (E.stream x).isLive = x.isLive := rfl

@[simp] theorem isReading_pump (y : Pump) : (E.pump y).isReading = y.isReading := by cases y <;> rfl

@[simp] theorem connection?_pump (y : Pump) :
    (E.pump y).connection? = y.connection?.map E.connections := by
  cases y <;> rfl

@[simp] theorem isShut_stream : (E.stream x).isShut = x.isShut := by
  simp [Stream.isShut]

/-- A stream without a connection has no number to change. -/
theorem stream_of_idle {x : Stream} (idle : x.pump = .idle) : E.stream x = x := by
  obtain ⟨⟩ := x
  simp only at idle
  rw [stream, idle]
  rfl

@[simp] theorem key_wish : (E.wish a).key = a.key := rfl
@[simp] theorem media_wish : (E.wish a).media = a.media := rfl
@[simp] theorem cancel_wish : (E.wish a).cancel = a.cancel := rfl
@[simp] theorem request_wish : (E.wish a).plan.request = a.plan.request := rfl
@[simp] theorem config_wish : (E.wish a).plan.config = a.plan.config := rfl
@[simp] theorem outside_wish : (E.wish a).plan.outside = a.plan.outside := rfl
@[simp] theorem moves_wish : (E.wish a).plan.moves = a.plan.moves.map E.openMove := rfl

@[simp] theorem isViolation_error : (E.error e).isViolation = e.isViolation := by cases e <;> rfl

@[simp] theorem isOpening_phase : (E.phase p).isOpening = p.isOpening := by cases p <;> rfl

@[simp] theorem isSuspended_phase : (E.phase p).isSuspended = p.isSuspended := by
  cases p with
  | opening a s moves x => cases x <;> rfl
  | sweeping current rest n => cases current <;> rfl
  | _ => rfl

@[simp] theorem holds_phase : (E.phase p).holds = p.holds.map E.streams := by
  cases p with
  | sweeping current rest n => cases current <;> simp [phase, Phase.holds]
  | _ => rfl

end

/-! ### Slots -/

/-- All that the slot lists and marks is shown. -/
structure Covers (x : Slot) : Prop where
  streams : ∀ s ∈ x.streams, s ∈ E.streams
  opening : ∀ c, x.opening = some c → c ∈ E.calls

section

variable {E} {x : Slot} {s : StreamId} {c : CallId}

@[simp] theorem slot_empty : E.slot {} = {} := rfl

theorem covers_empty : E.Covers {} := ⟨by rintro s ⟨⟩, by rintro c ⟨⟩⟩

@[simp] theorem shared_slot : (E.slot x).shared = x.shared.map E.streams := rfl
@[simp] theorem unshared_slot : (E.slot x).unshared = x.unshared.map E.streams := rfl
@[simp] theorem opening_slot : (E.slot x).opening = x.opening.map E.calls := rfl

@[simp] theorem streams_slot : (E.slot x).streams = x.streams.map E.streams := by
  cases hx : x.shared <;> simp [Slot.streams, hx]

theorem Covers.shared (h : E.Covers x) (hs : x.shared = some s) : s ∈ E.streams :=
  h.streams s ((Slot.mem_streams x s).2 (.inl hs))

theorem Covers.unshared (h : E.Covers x) (hs : s ∈ x.unshared) : s ∈ E.streams :=
  h.streams s ((Slot.mem_streams x s).2 (.inr hs))

/-- A stream is looked up in a list of streams by its new number. -/
theorem contains_streams {l : List StreamId} (hl : ∀ t ∈ l, t ∈ E.streams) (hs : s ∈ E.streams) :
    (l.map E.streams).contains (E.streams s) = l.contains s := by
  rw [Bool.eq_iff_iff]
  simp only [List.contains_iff_mem, List.mem_map]
  constructor
  · rintro ⟨t, ht, same⟩
    rwa [← (Pick.inj (hl t ht) hs).1 same]
  · exact fun h => ⟨s, h, rfl⟩

variable (h : E.Covers x)

include h

theorem shared_slot_iff (hs : s ∈ E.streams) :
    (E.slot x).shared = some (E.streams s) ↔ x.shared = some s := by
  simp only [shared_slot, Option.map_eq_some_iff]
  constructor
  · rintro ⟨t, ht, same⟩
    rw [ht, (Pick.inj (h.shared ht) hs).1 same]
  · exact fun hx => ⟨s, hx, rfl⟩

theorem opening_slot_iff (hc : c ∈ E.calls) :
    (E.slot x).opening = some (E.calls c) ↔ x.opening = some c := by
  simp only [opening_slot, Option.map_eq_some_iff]
  constructor
  · rintro ⟨d, hd, same⟩
    rw [hd, (Pick.inj (h.opening d hd) hc).1 same]
  · exact fun hx => ⟨c, hx, rfl⟩

theorem contains_unshared (hs : s ∈ E.streams) :
    (E.slot x).unshared.contains (E.streams s) = x.unshared.contains s :=
  contains_streams (fun _ => h.unshared) hs

theorem isRegistered_slot (hs : s ∈ E.streams) :
    (E.slot x).isRegistered (E.streams s) = x.isRegistered s := by
  simp only [Slot.isRegistered, contains_unshared h hs, shared_slot_iff h hs]

theorem slot_keep (hs : s ∈ E.streams) : E.slot (x.keep s) = (E.slot x).keep (E.streams s) := by
  simp only [Slot.keep, contains_unshared h hs]
  split <;> simp [slot]

theorem slot_register (hs : s ∈ E.streams) (sharing : Bool) :
    E.slot (x.register s sharing) = (E.slot x).register (E.streams s) sharing := by
  simp only [Slot.register, shared_slot, Option.isNone_map]
  split
  · rfl
  · exact slot_keep h hs

theorem slot_deregister (hs : s ∈ E.streams) :
    E.slot (x.deregister s) = (E.slot x).deregister (E.streams s) := by
  simp only [Slot.deregister, shared_slot_iff h hs]
  split
  · rfl
  · simp only [slot, Slot.mk.injEq, true_and, and_true, List.filter_map]
    congr 1
    refine List.filter_congr fun t ht => ?_
    simp [Pick.inj (h.unshared ht) hs]

theorem slot_demote : E.slot x.demote = (E.slot x).demote := by
  simp only [Slot.demote, shared_slot]
  cases hx : x.shared with
  | none => rfl
  | some s =>
    have covers : E.Covers { x with shared := none } :=
      ⟨fun t ht => h.unshared (by simpa [Slot.streams] using ht), h.opening⟩
    exact slot_keep covers (h.shared hx)

/-- The mark of a call that is shown. -/
theorem slot_unmark (hc : c ∈ E.calls) :
    E.slot (if x.opening = some c then { x with opening := none } else x) =
      if (E.slot x).opening = some (E.calls c) then { E.slot x with opening := none } else E.slot x := by
  simp only [opening_slot_iff h hc]
  split <;> rfl

theorem covers_register (hs : s ∈ E.streams) (sharing : Bool) : E.Covers (x.register s sharing) where
  streams t ht := by
    rcases (Slot.mem_streams_register x s t sharing).1 ht with ht | rfl
    · exact h.streams t ht
    · exact hs
  opening c hc := h.opening c (by rwa [Slot.opening_register] at hc)

theorem covers_deregister (s : StreamId) : E.Covers (x.deregister s) where
  streams t ht := h.streams t (Slot.mem_of_mem_deregister x s t ht)
  opening c hc := h.opening c (by rwa [Slot.opening_deregister] at hc)

theorem covers_demote : E.Covers x.demote where
  streams t ht := h.streams t ((Slot.mem_streams_demote x t).1 ht)
  opening c hc := h.opening c (by rwa [Slot.opening_demote] at hc)

theorem covers_mark (hc : c ∈ E.calls) : E.Covers { x with opening := some c } where
  streams := h.streams
  opening d hd := by rwa [← Option.some.inj hd]

theorem covers_unmark (c : CallId) :
    E.Covers (if x.opening = some c then { x with opening := none } else x) := by
  split
  · exact ⟨h.streams, by rintro d ⟨⟩⟩
  · exact h

end

end Excerpt

end TunerBroker
