/-! The slot of one source: the stream offered for sharing, the streams kept beside it, and the call
that is opening a new one. -/

namespace TunerBroker

/-- Streams are known by their position in the table of all streams. -/
abbrev StreamId := Nat
/-- Calls are known by their position in the table of all calls. -/
abbrev CallId := Nat

/-- What a broker lists under one key. -/
structure Slot where
  /-- The stream offered to new consumers. -/
  shared : Option StreamId := none
  /-- Streams never offered: exclusive ones, and shared ones whose source ended early. -/
  unshared : List StreamId := []
  /-- The call that is opening a stream for this key. -/
  opening : Option CallId := none
  deriving DecidableEq

namespace Slot

def streams (s : Slot) : List StreamId := s.shared.toList ++ s.unshared

def hasStreams (s : Slot) : Bool := s.shared.isSome || !s.unshared.isEmpty

/-- Nothing is listed and nothing is being opened; such a slot is not kept. -/
def isEmpty (s : Slot) : Bool := !s.hasStreams && s.opening.isNone

def isRegistered (s : Slot) (x : StreamId) : Bool := s.shared = some x || s.unshared.contains x

/-- Keeps a stream beside the shared one. -/
def keep (s : Slot) (x : StreamId) : Slot :=
  if s.unshared.contains x then s else { s with unshared := s.unshared ++ [x] }

/-- Lists a stream: on offer if it may be shared and no other is, else beside. -/
def register (s : Slot) (x : StreamId) (sharing : Bool) : Slot :=
  if sharing && s.shared.isNone then { s with shared := some x } else s.keep x

def deregister (s : Slot) (x : StreamId) : Slot :=
  if s.shared = some x then { s with shared := none }
  else { s with unshared := s.unshared.filter (· ≠ x) }

/-- Moves the shared stream off offer. -/
def demote (s : Slot) : Slot :=
  match s.shared with
  | some x => { s with shared := none }.keep x
  | none => s

def takeStreams (s : Slot) : List StreamId × Slot :=
  (s.streams, { s with shared := none, unshared := [] })

end Slot

end TunerBroker
