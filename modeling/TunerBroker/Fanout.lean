/-! Fan-out of chunks to any number of readers through a ring. Chunks are numbered from zero in the
order they are sent; the ring keeps the last `size` of them, and a reader is a number. -/

namespace TunerBroker

/-- The least power of two that is not below `n`. -/
def powerAbove (n : Nat) : Nat := if n ≤ 1 then 1 else 1 <<< ((n - 1).log2 + 1)

/-- A ring of the last chunks sent. -/
structure Fanout (α : Type) where
  size : Nat
  ring : Array α := #[]
  /-- Chunks sent so far. -/
  sent : Nat := 0

/-- What a reader at some number is given. -/
inductive Received (α : Type) where
  /-- The chunk of that number. -/
  | chunk (a : α)
  /-- So many chunks are gone from the ring. -/
  | lagged (missed : Nat)
  /-- No chunk of that number has been sent yet. -/
  | nothing

namespace Fanout

variable {α : Type}

/-- A ring for at least `capacity` chunks and at least one, rounded up to a power of two. -/
def ofCapacity (capacity : Nat) : Fanout α := { size := powerAbove capacity }

/-- The number of the oldest chunk still kept. -/
def oldest (f : Fanout α) : Nat := f.sent - f.size

/-- Sends a chunk; once the ring is full it takes the place of the oldest. -/
def push (f : Fanout α) (a : α) : Fanout α :=
  { f with
    ring := if f.ring.size < f.size then f.ring.push a else f.ring.setIfInBounds (f.sent % f.size) a
    sent := f.sent + 1 }

/-- The chunk of a number, if it has been sent and is still kept. -/
def get? (f : Fanout α) (n : Nat) : Option α :=
  if n < f.sent ∧ f.oldest ≤ n then f.ring[n % f.size]? else none

/-- What a reader whose next chunk has number `n` is given. -/
def receive (f : Fanout α) (n : Nat) : Received α :=
  if n < f.oldest then .lagged (f.oldest - n)
  else
    match f.get? n with
    | some a => .chunk a
    | none => .nothing

end Fanout

end TunerBroker
