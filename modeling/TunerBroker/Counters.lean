/-! Running counters of a broker: 64-bit words that wrap. -/

namespace TunerBroker

structure Counters where
  /-- Streams opened. -/
  opens : UInt64 := 0
  /-- Consumers attached to a stream already open. -/
  reuses : UInt64 := 0
  /-- Opens that failed, timed out or were cancelled. -/
  openFailures : UInt64 := 0
  /-- Streams closed, failed closes included. -/
  closes : UInt64 := 0
  /-- Closes whose shutdown failed. -/
  closeFailures : UInt64 := 0
  deriving DecidableEq

inductive Tick where
  | opened
  | reused
  | openFailed
  | closed
  | closeFailed
  deriving DecidableEq

namespace Counters

def record (c : Counters) : Tick → Counters
  | .opened => { c with opens := c.opens + 1 }
  | .reused => { c with reuses := c.reuses + 1 }
  | .openFailed => { c with openFailures := c.openFailures + 1 }
  | .closed => { c with closes := c.closes + 1 }
  | .closeFailed => { c with closeFailures := c.closeFailures + 1 }

/-- The counters before any of the ticks and after each. -/
def history (c : Counters) : List Tick → List Counters
  | [] => [c]
  | t :: ts => c :: (c.record t).history ts

/-- Streams open by the counters, none if more were closed than opened. -/
def openStreams (c : Counters) : UInt64 := if c.closes ≤ c.opens then c.opens - c.closes else 0

/-- Consumers ever attached. -/
def consumersAttached (c : Counters) : UInt64 := c.opens + c.reuses

end Counters

end TunerBroker
