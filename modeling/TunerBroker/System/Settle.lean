import TunerBroker.System.Step

/-! Running the system until it settles. Runners that are ready stand in a queue; the first keeps
its turn until it has to wait, and those it wakes line up behind. Time passes only in between, from one
due moment to the next. -/

namespace TunerBroker

/-- The moments at which a close stage ends by itself. -/
def CloseStage.due : CloseStage → List Nat
  | joining => []
  | shutting due => [due]

def Phase.due : Phase → List Nat
  | opening _ _ _ (.pausing due) => [due]
  | opening _ _ _ (.dialing d) | dialing _ d => [d.answer, d.deadline]
  | opening _ _ _ (.closing stage) | rejecting _ (some stage) _ | tearing _ (some stage)
  | sweeping (some (_, stage)) _ _ | closing _ stage => stage.due
  | _ => []

def Phase.movesLeft : Phase → Nat
  | opening _ _ moves _ => moves.length
  | seeking a | waiting a _ | admission _ a => a.plan.moves.length
  | _ => 0

namespace System

/-- The runners that can take a turn, calls before pumps. -/
def awake (w : System) : List Runner :=
  (w.calls.indexed.filterMap fun (call, c) =>
      if w.phaseReady call.phase then some (Runner.call c) else none)
    ++ w.streams.indexed.filterMap fun (x, s) =>
      if x.pump.isReading && x.stopping then some (Runner.pump s) else none

/-- Nobody can go on unless time passes or something happens from outside. -/
def isSettled (w : System) : Bool := w.awake.isEmpty

/-- Takes turns off the queue, at most `fuel` of them. -/
def takeTurns : Nat → List Runner → System → System
  | 0, _, w => w
  | _, [], w => w
  | fuel + 1, r :: queue, w =>
    let w := w.step (.turn r)
    let woken := w.awake
    let queue := queue ++ woken.filter fun x => x ≠ r && !queue.contains x
    takeTurns fuel (if woken.contains r then r :: queue else queue) w

/-- More turns than are needed until nobody is ready: each call moves through a bounded number of
places, and back to the slot at most once for each other call. -/
def turnsNeeded (w : System) : Nat :=
  let pending := (w.calls.entries.filter fun c => !c.phase.isOver).length
  let moves := (w.calls.entries.map fun c => c.phase.movesLeft).foldl (· + ·) 0
  (pending + 1) * (16 * (pending + w.streams.size + 1) + 4 * moves)

/-- Lets everybody go on who can without time passing. -/
def settle (w : System) : System :=
  let queue := w.awake
  if queue.isEmpty then w else takeTurns w.turnsNeeded queue w

/-- The next moment after now at which a wait ends by itself. -/
def nextDue (w : System) : Option Nat :=
  ((w.calls.entries.flatMap fun c => c.phase.due).filter (w.clock < ·)).min?

/-- Visits the due moments up to `last` in order, at most `fuel` of them, and settles at each. -/
def visitDue : Nat → Nat → System → System
  | 0, _, w => w
  | fuel + 1, last, w =>
    match w.nextDue with
    | some t =>
      if t ≤ last then visitDue fuel last (w.step (.elapse (t - w.clock))).settle else w
    | none => w

/-- More moments than can fall due: every call pending waits for a bounded number of them. -/
def momentsNeeded (w : System) : Nat :=
  let pending := (w.calls.entries.filter fun c => !c.phase.isOver).length
  let moves := (w.calls.entries.map fun c => c.phase.movesLeft).foldl (· + ·) 0
  4 * (pending + moves + w.streams.size + 1)

def advance (w : System) (ms : Nat) : System :=
  let last := w.clock + ms
  let w := visitDue w.momentsNeeded last w
  (w.step (.elapse (last - w.clock))).settle

end System

end TunerBroker
