import TunerBroker.System.Acquire
import TunerBroker.System.Release

/-! Abandoning a call where it waits. What it held is let go of: a connection attempt is forsaken, a
close stays where it is, and streams that nothing else keeps alive are destroyed. An open that is
abandoned clears its mark, so that the calls waiting for it go back to the slot. -/

namespace TunerBroker

namespace System

def abandonWait (w : System) (s : StreamId) : OpenWait → System
  | .dialing d => w.setLink d.connection .forsaken
  | .closing stage => w.abandonClose s stage
  | _ => w

/-- Abandons a call that waits; any other goes on. -/
def abandon (w : System) (c : CallId) : System :=
  if !(w.phaseOf c).isSuspended then w
  else
    match w.phaseOf c with
    | .opening a s _ wait =>
      let w := (w.abandonWait s wait).setPhase c .abandoned
      ((w.endOpen c a.key none).reap s).note c (.openAbandoned a.key)
    | .rejecting s (some stage) _ | .tearing s (some stage) | .closing s stage =>
      ((w.abandonClose s stage).setPhase c .abandoned).reap s
    | .sweeping (some (s, stage)) rest _ =>
      rest.foldl reap (((w.abandonClose s stage).setPhase c .abandoned).reap s)
    | .dialing s d => ((w.setLink d.connection .forsaken).setPhase c .abandoned).reap s
    | _ => w.setPhase c .abandoned

end System

end TunerBroker
