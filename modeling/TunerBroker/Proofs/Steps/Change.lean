import TunerBroker.Proofs.Steps.Work

/-! The changes of the books. The books say where each call has come to, which streams each slot
lists, who is attached and how streams are counted and named. A step changes them in one of a few
ways, and the work on streams that goes with it is one of a few kinds. -/

namespace TunerBroker

namespace Phase

/-- The streams a call has to itself: nobody else works on them. -/
def owns : Phase → List StreamId
  | opening _ s _ _ | rejecting s _ _ | tearing s _ => [s]
  | sweeping current rest _ => (current.map (·.1)).toList ++ rest
  | _ => []

/-- The streams a call works on under a name, as others may. -/
def borrows : Phase → List StreamId
  | dialStart s _ | dialing s _ | closeStart s | closing s _ => [s]
  | _ => []

/-- What a call that is not over wants. -/
def wish? : Phase → Option Acquisition
  | admission _ a | seeking a | waiting a _ | opening a _ _ _ => some a
  | _ => none

/-- What a call that is opening a stream wants. -/
def opens? : Phase → Option Acquisition
  | opening a _ _ _ => some a
  | _ => none

/-- The stream a call is opening. -/
def opening? : Phase → Option StreamId
  | opening _ s _ _ => some s
  | _ => none

/-- The consumer a call is about to detach. -/
def releases? : Phase → Option ConsumerId
  | releasing k => some k
  | _ => none

/-- The consumer a call has attached. -/
def attached? : Phase → Option ConsumerId
  | finished (.attached k) => some k
  | _ => none

/-- The call has still to look at a slot of its broker. -/
def isSeated : Phase → Bool
  | admission _ _ | seeking _ | waiting _ _ | opening _ _ _ _ | releasing _ | sweepStart => true
  | _ => false

/-- An open waits for work of its own. -/
def isOutside : Phase → Bool
  | opening _ _ _ .outside => true
  | _ => false

theorem mem_holds (p : Phase) (s : StreamId) : s ∈ p.holds ↔ s ∈ p.owns ∨ s ∈ p.borrows := by
  cases p <;> simp [holds, owns, borrows]

/-- A call on a stream by itself neither opens for a slot nor attaches or releases. -/
theorem borrower {p : Phase} {s : StreamId} (h : s ∈ p.borrows) :
    p.opens? = none ∧ p.attached? = none ∧ p.releases? = none := by
  cases p <;> first | exact ⟨rfl, rfl, rfl⟩ | simp [borrows] at h

theorem opens?_isSome (p : Phase) : p.opens?.isSome = p.isOpening := by cases p <;> rfl

/-- A call may go on from `p` to `q` by itself: it keeps an open of its own and takes on nothing
new. -/
structure Leads (p q : Phase) : Prop where
  owns : q.owns.Sublist p.owns
  borrows : q.borrows ⊆ p.borrows
  opens : q.opens? = p.opens?
  wish : q.wish? = none ∨ q.wish? = p.wish?
  seated : q.isSeated → p.isSeated
  releases : p.releases? = none ∧ q.releases? = none
  attached : p.attached? = none ∧ q.attached? = none
  outside : q.isOutside = false

theorem Leads.holds {p q : Phase} {s : StreamId} (h : Leads p q) (hs : s ∈ q.holds) :
    s ∈ p.holds := by
  rw [mem_holds] at hs ⊢
  exact hs.imp (fun hs => h.owns.subset hs) fun hs => h.borrows hs

/-- A call that goes on keeps the stream it is opening. -/
theorem Leads.opening {p q : Phase} (h : Leads p q) : q.opening? = p.opening? := by
  have ho := h.opens
  have hs := h.owns
  cases p <;> cases q <;> simp_all [opens?, opening?, Phase.owns]

/-- A call that neither opens nor releases may come to an end where it attaches nothing. -/
theorem Leads.finish {p q : Phase} (ho : p.opens? = none) (ha : p.attached? = none)
    (hr : p.releases? = none) (hq : q.isOver) (hq' : q.attached? = none) : Leads p q := by
  cases q with
  | finished o =>
    exact ⟨List.nil_sublist _, List.nil_subset _, ho.symm, .inl rfl, by rintro ⟨⟩, ⟨hr, rfl⟩, ⟨ha, hq'⟩, rfl⟩
  | abandoned =>
    exact ⟨List.nil_sublist _, List.nil_subset _, ho.symm, .inl rfl, by rintro ⟨⟩, ⟨hr, rfl⟩, ⟨ha, hq'⟩, rfl⟩
  | _ => simp [isOver] at hq

/-- An open may end in `q` without giving its stream `s` to the slot. -/
inductive Exit (s : StreamId) : Phase → Prop where
  | failed (e : StreamError) : Exit s (finished (.failed e))
  | rejecting (e : StreamError) : Exit s (rejecting s none e)
  | abandoned : Exit s abandoned

theorem Exit.free {p : Phase} {s : StreamId} (h : p.Exit s) : p.job? = none := by cases h <;> rfl

theorem Exit.holds {p : Phase} {s t : StreamId} (h : p.Exit s) (ht : t ∈ p.holds) : t = s := by
  cases h <;> simp_all [Phase.holds]

end Phase

/-- The call that a move is of. -/
def Move.actor : Move → Option CallId
  | turn (.call c) | abandon c | provide c _ => some c
  | _ => none

namespace System

/-- A change of the books made by the move `m`. -/
inductive Change (m : Move) (w : System) : System → Prop where
  | stay : Change m w w
  /-- A call begins. -/
  | begin {b : BrokerId} {gated : Bool} {errand : Errand} (allowed : errand.isAllowed w b)
      (start : m = .start b gated errand) : Change m w (w.begin b gated errand)
  /-- A stream is made under a name. -/
  | make {r : StreamRequest} {config : BrokerConfig} (move : m = .make r config) :
      Change m w (w.addStream { Stream.ofRequest r config with named := true })
  /-- A stream loses its name. -/
  | letGo {s : StreamId} : Change m w (w.setStream s fun x => { x with named := false })
  /-- A consumer is given up. -/
  | drop {k : ConsumerId} {x : Consumer} (there : w.consumers.get? k = some x)
      (held : x.standing = .held) (move : m = .dropConsumer k) :
      Change m w (w.setStanding k .dropped)
  /-- A call goes on by itself, without a job before or after. -/
  | go {c : CallId} {p : Phase} (actor : m.actor = some c) (leads : (w.phaseOf c).Leads p)
      (idle : (w.phaseOf c).job? = none) (free : p.job? = none) : Change m w (w.setPhase c p)
  /-- A call works on a stream it keeps alive, and goes on with the job that is left. -/
  | work {w₁ : System} {c : CallId} {s : StreamId} {p : Phase} {i j : Option Job}
      (actor : m.actor = some c) (work : Work m s i j w w₁) (held : s ∈ (w.phaseOf c).holds)
      (leads : (w.phaseOf c).Leads p) (before : (w.phaseOf c).job? = i.map (s, ·))
      (after : p.job? = j.map (s, ·)) : Change m w (w₁.setPhase c p)
  /-- An open is handed a free stream from elsewhere. -/
  | provide {c : CallId} {a : Acquisition} {s t : StreamId} {moves : List OpenMove}
      (place : w.phaseOf c = .opening a s moves .outside) (free : w.isFree t)
      (actor : m.actor = some c) :
      Change m w ((w.setStream t fun x => { x with named := false }).setPhase c
        (.opening a t moves .nowhere))
  /-- An ended stream gives up its place to a new open. -/
  | demote {c : CallId} {a : Acquisition} {s : StreamId} (place : w.phaseOf c = .seeking a)
      (shared : (w.slot (w.brokerOf c) a.key).shared = some s) (ended : (w.stream s).isLive = false)
      (vacant : (w.slot (w.brokerOf c) a.key).opening.filter w.inFlight = none)
      (actor : m.actor = some c) :
      Change m w (w.beginOpen c a (w.slot (w.brokerOf c) a.key).demote)
  /-- An ended stream gives up its place while another call opens. -/
  | demoteJoin {c o : CallId} {a : Acquisition} {s : StreamId} (place : w.phaseOf c = .seeking a)
      (shared : (w.slot (w.brokerOf c) a.key).shared = some s) (ended : (w.stream s).isLive = false)
      (taken : (w.slot (w.brokerOf c) a.key).opening.filter w.inFlight = some o)
      (actor : m.actor = some c) :
      Change m w ((w.putSlot (w.brokerOf c) a.key (w.slot (w.brokerOf c) a.key).demote).setPhase c
        (.waiting a o))
  /-- An open begins where nothing is on offer. -/
  | open {c : CallId} {a : Acquisition} (place : w.phaseOf c = .seeking a)
      (shared : (w.slot (w.brokerOf c) a.key).shared = none)
      (vacant : (w.slot (w.brokerOf c) a.key).opening.filter w.inFlight = none)
      (actor : m.actor = some c) :
      Change m w (w.beginOpen c a (w.slot (w.brokerOf c) a.key))
  /-- The shared stream is given to one more consumer. -/
  | reuse {c : CallId} {a : Acquisition} {s : StreamId} (place : w.phaseOf c = .seeking a)
      (shared : (w.slot (w.brokerOf c) a.key).shared = some s)
      (counted : (w.stream s).consumers ≠ 0) (live : (w.stream s).isLive)
      (media : ∀ x ∈ a.media, (w.stream s).request.media = x) (actor : m.actor = some c) :
      Change m w ((w.setStream s fun x => { x with consumers := x.consumers + 1 }).attach c s)
  /-- An open gives its stream, which is listed with its first consumer. -/
  | register {w₁ : System} {c : CallId} {a : Acquisition} {s : StreamId} {moves : List OpenMove}
      {wait : OpenWait} (actor : m.actor = some c) (place : w.phaseOf c = .opening a s moves wait)
      (work : Work m s wait.job? none w w₁) (key : (w₁.stream s).key = a.key)
      (connected : (w₁.stream s).lifecycle = .connected) (inside : wait ≠ .outside) :
      Change m w (((w₁.setStream s fun x => { x with consumers := x.consumers + 1 }).endOpen c a.key
        (some s)).attach c s)
  /-- An open ends without a stream for the slot. -/
  | giveUp {w₁ : System} {c : CallId} {a : Acquisition} {s : StreamId} {moves : List OpenMove}
      {wait : OpenWait} {p : Phase} (actor : m.actor = some c)
      (place : w.phaseOf c = .opening a s moves wait) (work : Work m s wait.job? none w w₁)
      (exit : p.Exit s) : Change m w ((w₁.setPhase c p).endOpen c a.key none)
  /-- A release finds no such consumer. -/
  | miss {c : CallId} {k : ConsumerId} {e : StreamError} (place : w.phaseOf c = .releasing k)
      (missing : w.consumers.get? k = none) (actor : m.actor = some c) :
      Change m w (w.finish c (.failed e))
  /-- A release is refused. -/
  | refuse {c : CallId} {k : ConsumerId} {x : Consumer} {e : StreamError}
      (place : w.phaseOf c = .releasing k) (there : w.consumers.get? k = some x)
      (unfit : w.isHeld x.stream → (w.slot (w.brokerOf c) x.key).isRegistered x.stream →
        (w.stream x.stream).consumers = 0) (actor : m.actor = some c) :
      Change m w ((w.setStanding k .refused).finish c (.failed e))
  /-- A consumer leaves a stream to the others. -/
  | detach {c : CallId} {k : ConsumerId} {x : Consumer} (turn : m = .turn (.call c))
      (place : w.phaseOf c = .releasing k) (there : w.consumers.get? k = some x)
      (listed : (w.slot (w.brokerOf c) x.key).isRegistered x.stream)
      (others : (w.stream x.stream).consumers ≠ 0 ∧ (w.stream x.stream).consumers - 1 ≠ 0) :
      Change m w (((w.setStanding k .released).setStream x.stream fun y =>
        { y with consumers := y.consumers - 1 }).finish c .done)
  /-- The last consumer leaves, and the stream is off the list. -/
  | last {c : CallId} {k : ConsumerId} {x : Consumer} (turn : m = .turn (.call c))
      (place : w.phaseOf c = .releasing k) (there : w.consumers.get? k = some x)
      (listed : (w.slot (w.brokerOf c) x.key).isRegistered x.stream)
      (alone : (w.stream x.stream).consumers ≠ 0 ∧ (w.stream x.stream).consumers - 1 = 0) :
      Change m w ((((w.setStanding k .released).setStream x.stream fun y =>
        { y with consumers := y.consumers - 1 }).putSlot (w.brokerOf c) x.key
          ((w.slot (w.brokerOf c) x.key).deregister x.stream)).setPhase c (.tearing x.stream none))
  /-- All streams of a broker are taken off the lists. -/
  | sweep {c : CallId} (turn : m = .turn (.call c)) (place : w.phaseOf c = .sweepStart) :
      Change m w (w.sweep c)

/-- A step changes the books once, between changes that come about by themselves. -/
def Books (m : Move) (w w' : System) : Prop :=
  ∃ w₁ w₂, Drift m w w₁ ∧ Change m w₁ w₂ ∧ Drift m w₂ w'

end System

end TunerBroker
