import TunerBroker.Proofs.Access.Gate
import TunerBroker.Proofs.Sources.Owners

/-! What a call has to do with belongs to the source of the call: the stream it holds, the call it waits
for, the consumer it releases. A slot lists only streams of its own source, and a consumer belongs with its
stream. -/

namespace TunerBroker

namespace Owners

/-- All that the place `p` of a call, made on the broker `b`, refers to belongs to the source of the
call. A sweep belongs to none. -/
structure Suits (O : Owners) (b : BrokerId) (c : CallId) (p : Phase) : Prop where
  wish : ∀ a, p.wish? = some a → O.call c = some (b, a.key)
  holds : p.isSweep = false → ∀ s ∈ p.holds, O.stream s = O.call c
  owns : p.isSweep = false → p.owns ≠ [] → ∃ k, O.call c = some (b, k)
  joins : ∀ a o, p = .waiting a o → O.call o = O.call c
  releases : ∀ i, p = .releasing i → O.consumer i = O.call c
  sweeps : p.isSweep → O.call c = none

variable {O : Owners} {w : System} {m : Move} {b : BrokerId} {k : SourceKey} {c o : CallId} {s : StreamId}
  {a : Acquisition} {p : Phase} {i : ConsumerId}

namespace Suits

/-- A call that has come to its end refers to nothing. -/
theorem of_isOver (past : p.isOver) : O.Suits b c p := by
  cases p with
  | finished | abandoned =>
    exact ⟨by rintro _ ⟨⟩, by rintro _ _ ⟨⟩, fun _ h => absurd rfl h, by rintro _ _ ⟨⟩, by rintro _ ⟨⟩,
      by rintro ⟨⟩⟩
  | _ => cases past

theorem seeking (h : O.call c = some (b, a.key)) : O.Suits b c (.seeking a) :=
  ⟨fun _ ha => Option.some.inj ha ▸ h, by rintro _ _ ⟨⟩, fun _ h => absurd rfl h, by rintro _ _ ⟨⟩,
    by rintro _ ⟨⟩, by rintro ⟨⟩⟩

theorem waiting (h : O.call c = some (b, a.key)) (ho : O.call o = O.call c) :
    O.Suits b c (.waiting a o) := by
  refine ⟨fun _ ha => Option.some.inj ha ▸ h, by rintro _ _ ⟨⟩, fun _ h => absurd rfl h, ?_,
    by rintro _ ⟨⟩, by rintro ⟨⟩⟩
  rintro _ _ ⟨⟩
  exact ho

theorem opening {moves : List OpenMove} {x : OpenWait} (h : O.call c = some (b, a.key))
    (hs : O.stream s = O.call c) : O.Suits b c (.opening a s moves x) :=
  ⟨fun _ ha => Option.some.inj ha ▸ h, fun _ t ht => List.mem_singleton.1 ht ▸ hs, fun _ _ => ⟨a.key, h⟩,
    by rintro _ _ ⟨⟩, by rintro _ ⟨⟩, by rintro ⟨⟩⟩

/-- A call that closes a stream which it has to itself. -/
theorem owning (wish : p.wish? = none) (owns : p.holds = [s]) (idle : p.releases? = none)
    (awake : p.isSweep = false) (hs : O.stream s = O.call c) (h : ∃ k, O.call c = some (b, k)) :
    O.Suits b c p := by
  refine ⟨?_, fun _ t ht => ?_, fun _ _ => h, ?_, ?_, ?_⟩
  · simp [wish]
  · rw [owns] at ht
    exact List.mem_singleton.1 ht ▸ hs
  · rintro a o rfl
    cases wish
  · rintro i rfl
    cases idle
  · simp [awake]

theorem borrowing (borrows : p.borrows = [s]) (hs : O.stream s = O.call c) : O.Suits b c p := by
  cases p with
  | dialStart | dialing | closeStart | closing =>
    refine ⟨by rintro _ ⟨⟩, fun _ t ht => ?_, fun _ h => absurd rfl h, by rintro _ _ ⟨⟩, by rintro _ ⟨⟩,
      by rintro ⟨⟩⟩
    rw [List.mem_singleton.1 ht, List.cons.inj borrows |>.1]
    exact hs
  | _ => cases borrows

theorem sweeping (awake : p.isSweep) (h : O.call c = none) : O.Suits b c p := by
  cases p with
  | sweepStart | sweeping =>
    exact ⟨by rintro _ ⟨⟩, by rintro ⟨⟩, by rintro ⟨⟩, by rintro _ _ ⟨⟩, by rintro _ ⟨⟩, fun _ => h⟩
  | _ => cases awake

/-- A call starts out with what its errand is about. -/
theorem origin {x : Errand} (h : O.call c = O.errand b x) : O.Suits b c x.origin := by
  cases x with
  | acquire a => exact seeking h
  | enter ctx a =>
    exact ⟨fun _ ha => Option.some.inj ha ▸ h, by rintro _ _ ⟨⟩, fun _ h => absurd rfl h, by rintro _ _ ⟨⟩,
      by rintro _ ⟨⟩, by rintro ⟨⟩⟩
  | release i =>
    refine ⟨by rintro _ ⟨⟩, by rintro _ _ ⟨⟩, fun _ h => absurd rfl h, by rintro _ _ ⟨⟩, ?_, by rintro ⟨⟩⟩
    rintro _ ⟨⟩
    exact h.symm
  | sweep => exact sweeping rfl h
  | openStream s token => exact borrowing rfl h.symm
  | closeStream s => exact borrowing rfl h.symm

end Suits

/-- What every call has to do with belongs to the source of the call, what a slot lists to that of the
slot, and a consumer with its stream. -/
structure Fits (O : Owners) (w : System) : Prop where
  places : ∀ c, O.Suits (w.brokerOf c) c (w.phaseOf c)
  lists : ∀ {b k s}, s ∈ (w.slot b k).streams → O.stream s = some (b, k)
  consumers : ∀ {i x}, w.consumers.get? i = some x → O.stream x.stream = O.consumer i

namespace Fits

open TunerBroker.System

variable (h : O.Fits w) (g : w.Sound)

include h

theorem opened {moves : List OpenMove} {x : OpenWait} (place : w.phaseOf c = .opening a s moves x) :
    O.stream s = some (w.brokerOf c, a.key) := by
  have suits := h.places c
  rw [place] at suits
  rw [suits.holds rfl s (List.mem_singleton_self s), suits.wish a rfl]

/-- A call that opens for the source belongs to it. -/
theorem opens (opens : w.Opens c b k) : O.call c = some (b, k) := by
  obtain ⟨rfl, a, ha, rfl⟩ := opens
  refine (h.places c).wish a ?_
  cases hp : w.phaseOf c <;> rw [hp] at ha <;> cases ha
  rfl

theorem released {x : Consumer} (place : w.phaseOf c = .releasing i) (there : w.consumers.get? i = some x) :
    O.stream x.stream = O.call c :=
  (h.consumers there).trans ((h.places c).releases i place)

include g

theorem course {ticks : List Tick} {x : Option Announcement} (course : Course m w c p ticks x)
    (next : (w.step m).phaseOf c = p) (knows : (w.step m).Knows O)
    (broker : (w.step m).brokerOf c = w.brokerOf c) : O.Suits (w.brokerOf c) c p := by
  have suits := h.places c
  -- A call that opens a stream afterwards opens it for its own source.
  have opening : ∀ {s a moves x}, p = .opening a s moves x → O.call c = some (w.brokerOf c, a.key) →
      O.Suits (w.brokerOf c) c p := by
    rintro s a moves x rfl wish
    refine .opening wish (wish ▸ knows.stream (c := c) ⟨broker, a, moves, x, next, rfl⟩)
  cases course with
  | stay => exact suits
  | enter place | retry place =>
    rw [place] at suits
    exact .seeking (suits.wish _ rfl)
  | join place taken =>
    rw [place] at suits
    have wish := suits.wish _ rfl
    rw [g.flight.opening_filter] at taken
    exact .waiting wish ((h.opens ((g.flight.marks _ _ _).1 taken)).trans wish.symm)
  | «open» place | onward place =>
    rw [place] at suits
    exact opening rfl (suits.wish _ rfl)
  | reject place =>
    rw [place] at suits
    exact .owning rfl rfl rfl rfl (suits.holds rfl _ (List.mem_singleton_self _)) ⟨_, suits.wish _ rfl⟩
  | rejecting place | tear place =>
    rw [place] at suits
    exact .owning rfl rfl rfl rfl (suits.holds rfl _ (List.mem_singleton_self _))
      (suits.owns rfl (List.cons_ne_nil _ _))
  | last place =>
    obtain ⟨x, there, rfl, listed⟩ := step_tears m place next
    have belongs := h.released place there
    exact .owning rfl rfl rfl rfl belongs ⟨_, belongs.symm.trans (h.lists listed)⟩
  | sweep place | sweeping place | swept result place =>
    rw [place] at suits
    exact .sweeping rfl (suits.sweeps rfl)
  | @lone s p borrows next =>
    rcases next with same | ⟨past, -⟩
    · have held := (Phase.mem_holds _ _).2 (.inr borrows)
      refine .borrowing same (suits.holds ?_ s held)
      cases hp : w.phaseOf c <;> rw [hp] at borrows <;> first | rfl | cases borrows
    · exact .of_isOver past
  | torn result => exact .of_isOver rfl
  | _ => exact .of_isOver rfl

theorem step (l : w.Ledger) (m : Move) (knows : (w.step m).Knows O)
    (begun : w.calls.size < (w.step m).calls.size → O.made w.calls.size = m.errand?) :
    O.Fits (w.step m) := by
  have lists : ∀ {b k s}, s ∈ ((w.step m).slot b k).streams → O.stream s = some (b, k) := by
    intro b k s hs
    rcases listed_step g hs with hs | ⟨c, rfl, a, moves, wait, place, rfl⟩
    · exact h.lists hs
    · exact h.opened place
  refine ⟨fun c => ?_, lists, fun {i x} there => ?_⟩
  · rcases w.step_cases m c with ⟨same, -⟩ | ⟨actor, lt⟩ |
      ⟨b, gated, errand, rfl, rfl, new, origin, broker, -⟩
    · rw [same]
      by_cases lt : c < w.calls.size
      · rw [(step_keeps lt m).2]
        exact h.places c
      · rw [w.phaseOf_of_size_le c (Nat.le_of_not_lt lt)]
        exact .of_isOver rfl
    · obtain ⟨p, ticks, x, course, adv⟩ := step_fares (w := w) actor
      have next : (w.step m).phaseOf c = p := by rw [adv.phaseOf, if_pos rfl]
      rw [next, adv.brokerOf]
      exact h.course g course next knows (adv.brokerOf c)
    · rw [origin, broker]
      refine .origin ?_
      rw [Owners.call, begun new]
      rfl
  · by_cases old : i < w.consumers.size
    · obtain ⟨y, hy⟩ := Table.get?_of_lt_size old
      obtain ⟨z, hz, follows⟩ := consumer_step l g m hy
      cases there.symm.trans hz
      rw [follows.stream]
      exact h.consumers hy
    · have attached := g.newcomer m (Nat.le_of_not_lt old) there
      rw [lists attached.listed, knows.consumer there]

end Fits

theorem fits_fresh (O : Owners) (configs : List BrokerConfig) (desk : AccessDesk)
    (terms : List TunerTerms) : O.Fits (System.fresh configs desk terms) where
  places _ := .of_isOver rfl
  lists {b k s} hs := by
    rw [System.slot_fresh] at hs
    cases hs
  consumers := by rintro _ _ ⟨⟩

/-- What belongs to which source in the whole of a run fits each moment of it. -/
theorem fits_run {w₀ : System} (reg : w₀.Regular) (pre post : List Move)
    (fits : (w₀.owners (pre ++ post)).Fits w₀) : (w₀.owners (pre ++ post)).Fits (w₀.run pre) := by
  induction pre using List.reverseRecOn generalizing post with
  | nil => exact fits
  | append_singleton pre m ih =>
    have split : pre ++ [m] ++ post = pre ++ m :: post := by simp
    have knows := reg.knows (pre ++ [m]) post
    rw [split] at fits knows ⊢
    rw [System.run_concat] at knows ⊢
    have reg' := reg.run pre
    exact (ih _ fits).step reg'.sound reg'.ledger m knows fun new =>
      System.errandOf_new w₀ pre post m (Nat.le_refl _) new

end Owners

end TunerBroker
