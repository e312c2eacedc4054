import TunerBroker.Proofs.Sources.Belongings
import TunerBroker.Proofs.Streams.Paces

/-! Bystanders. A step is about one source, that of the call, stream, connection or consumer that moves.
What it adds belongs to that source, and what belongs to any other it leaves as it is. -/

namespace TunerBroker

namespace Owners

open TunerBroker.System

/-- The source that a move is about. -/
def mover (O : Owners) (w : System) : Move → Option Source
  | .turn (.call c) | .abandon c | .provide c _ => O.call c
  | .turn (.pump s) | .letGo s => O.stream s
  | .start b _ x => O.errand b x
  | .deliver n _ => O.connection n
  | .dropConsumer i => O.consumer i
  | .make _ _ => O.stream w.streams.size
  | .cancel _ | .setDesk _ | .elapse _ => none

/-- The owners are those of a run that comes through `w` and goes on with the move. -/
structure Tells (O : Owners) (w : System) (m : Move) : Prop where
  regular : w.Regular
  fits : O.Fits w
  fits' : O.Fits (w.step m)
  knows : (w.step m).Knows O
  begun : w.calls.size < (w.step m).calls.size → O.made w.calls.size = m.errand?

/-- A table grows from `n` entries to `n'`, and those that are new belong to the source. -/
structure Grows (owner : Nat → Option Source) (y : Option Source) (n n' : Nat) : Prop where
  le : n ≤ n'
  new : ∀ i, n ≤ i → i < n' → owner i = y

/-- All that `w'` has more than `w` belongs to the source. -/
structure Adds (O : Owners) (y : Option Source) (w w' : System) : Prop where
  calls : Grows O.call y w.calls.size w'.calls.size
  streams : Grows O.stream y w.streams.size w'.streams.size
  connections : Grows O.connection y w.connections.size w'.connections.size
  consumers : Grows O.consumer y w.consumers.size w'.consumers.size

/-- What belongs to the source is in `w'` as it is in `w`. -/
structure Keeps (O : Owners) (x : Source) (w w' : System) : Prop where
  slot : w'.slot x.1 x.2 = w.slot x.1 x.2
  phaseOf : ∀ c, O.call c = some x → w'.phaseOf c = w.phaseOf c
  brokerOf : ∀ c, O.call c = some x → w'.brokerOf c = w.brokerOf c
  announcedBy : ∀ c, O.call c = some x → w'.announcedBy c = w.announcedBy c
  stream : ∀ s, O.stream s = some x → w'.stream s = w.stream s
  terms : ∀ n, O.connection n = some x → (w'.connection n).terms = (w.connection n).terms
  place : ∀ n, O.connection n = some x → (w'.connection n).stream = (w.connection n).stream
  consumer : ∀ i, O.consumer i = some x → w'.consumers.get? i = w.consumers.get? i

variable {O : Owners} {w w' w₀ : System} {m : Move} {b : BrokerId} {k : SourceKey} {c : CallId}
  {s : StreamId} {i : ConsumerId} {x : Source} {y : Option Source} {pre post : List Move}

theorem tells_run (reg : w₀.Regular) (pre : List Move) (m : Move) (post : List Move)
    (fits : (w₀.owners (pre ++ m :: post)).Fits w₀) :
    (w₀.owners (pre ++ m :: post)).Tells (w₀.run pre) m := by
  have split : pre ++ m :: post = pre ++ [m] ++ post := by simp
  have fits' := fits_run reg (pre ++ [m]) post (split ▸ fits)
  have knows := reg.knows (pre ++ [m]) post
  rw [← split, run_concat] at fits' knows
  exact ⟨reg.run pre, fits_run reg pre _ fits, fits', knows, errandOf_new w₀ pre post m (Nat.le_refl _)⟩

theorem mover_of_actor (actor : m.actor = some c) : O.mover w m = O.call c := by
  cases m with
  | turn r =>
    cases r with
    | call d => rw [← Option.some.inj actor, mover]
    | pump s => cases actor
  | abandon d | provide d r => rw [← Option.some.inj actor, mover]
  | _ => cases actor

namespace Grows

variable {owner : Nat → Option Source} {n n' : Nat}

theorem same (h : n' = n) : Grows owner y n n' :=
  ⟨h.ge, fun _ old new => absurd new (Nat.not_lt.2 (h ▸ old))⟩

theorem one (h : n' = n + 1) (new : owner n = y) : Grows owner y n n' := by
  refine ⟨h ▸ Nat.le_succ n, fun i old lt => ?_⟩
  rw [Nat.le_antisymm (Nat.le_of_lt_succ (lt.trans_eq h)) old, new]

/-- What belongs to another source and has not been in the table does not come into it. -/
theorem get? {α : Type} {t t' : Table α} {j : Nat} (h : Grows owner y t.size t'.size)
    (other : y ≠ some x) (own : owner j = some x) (old : t.size ≤ j) : t'.get? j = t.get? j := by
  have outside : t'.size ≤ j := Nat.le_of_not_lt fun lt => other ((h.new j old lt).symm.trans own)
  rw [(Table.get?_eq_none_iff _ _).2 old, (Table.get?_eq_none_iff _ _).2 outside]

end Grows

/-- With what belongs to a source its consumers are counted as they were. -/
theorem Keeps.consumerCount (h : O.Keeps x w w') (fits : O.Fits w) :
    w'.consumerCount x.1 x.2 = w.consumerCount x.1 x.2 := by
  simp only [System.consumerCount, listedAt, h.slot]
  congr 1
  exact List.map_congr_left fun s hs => congrArg Stream.consumers (h.stream s (fits.lists hs))

namespace Tells

variable (h : O.Tells w m)

include h

/-! ### What is added -/

/-- A call that begins belongs to the source that it is made for. -/
theorem began (new : w.calls.size < (w.step m).calls.size) :
    ∃ b gated e, m = .start b gated e ∧ O.call w.calls.size = O.errand b e := by
  rcases w.step_newCall m with same | ⟨⟨b, gated, e, rfl⟩, -⟩
  · exact absurd new (Nat.not_lt.2 same.le)
  · refine ⟨b, gated, e, rfl, ?_⟩
    rw [Owners.call, h.begun new]
    rfl

section

variable (still : ∀ c, m.actor = some c → (w.phaseOf c).isSweep = false)

include still

/-- A stream that the call holds after its move is of the source that the move is about. -/
theorem stream_held (actor : m.actor = some c) (held : s ∈ ((w.step m).phaseOf c).holds) :
    O.stream s = O.mover w m := by
  rw [mover_of_actor actor]
  refine (h.fits'.places c).holds (Bool.eq_false_of_not_eq_true fun sweeps => ?_) s held
  obtain ⟨p, ticks, x, course, adv⟩ := step_fares (w := w) actor
  rw [adv.phaseOf, if_pos rfl] at sweeps
  simpa [still c actor] using course.sweeps sweeps

theorem adds : O.Adds (O.mover w m) w (w.step m) where
  calls := by
    rcases w.step_newCall m with same | ⟨-, more⟩
    · exact .same same
    · obtain ⟨b, gated, e, rfl, call⟩ := h.began (more ▸ Nat.lt_succ_self _)
      exact .one more call
  streams := by
    rcases w.step_newStream m with same | ⟨more, ⟨r, config, rfl⟩ | ⟨c, actor, owned⟩⟩
    · exact .same same
    · exact .one more rfl
    · exact .one more (h.stream_held still actor ((Phase.mem_holds _ _).2 (.inl owned)))
  connections := by
    have asks := w.step_asks m
    refine ⟨asks.size, fun n old new => ?_⟩
    obtain ⟨x, hx⟩ := Table.get?_of_lt_size new
    obtain ⟨c, actor, held⟩ := asks.place n x ((Table.get?_eq_none_iff _ _).2 old) hx
    rw [h.knows.connection hx, mover_of_actor actor]
    exact (h.fits.places c).holds (still c actor) _ held
  consumers := by
    rcases h.regular.sound.newConsumer m with same | ⟨c, actor, ⟨a, wish, x, hx, broker, key⟩, more⟩
    · exact .same same
    · refine .one more ?_
      rw [h.knows.consumer hx, mover_of_actor actor, broker, key, (h.fits.places c).wish a wish]

/-! ### What is touched -/

omit still in
/-- A connection delivers to a stream of its own source. -/
theorem connection (n : ConnectionId) (there : n < w.connections.size) :
    O.stream (w.connection n).stream = O.connection n := by
  obtain ⟨x, hx⟩ := Table.get?_of_lt_size there
  obtain ⟨y, hy, same, -⟩ := keepsTerms_step w m n x hx
  rw [System.connection, hx, h.knows.connection hy, same]
  rfl

theorem reached (actor : m.actor = some c) (hs : s ∈ w.reach c) : O.stream s = O.mover w m := by
  have suits := h.fits.places c
  have awake := still c actor
  rw [mover_of_actor actor]
  unfold reach at hs
  split at hs
  · rename_i a place
    rw [place] at suits
    rw [suits.wish a rfl]
    exact h.fits.lists ((Slot.mem_streams _ _).2 (.inl hs))
  · rename_i i place
    obtain ⟨y, there, rfl⟩ := hs
    exact h.fits.released place there
  · exact suits.holds awake s hs

/-- A step that is any touches streams of the source only that it is about. -/
theorem touched (hs : s ∈ w.touched m) : w.step m = w ∨ O.stream s = O.mover w m := by
  cases m with
  | turn r =>
    cases r with
    | call c => exact .inr (h.reached still rfl hs)
    | pump t => exact .inr (congrArg O.stream hs)
  | abandon c =>
    refine .inr ((h.fits.places c).holds (still c rfl) s hs)
  | letGo t => exact .inr (congrArg O.stream hs)
  | deliver n e =>
    by_cases there : n < w.connections.size
    · exact .inr ((congrArg O.stream hs).trans (h.connection n there))
    · exact .inl (h.regular.wired.deliver_missing there e)
  | provide c r =>
    cases r with
    | error e => cases hs
    | ok t =>
      obtain rfl : s = t := hs
      by_cases same : w.step (.provide c (.ok s)) = w
      · exact .inl same
      · refine .inr (h.stream_held still rfl ?_)
        have lt : ∀ {a t moves wait}, w.phaseOf c = .opening a t moves wait → c < w.calls.size :=
          fun place => w.lt_of_phaseOf c (by simp [place])
        simp only [System.step, System.provide] at same ⊢
        cases place : w.phaseOf c with
        | opening a t moves wait =>
          cases wait with
          | outside =>
            simp only [place] at same ⊢
            split at same
            · rename_i free
              rw [if_pos free, phaseOf_setPhase, if_pos ⟨rfl, lt place⟩]
              exact List.mem_singleton_self s
            · exact absurd rfl same
          | _ => simp [place] at same
        | _ => simp [place] at same
  | start | cancel | dropConsumer | make | setDesk | elapse => cases hs

/-! ### What is left as it is -/

section

variable (other : O.mover w m ≠ some x)

include other

theorem slot : (w.step m).slot x.1 x.2 = w.slot x.1 x.2 := by
  rcases w.step_slot m x.1 x.2 with same | ⟨c, actor, minds⟩
  · exact same
  · refine absurd ?_ other
    rw [mover_of_actor actor]
    cases minds with
    | wants broker wish key => rw [(h.fits.places c).wish _ wish, broker, key]
    | releases broker place there listed => rw [← h.fits.released place there, h.fits.lists listed]
    | sweeps broker place =>
      have awake := still c actor
      rw [place] at awake
      cases awake

theorem call (own : O.call c = some x) : (w.step m).phaseOf c = w.phaseOf c ∧
    (w.step m).brokerOf c = w.brokerOf c ∧ (w.step m).announcedBy c = w.announcedBy c := by
  by_cases there : c < w.calls.size
  · have same := step_other there fun actor => other (mover_of_actor actor ▸ own)
    exact ⟨same.1, (step_keeps there m).2, same.2⟩
  · have absent := (h.adds still).calls.get? other own (Nat.le_of_not_lt there)
    simp only [System.phaseOf, System.brokerOf, System.announcedBy, absent, and_self]

theorem stream (own : O.stream s = some x) : (w.step m).stream s = w.stream s := by
  by_cases there : s < w.streams.size
  · by_cases idle : w.step m = w
    · rw [idle]
    · refine (h.regular.wired.paces_step m).others s (fun touched => other ?_) there
      rw [← (h.touched still touched).resolve_left idle, own]
  · rw [System.stream, (h.adds still).streams.get? other own (Nat.le_of_not_lt there), System.stream]

theorem link (n : ConnectionId) (own : O.connection n = some x) :
    ((w.step m).connection n).terms = (w.connection n).terms ∧
      ((w.step m).connection n).stream = (w.connection n).stream := by
  by_cases there : n < w.connections.size
  · obtain ⟨y, hy⟩ := Table.get?_of_lt_size there
    obtain ⟨z, hz, place, terms⟩ := keepsTerms_step w m n y hy
    simp only [System.connection, hy, hz, Option.getD_some, place, terms, and_self]
  · have absent := (h.adds still).connections.get? other own (Nat.le_of_not_lt there)
    simp only [System.connection, absent, and_self]

theorem consumer (own : O.consumer i = some x) : (w.step m).consumers.get? i = w.consumers.get? i := by
  by_cases there : i < w.consumers.size
  · rcases step_consumer m there with same | handles
    · exact same
    · refine absurd ?_ other
      cases handles with
      | drops => exact own
      | hands b gated => exact own
      | releases actor place =>
        rw [mover_of_actor actor, ← (h.fits.places _).releases i place, own]
  · exact (h.adds still).consumers.get? other own (Nat.le_of_not_lt there)

/-- What belongs to another source than the step is about is kept. -/
theorem keeps : O.Keeps x w (w.step m) where
  slot := h.slot still other
  phaseOf _ own := (h.call still other own).1
  brokerOf _ own := (h.call still other own).2.1
  announcedBy _ own := (h.call still other own).2.2
  stream _ own := h.stream still other own
  terms n own := (h.link still other n own).1
  place n own := (h.link still other n own).2
  consumer _ own := h.consumer still other own

end

end

end Tells

end Owners

end TunerBroker
