import TunerBroker.Proofs.Sources.Bystanders
import TunerBroker.Proofs.Sources.Lockstep
import TunerBroker.Proofs.Closes.Scores

/-! One source by itself. What a run has to do with one source is again a run: its moves are those about
the source, in their order, and the tuner gives them the answers that it gave. The system is mirrored by
this run from move to move; a move about something else adds nothing to it, and changes nothing in it. -/

namespace TunerBroker

namespace Pick

variable {α : Type} (shows : Nat → Bool) {n n' : Nat}

/-- The entries of a list that are shown. -/
def select (p : Pick) (l : List α) : List α := (l.zipIdx.filter fun y => p.shows y.2).map (·.1)

theorem select_rank_append (l : List α) (a : α) : (rank shows).select (l ++ [a]) =
    (rank shows).select l ++ if shows l.length then [a] else [] := by
  simp only [select, List.zipIdx_append, List.filter_append, List.map_append, rank]
  by_cases last : shows l.length <;> simp [last]

theorem length_select_rank (l : List α) : ((rank shows).select l).length = rank shows l.length := by
  induction l using List.reverseRecOn with
  | nil => exact (rank_zero shows).symm
  | append_singleton l a ih =>
    rw [select_rank_append, List.length_append, ih]
    by_cases shown : shows l.length <;> simp [rank, Nat.count_succ, shown]

/-- What is shown is found under its new number. -/
theorem getElem?_select_rank (l : List α) (hn : shows n) :
    ((rank shows).select l)[rank shows n]? = l[n]? := by
  have shown : n ∈ rank shows := hn
  induction l using List.reverseRecOn with
  | nil => rfl
  | append_singleton l a ih =>
    have length := length_select_rank shows l
    rcases Nat.lt_trichotomy n l.length with lt | rfl | gt
    · have inside : rank shows n < ((rank shows).select l).length := length ▸ (rank shows).lt shown lt
      rw [select_rank_append, List.getElem?_append_left inside, List.getElem?_append_left lt, ih]
    · rw [select_rank_append, if_pos hn, ← length, List.getElem?_concat_length,
        List.getElem?_concat_length]
    · have whole : (l ++ [a]).length ≤ n := by simpa using Nat.succ_le_of_lt gt
      have beyond := (rank shows).mono whole
      rw [← length_select_rank] at beyond
      rw [List.getElem?_eq_none beyond, List.getElem?_eq_none whole]

/-- Where nothing is shown no number is given. -/
theorem rank_eq {shows : Nat → Bool} (le : n ≤ n') (hidden : ∀ i, n ≤ i → i < n' → shows i = false) :
    rank shows n' = rank shows n := by
  induction n', le using Nat.le_induction with
  | base => rfl
  | succ i le ih =>
    have same := ih fun j hj lt => hidden j hj (Nat.lt_succ_of_lt lt)
    have last := hidden i le (Nat.lt_succ_self i)
    simp only [rank] at same ⊢
    rw [Nat.count_succ, if_neg (by simp [last]), same, Nat.add_zero]

end Pick

namespace Owners

/-- The excerpt shows what belongs to the source, under whatever numbers. -/
structure Show (O : Owners) (x : Source) (E : Excerpt) : Prop where
  sources : ∀ {y}, y ∈ E ↔ y = x
  calls : ∀ {c}, c ∈ E.calls ↔ O.call c = some x
  streams : ∀ {s}, s ∈ E.streams ↔ O.stream s = some x
  connections : ∀ {n}, n ∈ E.connections ↔ O.connection n = some x
  consumers : ∀ {i}, i ∈ E.consumers ↔ O.consumer i = some x

/-- The excerpt that shows what belongs to the source and numbers it anew. -/
def excerpt (O : Owners) (x : Source) : Excerpt where
  sources y := y = x
  calls := .rank fun c => O.call c = some x
  streams := .rank fun s => O.stream s = some x
  connections := .rank fun n => O.connection n = some x
  consumers := .rank fun i => O.consumer i = some x

theorem show_excerpt (O : Owners) (x : Source) : O.Show x (O.excerpt x) :=
  ⟨decide_eq_true_iff, decide_eq_true_iff, decide_eq_true_iff, decide_eq_true_iff, decide_eq_true_iff⟩

end Owners

theorem System.countersOf_fresh (configs : List BrokerConfig) (desk : AccessDesk) (terms : List TunerTerms)
    (b : BrokerId) : (fresh configs desk terms).countersOf b = 0 :=
  (broker_fresh configs desk terms b).2

namespace Excerpt

open TunerBroker.System

/-- The moves of a run about what is shown, as they are made on what is shown by itself. -/
def trimmed (E : Excerpt) (w : System) (moves : List Move) : List Move :=
  w.along (fun w m => if E.showsMove w m then [E.move m] else []) moves

theorem trimmed_concat (E : Excerpt) (w : System) (moves : List Move) (m : Move) :
    E.trimmed w (moves ++ [m]) =
      E.trimmed w moves ++ if E.showsMove (w.run moves) m then [E.move m] else [] :=
  along_concat _ w moves m

end Excerpt

namespace Owners

open TunerBroker.System

variable {O : Owners} {E : Excerpt} {g : BrokerId → Counters} {v w : System} {m : Move} {x : Source}
  {c : CallId}

/-- At the start there is nothing that is shown. -/
theorem mirrors_fresh (O : Owners) (x : Source) (configs : List BrokerConfig) (desk : AccessDesk)
    (terms terms' : List TunerTerms) :
    (O.excerpt x).Mirrors (fun _ => 0) (fresh configs desk terms') (fresh configs desk terms) where
  clock := rfl
  desk := rfl
  fired := rfl
  brokers := rfl
  counters b := by rw [zero_add, countersOf_fresh, countersOf_fresh]
  calls := (Pick.rank_zero _).symm
  streams := (Pick.rank_zero _).symm
  connections := (Pick.rank_zero _).symm
  consumers := (Pick.rank_zero _).symm
  phaseOf _ _ := rfl
  brokerOf _ _ := rfl
  announcedBy _ _ := rfl
  stream _ _ := rfl
  terms _ _ := rfl
  place := by rintro n - ⟨⟩
  consumer _ _ := rfl
  slot b k _ := by rw [slot_fresh, slot_fresh, Excerpt.slot_empty]
  covers b k _ := by
    rw [slot_fresh]
    exact Excerpt.covers_empty
  holds := by rintro c - s ⟨⟩
  pumps := by rintro s - n ⟨⟩
  unlisted b k _ s _ := by
    rw [slot_fresh, slot_fresh]
    exact ⟨List.not_mem_nil, List.not_mem_nil⟩
  heldBeside s _ := iff_of_false (by rintro ⟨d, -, ⟨⟩⟩) (by rintro ⟨c, -, ⟨⟩⟩)

/-! ### Moves that are shown, and others -/

section

variable (hE : O.Show x E)

include hE

/-- A move that is shown is about the source, or about the surroundings. -/
theorem Show.mover (shown : E.showsMove w m) : O.mover w m = some x ∨ m.isAmbient := by
  cases m with
  | turn r =>
    cases r with
    | call c => exact .inl (hE.calls.1 shown)
    | pump s => exact .inl (hE.streams.1 shown)
  | start b gated e =>
    refine .inl ?_
    cases e with
    | acquire a | enter ctx a => exact congrArg some (hE.sources.1 shown)
    | release i => exact hE.consumers.1 shown
    | openStream s token => exact hE.streams.1 shown
    | closeStream s => exact hE.streams.1 shown
    | sweep => cases shown
  | provide c r =>
    refine .inl ?_
    cases r with
    | ok s => exact hE.calls.1 (Bool.and_eq_true_iff.1 shown).1
    | error e => exact hE.calls.1 shown
  | deliver n e => exact .inl (hE.connections.1 shown)
  | abandon c => exact .inl (hE.calls.1 shown)
  | dropConsumer i => exact .inl (hE.consumers.1 shown)
  | make r config => exact .inl (hE.streams.1 shown)
  | letGo s => exact .inl (hE.streams.1 shown)
  | cancel | setDesk | elapse => exact .inr rfl

/-- A move that is not shown is about something else, if it is not in vain. -/
theorem Show.mover_of_hidden (h : O.Tells w m)
    (still : ∀ c, m.actor = some c → (w.phaseOf c).isSweep = false) (hidden : ¬ E.showsMove w m) :
    w.step m = w ∨ O.mover w m ≠ some x ∧ m.isAmbient = false := by
  cases m with
  | turn r =>
    cases r with
    | call c => exact .inr ⟨fun own => hidden (hE.calls.2 own), rfl⟩
    | pump s => exact .inr ⟨fun own => hidden (hE.streams.2 own), rfl⟩
  | start b gated e =>
    refine .inr ⟨fun own => ?_, rfl⟩
    cases e with
    | acquire a | enter ctx a => exact hidden (hE.sources.2 (Option.some.inj own))
    | release i => exact hidden (hE.consumers.2 own)
    | openStream s token => exact hidden (hE.streams.2 own)
    | closeStream s => exact hidden (hE.streams.2 own)
    | sweep => cases own
  | provide c r =>
    cases r with
    | error e => exact .inr ⟨fun own => hidden (hE.calls.2 own), rfl⟩
    | ok s =>
      rcases h.touched still (s := s) rfl with idle | owner
      · exact .inl idle
      · refine .inr ⟨fun own => hidden ?_, rfl⟩
        exact Bool.and_eq_true_iff.2 ⟨hE.calls.2 own, hE.streams.2 (owner.trans own)⟩
  | deliver n e => exact .inr ⟨fun own => hidden (hE.connections.2 own), rfl⟩
  | abandon c => exact .inr ⟨fun own => hidden (hE.calls.2 own), rfl⟩
  | dropConsumer i => exact .inr ⟨fun own => hidden (hE.consumers.2 own), rfl⟩
  | make r config => exact .inr ⟨fun own => hidden (hE.streams.2 own), rfl⟩
  | letGo s => exact .inr ⟨fun own => hidden (hE.streams.2 own), rfl⟩
  | cancel | setDesk | elapse => exact absurd rfl hidden

end

theorem Grows.rank_eq {owner : Nat → Option Source} {y : Option Source} {n n' : Nat}
    (h : Grows owner y n n') (other : y ≠ some x) :
    Pick.rank (fun i => owner i = some x) n' = Pick.rank (fun i => owner i = some x) n :=
  Pick.rank_eq h.le fun i old new => decide_eq_false (h.new i old new ▸ other)

/-- A move about something else leaves the source mirrored. -/
theorem Tells.beside (h : O.Tells w m) (quiet : ∀ c, (w.phaseOf c).isSweep = false)
    (quiet' : ∀ c, ((w.step m).phaseOf c).isSweep = false) (mirrors : (O.excerpt x).Mirrors g v w)
    (hidden : ¬ (O.excerpt x).showsMove w m) : ∃ g', (O.excerpt x).Mirrors g' v (w.step m) := by
  rcases (O.show_excerpt x).mover_of_hidden h (fun c _ => quiet c) hidden with idle | ⟨other, loud⟩
  · rw [idle]
    exact ⟨g, mirrors⟩
  have adds := h.adds fun c _ => quiet c
  have keeps := h.keeps (fun c _ => quiet c) other
  obtain ⟨clock, desk, fired⟩ := (h.regular.wired.paces_step m).surroundings loud
  have own : ∀ {P : Prop} [Decidable P], decide P = true → P := of_decide_eq_true
  refine ⟨fun b => (w.step m).countersOf b - v.countersOf b, ?_⟩
  exact {
    clock := clock ▸ mirrors.clock
    desk := desk ▸ mirrors.desk
    fired := fired ▸ mirrors.fired
    brokers := mirrors.brokers.trans (brokers_step w m).symm
    counters := fun b => (sub_add_cancel _ _).symm
    calls := mirrors.calls.trans (adds.calls.rank_eq other).symm
    streams := mirrors.streams.trans (adds.streams.rank_eq other).symm
    connections := mirrors.connections.trans (adds.connections.rank_eq other).symm
    consumers := mirrors.consumers.trans (adds.consumers.rank_eq other).symm
    phaseOf := fun c hc => by rw [keeps.phaseOf c (own hc), mirrors.phaseOf c hc]
    brokerOf := fun c hc => by rw [keeps.brokerOf c (own hc), mirrors.brokerOf c hc]
    announcedBy := fun c hc => by rw [keeps.announcedBy c (own hc), mirrors.announcedBy c hc]
    stream := fun s hs => by rw [keeps.stream s (own hs), mirrors.stream s hs]
    terms := fun n hn => by rw [keeps.terms n (own hn), mirrors.terms n hn]
    place := fun n hn there => by
      -- What belongs to the source has not come with the move.
      have old : n < w.connections.size := Nat.lt_of_not_le fun new =>
        other ((adds.connections.new n new there).symm.trans (own hn))
      rw [keeps.place n (own hn), mirrors.place n hn old]
    consumer := fun i hi => by rw [keeps.consumer i (own hi), mirrors.consumer i hi]
    slot := fun b k hk => by
      obtain rfl := own hk
      rw [keeps.slot, mirrors.slot b k hk]
    covers := fun b k hk => by
      obtain rfl := own hk
      rw [keeps.slot]
      exact mirrors.covers b k hk
    holds := fun c hc s hs => by
      rw [keeps.phaseOf c (own hc)] at hs
      exact mirrors.holds c hc s hs
    pumps := fun s hs n hn => by
      rw [keeps.stream s (own hs)] at hn
      obtain ⟨shown, there, place⟩ := mirrors.pumps s hs n hn
      exact ⟨shown, there.trans_le adds.connections.le, by rw [keeps.place n (own shown), place]⟩
    unlisted := fun b k hk s hs => by
      refine ⟨(mirrors.unlisted b k hk s hs).1, fun listed => hk (decide_eq_true ?_)⟩
      exact Option.some.inj ((h.fits'.lists listed).symm.trans (own hs))
    heldBeside := fun s hs => by
      rw [mirrors.heldBeside s hs]
      refine iff_of_false ?_ ?_
      · rintro ⟨c, hc, held⟩
        exact hc (decide_eq_true (((h.fits.places c).holds (quiet c) s held).symm.trans (own hs)))
      · rintro ⟨c, hc, held⟩
        exact hc (decide_eq_true (((h.fits'.places c).holds (quiet' c) s held).symm.trans (own hs))) }

/-! ### Moves about the source -/

/-- A move about the source is not one of a sweep. -/
theorem Tells.still (h : O.Tells w m) (own : O.mover w m = some x) (c : CallId)
    (actor : m.actor = some c) : (w.phaseOf c).isSweep = false := by
  refine Bool.eq_false_of_not_eq_true fun sweeps => ?_
  rw [mover_of_actor actor, (h.fits.places c).sweeps sweeps] at own
  cases own

theorem tables_of_ambient (ambient : m.isAmbient) (w : System) : (w.step m).calls = w.calls ∧
    (w.step m).streams = w.streams ∧ (w.step m).connections = w.connections ∧
    (w.step m).consumers = w.consumers := by
  cases m with
  | cancel t =>
    simp only [System.step]
    split <;> exact ⟨rfl, rfl, rfl, rfl⟩
  | setDesk | elapse => exact ⟨rfl, rfl, rfl, rfl⟩
  | _ => cases ambient

namespace Show

variable (hE : O.Show x E) (h : O.Tells w m)

include hE h

theorem closed : E.Closed w where
  wish c hc a wish := by
    refine hE.sources.2 (Option.some.inj ?_)
    rw [← (h.fits.places c).wish a wish]
    exact hE.calls.1 hc
  joins c hc a o place := hE.calls.2 (((h.fits.places c).joins a o place).trans (hE.calls.1 hc))
  releases c hc i place :=
    hE.consumers.2 (((h.fits.places c).releases i place).trans (hE.calls.1 hc))
  consumer i hi y there := hE.streams.2 ((h.fits.consumers there).trans (hE.consumers.1 hi))
  place n hn there := hE.streams.2 ((h.connection n there).trans (hE.connections.1 hn))
  dials c hc s d job := by
    obtain ⟨-, y, there, rfl, -⟩ := h.regular.wired.manned job
    have lt := Table.lt_size_of_get? there
    have same : (w.connection d.connection).stream = y.stream := by simp [System.connection, there]
    refine ⟨hE.connections.2 ?_, lt, same⟩
    rw [← h.connection _ lt, same]
    refine ((h.fits.places c).holds ?_ _ ?_).trans (hE.calls.1 hc)
    · cases hp : w.phaseOf c <;> first | rfl | simp [hp, Phase.job?] at job
    · cases hp : w.phaseOf c <;> simp_all [Phase.job?, Phase.holds]

theorem still (shown : E.showsMove w m) (c : CallId) (actor : m.actor = some c) :
    (w.phaseOf c).isSweep = false := by
  rcases hE.mover shown with own | ambient
  · exact h.still own c actor
  · cases m with
    | cancel | setDesk | elapse => cases actor
    | _ => cases ambient

theorem admits (shown : E.showsMove w m)
    (answers : w.connections.size < (w.step m).connections.size → v.terms.headD {} = w.terms.headD {}) :
    E.Admits v w (w.step m) := by
  have adds := h.adds (hE.still h shown)
  rcases hE.mover shown with own | ambient
  · rw [own] at adds
    exact ⟨fun more => hE.calls.2 (adds.calls.new _ (Nat.le_refl _) more),
      fun more => hE.streams.2 (adds.streams.new _ (Nat.le_refl _) more),
      fun more => hE.connections.2 (adds.connections.new _ (Nat.le_refl _) more),
      fun more => hE.consumers.2 (adds.consumers.new _ (Nat.le_refl _) more), answers⟩
  · obtain ⟨calls, streams, connections, consumers⟩ := tables_of_ambient ambient w
    exact ⟨fun more => by simp [calls] at more, fun more => by simp [streams] at more,
      fun more => by simp [connections] at more, fun more => by simp [consumers] at more, answers⟩

/-- A move about the source does the same wherever the source is mirrored. -/
theorem mirrors_step (hv : v.Wired v.jobs) (mirrors : E.Mirrors g v w) (shown : E.showsMove w m)
    (answers : w.connections.size < (w.step m).connections.size → v.terms.headD {} = w.terms.headD {}) :
    E.Mirrors g (v.step (E.move m)) (w.step m) :=
  mirrors.step hv h.regular.wired (hE.closed h) (hE.still h shown) shown
    (hE.admits h shown answers)

end Show

end Owners

/-! ### The run by itself -/

/-- A sweep begins with the move. -/
def Move.startsSweep : Move → Bool
  | start _ _ .sweep => true
  | _ => false

namespace System

variable {w : System} {m : Move} {moves : List Move}

theorem quiet_step (quiet : ∀ c, (w.phaseOf c).isSweep = false) (hm : m.startsSweep = false) (c : CallId) :
    ((w.step m).phaseOf c).isSweep = false := by
  rcases w.step_cases m c with ⟨same, -⟩ | ⟨actor, -⟩ | ⟨b, gated, e, rfl, -, -, origin, -⟩
  · rw [same, quiet]
  · obtain ⟨p, ticks, x, course, adv⟩ := step_fares (w := w) actor
    rw [adv.phaseOf, if_pos rfl]
    exact Bool.eq_false_of_not_eq_true fun sweeps => by simpa [quiet] using course.sweeps sweeps
  · rw [origin]
    cases e <;> first | rfl | cases hm

theorem quiet_run (quiet : ∀ c, (w.phaseOf c).isSweep = false) (hm : ∀ m ∈ moves, m.startsSweep = false) :
    ∀ c, ((w.run moves).phaseOf c).isSweep = false := by
  induction moves generalizing w with
  | nil => exact quiet
  | cons m moves ih =>
    rw [List.forall_mem_cons] at hm
    exact ih (quiet_step quiet hm.1) hm.2

end System

namespace Excerpt

open TunerBroker.System

/-- The run of what is shown by itself, the tuner giving the answers that it gave. -/
def alone (E : Excerpt) (w : System) (moves : List Move) : System :=
  ({ w with terms := E.connections.select w.terms } : System).run (E.trimmed w moves)

/-- What can be seen of the source is the same in `v` as in `w`, but for the numbers. -/
structure Alike (E : Excerpt) (x : Source) (v w : System) : Prop where
  calls : v.calls.size = E.calls w.calls.size
  /-- Calls come as far, with the same results. -/
  results : ∀ c ∈ E.calls, v.phaseOf (E.calls c) = E.phase (w.phaseOf c)
  slot : v.slot x.1 x.2 = E.slot (w.slot x.1 x.2)
  handles : ∀ s ∈ w.listedAt x.1 x.2, s ∈ E.streams ∧ v.stream (E.streams s) = E.stream (w.stream s)
  count : v.consumerCount x.1 x.2 = w.consumerCount x.1 x.2
  consumers : ∀ i ∈ E.consumers, v.consumers.get? (E.consumers i) = (w.consumers.get? i).map E.consumer
  readers : ∀ i ∈ E.consumers, v.readerOf (E.consumers i) = E.result ((w.readerOf i).map E.reader)
  reads : ∀ r : StreamReader, r.stream ∈ E.streams →
    (v.read (E.reader r)).2 = (E.reader (w.read r).2.1, (w.read r).2.2)

variable {E : Excerpt} {g : BrokerId → Counters} {v w : System} {x : Source} {i : ConsumerId}

namespace Mirrors

variable (h : E.Mirrors g v w)

include h

/-- A consumer of what is shown is given the same reader. -/
theorem readerOf (hi : i ∈ E.consumers)
    (kin : ∀ y, w.consumers.get? i = some y → y.stream ∈ E.streams) :
    v.readerOf (E.consumers i) = E.result ((w.readerOf i).map E.reader) := by
  simp only [System.readerOf, h.consumer i hi]
  cases hy : w.consumers.get? i with
  | none => rfl
  | some y =>
    have hs := kin y hy
    simp only [Option.map_some, Excerpt.consumer, h.isHeld hs, System.subscribe, h.stream _ hs, feed_stream,
      key_stream, buffer_stream]
    split
    · split <;> rfl
    · rfl

/-- A reader of what is shown reads the same. -/
theorem read (r : StreamReader) (hr : r.stream ∈ E.streams) :
    (v.read (E.reader r)).2 = (E.reader (w.read r).2.1, (w.read r).2.2) := by
  have received : ∀ {v w : System} {q : StreamReader}, E.Mirrors g v w → q.stream ∈ E.streams →
      v.receive (E.reader q) = w.receive q := by
    intro v w q h hq
    simp only [System.receive, reader, h.stream _ hq, buffer_stream]
  have caught : E.Mirrors g (v.catchUp (E.reader r)).1 (w.catchUp r).1 ∧
      (v.catchUp (E.reader r)).2 = E.reader (w.catchUp r).2 ∧ (w.catchUp r).2.stream = r.stream := by
    simp only [System.catchUp, received h hr]
    cases w.receive r <;> first | exact ⟨h.note _ _ _ _, rfl, rfl⟩ | exact ⟨h, rfl, rfl⟩
  obtain ⟨mirrors, same, place⟩ := caught
  have hq : (w.catchUp r).2.stream ∈ E.streams := place ▸ hr
  have shut : ((v.catchUp (E.reader r)).1.stream (E.reader (w.catchUp r).2).stream).isShut =
      ((w.catchUp r).1.stream (w.catchUp r).2.stream).isShut :=
    (congrArg Stream.isShut (mirrors.stream _ hq)).trans (isShut_stream _)
  simp only [System.read, same, received mirrors hq, shut]
  split <;> rfl

theorem alike (hx : x ∈ E)
    (kin : ∀ i ∈ E.consumers, ∀ y, w.consumers.get? i = some y → y.stream ∈ E.streams) :
    E.Alike x v w where
  calls := h.calls
  results := h.phaseOf
  slot := h.slot _ _ hx
  handles s hs := by
    have shown := (h.covers _ _ hx).streams s hs
    exact ⟨shown, h.stream s shown⟩
  count := by
    simp only [System.consumerCount, listedAt, h.slot _ _ hx, streams_slot, List.map_map]
    congr 1
    refine List.map_congr_left fun s hs => ?_
    rw [Function.comp_apply, h.stream s ((h.covers _ _ hx).streams s hs), consumers_stream]
  consumers := h.consumer
  readers i hi := h.readerOf hi (kin i hi)
  reads := h.read

end Mirrors

theorem alone_concat (E : Excerpt) (w : System) (moves : List Move) (m : Move) :
    E.alone w (moves ++ [m]) =
      if E.showsMove (w.run moves) m then (E.alone w moves).step (E.move m) else E.alone w moves := by
  rw [alone, trimmed_concat, run_append]
  split <;> rfl

end Excerpt

namespace Owners

open TunerBroker.System

/-- The owners are those of a run from `w` that goes through the moves. -/
def Follows (O : Owners) (w : System) (moves : List Move) : Prop :=
  ∀ l m l', moves = l ++ m :: l' → O.Tells (w.run l) m

variable {O : Owners} {g : BrokerId → Counters} {w : System} {m : Move} {moves : List Move} {x : Source}
  {configs : List BrokerConfig} {desk : AccessDesk} {terms : List TunerTerms}

theorem follows_owners (configs : List BrokerConfig) (desk : AccessDesk) (terms : List TunerTerms)
    (pre post : List Move) :
    ((fresh configs desk terms).owners (pre ++ post)).Follows (fresh configs desk terms) pre := by
  rintro l m l' rfl
  rw [List.append_assoc, List.cons_append]
  exact tells_run (regular_fresh configs desk terms) l m _ (fits_fresh _ configs desk terms)

theorem Follows.init (h : O.Follows w (moves ++ [m])) : O.Follows w moves := by
  rintro l m' l' rfl
  exact h l m' (l' ++ [m]) (by simp)

theorem Follows.last (h : O.Follows w (moves ++ [m])) : O.Tells (w.run moves) m := h moves m [] rfl

/-- The tuner answers in the order of its list. -/
theorem headD_terms_run (configs : List BrokerConfig) (desk : AccessDesk) (terms : List TunerTerms)
    (moves : List Move) : ((fresh configs desk terms).run moves).terms.headD {} =
      terms[((fresh configs desk terms).run moves).connections.size]?.getD {} := by
  have none : (fresh configs desk terms).connections.size = 0 := rfl
  rw [terms_run, none, Nat.sub_zero, List.headD_eq_head?_getD, List.head?_drop]
  rfl

/-- By itself the source is given the answer that it is given next in the run as a whole. -/
theorem headD_terms_alone
    (mirrors : (O.excerpt x).Mirrors g ((O.excerpt x).alone (fresh configs desk terms) moves)
      ((fresh configs desk terms).run moves))
    (next : O.connection ((fresh configs desk terms).run moves).connections.size = some x) :
    ((O.excerpt x).alone (fresh configs desk terms) moves).terms.headD {} =
      ((fresh configs desk terms).run moves).terms.headD {} := by
  have alone := headD_terms_run configs desk ((O.excerpt x).connections.select terms)
    ((O.excerpt x).trimmed (fresh configs desk terms) moves)
  have size := mirrors.connections
  rw [Excerpt.alone] at size ⊢
  rw [headD_terms_run]
  refine alone.trans (congrArg (Option.getD · _) ?_)
  have shown : decide (O.connection ((fresh configs desk terms).run moves).connections.size = some x) :=
    decide_eq_true next
  rw [← Pick.getElem?_select_rank (fun n => O.connection n = some x) terms shown]
  exact congrArg (((O.excerpt x).connections.select terms)[·]?) size

theorem wired_alone (E : Excerpt) (configs : List BrokerConfig) (desk : AccessDesk)
    (terms : List TunerTerms) (moves : List Move) :
    (E.alone (fresh configs desk terms) moves).Wired (E.alone (fresh configs desk terms) moves).jobs :=
  ((regular_fresh configs desk _).run _).wired

/-- A move of the run about the source goes in the run by itself as it goes in the whole. -/
theorem Follows.mirrors_step (h : O.Follows (fresh configs desk terms) (moves ++ [m]))
    (mirrors : (O.excerpt x).Mirrors g ((O.excerpt x).alone (fresh configs desk terms) moves)
      ((fresh configs desk terms).run moves))
    (shown : (O.excerpt x).showsMove ((fresh configs desk terms).run moves) m) :
    (O.excerpt x).Mirrors g ((O.excerpt x).alone (fresh configs desk terms) (moves ++ [m]))
      ((fresh configs desk terms).run (moves ++ [m])) := by
  have tells := h.last
  rw [Excerpt.alone_concat, if_pos shown, run_concat]
  refine (O.show_excerpt x).mirrors_step tells (wired_alone ..) mirrors shown fun more =>
    headD_terms_alone mirrors ?_
  rcases (O.show_excerpt x).mover shown with own | ambient
  · exact own ▸ (tells.adds (tells.still own)).connections.new _ (Nat.le_refl _) more
  · simp [(tables_of_ambient ambient _).2.2.1] at more

/-- At each moment the run of a source by itself mirrors the run as a whole, if nothing is swept. -/
theorem Follows.mirrors (h : O.Follows (fresh configs desk terms) moves)
    (quiet : ∀ m ∈ moves, m.startsSweep = false) (x : Source) :
    ∃ g, (O.excerpt x).Mirrors g ((O.excerpt x).alone (fresh configs desk terms) moves)
      ((fresh configs desk terms).run moves) := by
  induction moves using List.reverseRecOn with
  | nil => exact ⟨_, mirrors_fresh O x configs desk terms _⟩
  | append_singleton moves m ih =>
    have before : ∀ m ∈ moves, m.startsSweep = false := fun m hm => quiet m (List.mem_append_left _ hm)
    obtain ⟨g, mirrors⟩ := ih h.init before
    by_cases shown : (O.excerpt x).showsMove ((fresh configs desk terms).run moves) m
    · exact ⟨g, h.mirrors_step mirrors shown⟩
    · have still := quiet_run (w := fresh configs desk terms) (fun _ => rfl) before
      rw [Excerpt.alone_concat, if_neg shown, run_concat]
      refine h.last.beside still (quiet_step still ?_) mirrors shown
      exact quiet m (List.mem_append_right _ (List.mem_singleton_self m))

end Owners

end TunerBroker
