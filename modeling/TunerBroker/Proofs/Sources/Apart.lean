import TunerBroker.Proofs.Consumers.Attachment
import TunerBroker.Proofs.Sources.Projection
import Mathlib.Algebra.BigOperators.Group.Finset.Piecewise

/-! Sources do not interfere. A move about one source leaves every other as it is, and what it does depends
on its own source only; a run has the same results for a source without the moves about others, and what
a broker counts is what it would count for each of its sources by itself. -/

namespace TunerBroker

/-- The source is in `w'` as it is in `w`: its slot with the mark of an open, the streams listed and
opened for it, and their consumers. -/
structure System.Leaves (w : System) (x : Source) (w' : System) : Prop where
  slot : w'.slot x.1 x.2 = w.slot x.1 x.2
  handles : ∀ s ∈ w.listedAt x.1 x.2, w'.stream s = w.stream s
  count : w'.consumerCount x.1 x.2 = w.consumerCount x.1 x.2
  opens : ∀ c s, w.OpensFor c s x.1 x.2 → w'.phaseOf c = w.phaseOf c ∧ w'.stream s = w.stream s
  consumers : ∀ i y, w.consumers.get? i = some y → (y.broker, y.key) = x →
    w'.consumers.get? i = some y

namespace Owners

open TunerBroker.System

/-- The keys that the first `n` calls are for on the broker. -/
def keysOn (O : Owners) (n : Nat) (b : BrokerId) : Finset SourceKey :=
  ((List.range n).filterMap fun c => (O.call c).bind fun x => if x.1 = b then some x.2 else none).toFinset

variable {O : Owners} {w : System} {m : Move} {moves : List Move} {x y : Source} {b : BrokerId}
  {k : SourceKey} {n : Nat} {configs : List BrokerConfig} {desk : AccessDesk} {terms : List TunerTerms}

theorem mem_keysOn : k ∈ O.keysOn n b ↔ ∃ c < n, O.call c = some (b, k) := by
  simp only [keysOn, List.mem_toFinset, List.mem_filterMap, List.mem_range, Option.bind_eq_some_iff]
  refine exists_congr fun c => and_congr_right fun _ => ⟨?_, fun h => ⟨_, h, if_pos rfl⟩⟩
  rintro ⟨⟨b', k'⟩, call, key⟩
  split at key
  · rename_i broker
    obtain rfl : b' = b := broker
    rw [call, ← Option.some.inj key]
  · cases key

theorem Tells.leaves (h : O.Tells w m) (own : O.mover w m = some x) (other : y ≠ x) :
    w.Leaves y (w.step m) := by
  have keeps := h.keeps (h.still own) (x := y) fun same => other (Option.some.inj (same.symm.trans own))
  refine ⟨keeps.slot, fun s hs => keeps.stream s (h.fits.lists hs), keeps.consumerCount h.fits, ?_, ?_⟩
  · rintro c s ⟨broker, a, moves, wait, place, key⟩
    have source : (w.brokerOf c, a.key) = y := Prod.ext broker key
    refine ⟨keeps.phaseOf c ?_, keeps.stream s ?_⟩
    · rw [(h.fits.places c).wish a (by rw [place]; rfl), source]
    · rw [h.fits.opened place, source]
  · rintro i z there rfl
    obtain ⟨z', there', follows⟩ := consumer_step h.regular.ledger h.regular.sound m there
    rw [keeps.consumer i, there]
    rw [h.knows.consumer there', follows.broker, follows.key]

/-! ### Counters -/

/-- A broker counts only with a move about one of its sources. -/
theorem Tells.counts (h : O.Tells w m) (quiet : ∀ c, (w.phaseOf c).isSweep = false) (b : BrokerId) :
    (w.step m).countersOf b = w.countersOf b ∨
      ∃ c < w.calls.size, O.mover w m = O.call c ∧ ∃ k, O.call c = some (b, k) := by
  rcases w.step_course m with ⟨c, actor, p, ticks, x, course, adv⟩ | ⟨b', gated, e, -, -, he⟩ | ⟨-, hushed⟩
  · have suits := h.fits.places c
    -- A call that has its broker count is about a source there.
    have about : ticks = [] ∨ w.phaseOf c ≠ .abandoned ∧ ∃ k, O.call c = some (w.brokerOf c, k) := by
      cases course with
      | reuse place | fail place | give place =>
        exact .inr ⟨by simp [place], _, suits.wish _ (by rw [place]; rfl)⟩
      | torn result place =>
        refine .inr ⟨by simp [place], suits.owns (quiet c) ?_⟩
        rw [place]
        exact List.cons_ne_nil _ _
      | swept result place =>
        have awake := quiet c
        rw [place] at awake
        cases awake
      | _ => exact .inl rfl
    rw [adv.counters]
    split
    · rename_i here
      rcases about with rfl | ⟨begun, k, call⟩
      · exact .inl rfl
      · exact .inr ⟨c, w.lt_of_phaseOf c begun, mover_of_actor actor, k, here.1 ▸ call⟩
    · exact .inl rfl
  · exact .inl (by rw [he, countersOf_begin])
  · exact .inl (hushed.counters b)

/-- By itself a source is counted with a move what the broker counts with it, if the move is about the
source, and nothing otherwise. -/
theorem Follows.countersOf_alone (h : O.Follows (fresh configs desk terms) (moves ++ [m]))
    (quiet : ∀ m ∈ moves, m.startsSweep = false) (b : BrokerId) (x : Source) :
    ((O.excerpt x).alone (fresh configs desk terms) (moves ++ [m])).countersOf b =
      ((O.excerpt x).alone (fresh configs desk terms) moves).countersOf b +
        if O.mover ((fresh configs desk terms).run moves) m = some x then
          ((fresh configs desk terms).run (moves ++ [m])).countersOf b -
            ((fresh configs desk terms).run moves).countersOf b
        else 0 := by
  have tells := h.last
  have still := quiet_run (w := fresh configs desk terms) (fun _ => rfl) quiet
  by_cases shown : (O.excerpt x).showsMove ((fresh configs desk terms).run moves) m
  · obtain ⟨g, mirrors⟩ := h.init.mirrors quiet x
    have before := mirrors.counters b
    have after := (h.mirrors_step mirrors shown).counters b
    split
    · rw [after, before, add_sub_add_left_eq_sub, add_sub_cancel]
    · rename_i other
      -- What changes the surroundings only is not counted.
      have same : ((fresh configs desk terms).run (moves ++ [m])).countersOf b =
          ((fresh configs desk terms).run moves).countersOf b := by
        rw [run_concat]
        refine (tells.counts still b).resolve_right ?_
        rintro ⟨c, -, own, k, call⟩
        have ambient := ((O.show_excerpt x).mover shown).resolve_left other
        cases m with
        | cancel | setDesk | elapse => cases own.trans call
        | _ => cases ambient
      rw [after, before] at same
      rw [add_zero, add_left_cancel same]
  · rw [Excerpt.alone_concat, if_neg shown]
    split
    · rename_i own
      rcases (O.show_excerpt x).mover_of_hidden tells (fun c _ => still c) shown with idle | ⟨other, -⟩
      · rw [run_concat, idle, sub_self, add_zero]
      · exact absurd own other
    · rw [add_zero]

/-- A broker counts what it would count for each of its sources by itself. -/
theorem Follows.counters (h : O.Follows (fresh configs desk terms) moves)
    (quiet : ∀ m ∈ moves, m.startsSweep = false) (b : BrokerId) (keys : Finset SourceKey)
    (all : ∀ c < ((fresh configs desk terms).run moves).calls.size, ∀ k, O.call c = some (b, k) → k ∈ keys) :
    ((fresh configs desk terms).run moves).countersOf b =
      ∑ k ∈ keys, ((O.excerpt (b, k)).alone (fresh configs desk terms) moves).countersOf b := by
  induction moves using List.reverseRecOn with
  | nil =>
    refine (countersOf_fresh configs desk terms b).trans (Finset.sum_eq_zero fun k _ => ?_).symm
    exact countersOf_fresh configs desk _ b
  | append_singleton moves m ih =>
    have before : ∀ m ∈ moves, m.startsSweep = false := fun m hm => quiet m (List.mem_append_left _ hm)
    have still := quiet_run (w := fresh configs desk terms) (fun _ => rfl) before
    have known : ∀ c < ((fresh configs desk terms).run moves).calls.size, ∀ k,
        O.call c = some (b, k) → k ∈ keys := fun c hc => all c (by
      rw [run_concat]
      exact (step_keeps hc m).1)
    have sum := ih h.init before known
    simp only [h.countersOf_alone before, Finset.sum_add_distrib, ← sum]
    rcases h.last.counts still b with same | ⟨c, hc, own, k, call⟩
    · rw [run_concat, same, sub_self]
      simp
    · have key := known c hc k call
      simp only [own, call, Option.some.injEq, Prod.mk.injEq, true_and, Finset.sum_ite_eq, key, if_true,
        add_sub_cancel]

/-! ### All together -/

/-- Sources do not interfere. What belongs to which is told by what calls are made for, what slots list and
what consumers are of. A move about one source leaves every other as it is, and does the same wherever its
own source is the same, if the tuner answers alike. In a run without a sweep all that can be seen of a
source is what can be seen of it in the run by itself, and counters are sums over the sources. -/
theorem sources_stay_apart (configs : List BrokerConfig) (desk : AccessDesk) (terms : List TunerTerms)
    (moves : List Move) (x : Source) :
    let w₀ := fresh configs desk terms
    let O := w₀.owners moves
    (∀ pre post, moves = pre ++ post → (w₀.run pre).Knows O ∧ O.Fits (w₀.run pre)) ∧
    (∀ pre m post, moves = pre ++ m :: post →
      ((w₀.run pre).calls.size < ((w₀.run pre).step m).calls.size →
        ∃ b gated e, m = .start b gated e ∧ O.call (w₀.run pre).calls.size = O.errand b e) ∧
      (O.mover (w₀.run pre) m = some x → ∀ y, y ≠ x → (w₀.run pre).Leaves y ((w₀.run pre).step m)) ∧
      ∀ E v g, O.Show x E → (∃ configs' desk' terms' moves', v = (fresh configs' desk' terms').run moves') →
        E.Mirrors g v (w₀.run pre) → E.showsMove (w₀.run pre) m →
        ((w₀.run pre).connections.size < ((w₀.run pre).step m).connections.size →
          v.terms.headD {} = (w₀.run pre).terms.headD {}) →
        E.Mirrors g (v.step (E.move m)) ((w₀.run pre).step m)) ∧
    ((∀ m ∈ moves, m.startsSweep = false) → ∀ pre post, moves = pre ++ post →
      (O.excerpt x).Alike x ((O.excerpt x).alone w₀ pre) (w₀.run pre) ∧
      ∀ b, (w₀.run pre).countersOf b =
        ∑ k ∈ O.keysOn (w₀.run pre).calls.size b, ((O.excerpt (b, k)).alone w₀ pre).countersOf b) := by
  have reg := regular_fresh configs desk terms
  have fits : ∀ O : Owners, O.Fits (fresh configs desk terms) := fun O => fits_fresh O configs desk terms
  refine ⟨?_, ?_, ?_⟩
  · rintro pre post rfl
    exact ⟨reg.knows pre post, fits_run reg pre post (fits _)⟩
  · rintro pre m post rfl
    have tells := tells_run reg pre m post (fits _)
    refine ⟨tells.began, fun own y other => tells.leaves own other, ?_⟩
    rintro E v g hE ⟨configs', desk', terms', moves', rfl⟩ mirrors shown answers
    exact hE.mirrors_step tells ((regular_fresh configs' desk' terms').run moves').wired mirrors shown
      answers
  · rintro quiet pre post rfl
    have follows := follows_owners configs desk terms pre post
    have before : ∀ m ∈ pre, m.startsSweep = false := fun m hm => quiet m (List.mem_append_left _ hm)
    have now := fits_run reg pre post (fits _)
    obtain ⟨g, mirrors⟩ := follows.mirrors before x
    refine ⟨mirrors.alike (decide_eq_true rfl) fun i hi y there => ?_, fun b => ?_⟩
    · exact decide_eq_true ((now.consumers there).trans (of_decide_eq_true hi))
    · exact follows.counters before b _ fun c hc k call => mem_keysOn.2 ⟨c, hc, call⟩

/-- A request for another channel of the host. -/
def otherRequest : StreamRequest := { sampleRequest with key := ⟨"host", "other"⟩ }

/-- The tuner refuses the first connection and gives the second. -/
def refusesFirst : System := fresh [{}] {} [{ failure := some "busy" }, {}]

/-- Two calls come for two sources. The second is first with the tuner, and is refused. -/
def twoSources : List Move :=
  [.start 0 false sampleErrand, .start 0 false (.acquire (.ofRequest otherRequest none {})),
    .turn (.call 1), .turn (.call 0), .turn (.call 1), .turn (.call 0), .turn (.call 1), .turn (.call 0)]

theorem sources_stay_apart_twoSources :
    (refusesFirst.run (twoSources.take 7)).Leaves (0, otherRequest.key)
      ((refusesFirst.run (twoSources.take 7)).step (.turn (.call 0))) ∧
    (∃ g, ((refusesFirst.owners twoSources).excerpt (0, sampleRequest.key)).Mirrors g
      ((((refusesFirst.owners twoSources).excerpt (0, sampleRequest.key)).alone refusesFirst
        (twoSources.take 7)).step (.turn (.call 0)))
      ((refusesFirst.run (twoSources.take 7)).step (.turn (.call 0)))) ∧
    (((refusesFirst.owners twoSources).excerpt (0, sampleRequest.key)).alone refusesFirst
      twoSources).phaseOf 0 = .finished (.attached 0) ∧
    (refusesFirst.run twoSources).countersOf 0 =
      (((refusesFirst.owners twoSources).excerpt (0, sampleRequest.key)).alone refusesFirst
        twoSources).countersOf 0 +
      (((refusesFirst.owners twoSources).excerpt (0, otherRequest.key)).alone refusesFirst
        twoSources).countersOf 0 := by
  obtain ⟨-, steps, runs⟩ := sources_stay_apart [{}] {} [{ failure := some "busy" }, {}] twoSources
    (0, sampleRequest.key)
  obtain ⟨-, leaves, alike⟩ := steps (twoSources.take 7) (.turn (.call 0)) [] rfl
  obtain ⟨results, counters⟩ := runs (by decide) twoSources [] rfl
  have keys : (refusesFirst.owners twoSources).keysOn 2 0 = {sampleRequest.key, otherRequest.key} := by
    decide
  obtain ⟨g, mirrors⟩ := (follows_owners [{}] {} [{ failure := some "busy" }, {}] (twoSources.take 7)
    [.turn (.call 0)]).mirrors (by decide) (0, sampleRequest.key)
  refine ⟨leaves (by decide) _ (by decide), ⟨g, ?_⟩, results.results 0 rfl, ?_⟩
  · exact alike _ _ g (show_excerpt _ _) ⟨_, _, _, _, rfl⟩ mirrors (by decide)
      fun more => absurd more (by decide)
  · exact (counters 0).trans ((Finset.sum_congr keys fun _ _ => rfl).trans (Finset.sum_pair (by decide)))

end Owners

end TunerBroker
