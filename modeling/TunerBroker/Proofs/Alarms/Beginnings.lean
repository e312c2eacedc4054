import TunerBroker.Proofs.Opens.Cancellation
import TunerBroker.Proofs.Alarms.Loudness

/-! Streams up to the first call that opens or closes them. Nothing else takes a stream out of the unopened
state, so that whoever comes first finds it unopened; and the stream of an open by a single connect is found
so, since nobody else comes near it. -/

namespace TunerBroker

namespace System

variable {m : Move} {moves : List Move} {w v : System} {c d : CallId} {a : Acquisition} {s : StreamId}
  {l : List OpenMove} {wait : OpenWait} {token : Option Token}

/-- A call has begun to open the stream. -/
def HasOpened (w : System) (moves : List Move) (s : StreamId) : Prop :=
  w.Sees (fun v m => ∃ c token u, m = .turn (.call c) ∧ v.BeginsOpen c s token u) moves

/-- A call has begun to close the stream. -/
def HasClosed (w : System) (moves : List Move) (s : StreamId) : Prop :=
  w.Sees (fun v m => ∃ c u, m = .turn (.call c) ∧ v.BeginsClose c s u) moves

/-- With this move a call begins to open the stream, or to close it. -/
inductive Begins (w : System) (m : Move) (s : StreamId) : Prop where
  | opens {c : CallId} {token : Option Token} {v : System} (turn : m = .turn (.call c))
      (begins : w.BeginsOpen c s token v)
  | closes {c : CallId} {v : System} (turn : m = .turn (.call c)) (begins : w.BeginsClose c s v)

/-! ### What a turn does to an unopened stream -/

theorem Wired.not_unopened {j : Job} {J : CallId → Option (StreamId × Job)} (h : w.Wired J)
    (job : J c = some (s, j)) : (w.stream s).lifecycle ≠ .unopened := by
  rcases (h.manned job).lifecycle with hl | hl <;> rw [hl] <;> rintro ⟨⟩

theorem Wired.begins_turnOpening (h : w.Wired w.jobs) (hs : s < w.streams.size)
    (place : w.phaseOf c = .opening a s l wait) (unopened : (w.stream s).lifecycle = .unopened)
    (left : ((w.turnOpening c a s l wait).stream s).lifecycle ≠ .unopened) :
    w.Begins (.turn (.call c)) s := by
  have fades : ∀ {v}, Fades {s} w v → (v.stream s).lifecycle = .unopened := fun f =>
    (f.lifecycle s hs).trans unopened
  have mem : s ∈ ({s} : Set StreamId) := Set.mem_singleton s
  have busy : ∀ {j}, wait.job? = some j → w.Begins (.turn (.call c)) s := fun hj =>
    absurd unopened (h.not_unopened (c := c) (by rw [jobs, place, Phase.job?, hj]; rfl))
  cases wait with
  | nowhere =>
    cases l with
    | nil => exact absurd (fades (fades_concludeOpen mem w c a)) left
    | cons move rest =>
      cases move with
      | pause ms => exact absurd (fades ((Fades.refl w).setPhase c _)) left
      | fail e => exact absurd (fades ((Fades.refl w).failOpen mem c a e)) left
      | connect token => exact .opens rfl (.move place)
      | exhaust =>
        refine absurd (fades ?_) left
        simp only [turnOpening, nextMove]
        split
        · rename_i n hn
          exact ((Fades.refl w).deliver (by rw [(h.own_connection hn).2]; exact mem) _).setPhase c _
        · exact (Fades.refl w).setPhase c _
      | close => exact .closes rfl (.move place)
  | outside => exact absurd unopened left
  | pausing due | ending => exact absurd (fades ((Fades.refl w).setPhase c _)) left
  | dialing d => exact busy rfl
  | closing stage => exact busy rfl

/-- A stream that a turn takes out of the unopened state is one that the call begins to open or to close. -/
theorem Regular.begins_turnCall (h : w.Regular) (unopened : (w.stream s).lifecycle = .unopened)
    (left : ((w.turnCall c (w.phaseOf c)).stream s).lifecycle ≠ .unopened) :
    w.Begins (.turn (.call c)) s := by
  have hs : s < w.streams.size := lt_of_lifecycle (by rw [unopened]; rintro ⟨⟩)
  have fades : ∀ {v}, Fades Set.univ w v → (v.stream s).lifecycle = .unopened := fun f =>
    (f.lifecycle s hs).trans unopened
  have reached : s ∈ w.reach c := by
    by_contra far
    rw [(h.wired.paces_turnCall (m := .turn (.call c)) c).others s far hs] at left
    exact left unopened
  have busy : ∀ {j}, (w.phaseOf c).job? = some (s, j) → w.Begins (.turn (.call c)) s := fun job =>
    absurd unopened (h.wired.not_unopened (c := c) job)
  have ahead : s ∈ (w.phaseOf c).ahead → w.Begins (.turn (.call c)) s := fun mem => by
    rw [h.poised.ahead mem] at unopened
    cases unopened
  simp only [reach] at reached
  cases hp : w.phaseOf c with
  | admission ctx a =>
    rw [hp] at left
    exact absurd (fades (fades_enter w c ctx a)) left
  | seeking a =>
    rw [hp] at left
    exact absurd (fades (fades_seek fun _ _ => Set.mem_univ _)) left
  | waiting a o =>
    rw [hp] at left
    exact absurd (fades (fades_endWait w c a o)) left
  | releasing i =>
    rw [hp] at left
    exact absurd (fades (fades_release fun _ _ => Set.mem_univ _)) left
  | opening a t moves wait =>
    rw [hp] at left reached
    obtain rfl := List.mem_singleton.1 reached
    exact h.wired.begins_turnOpening hs hp unopened left
  | rejecting t stage e =>
    rw [hp] at reached busy
    obtain rfl := List.mem_singleton.1 reached
    cases stage with
    | none => exact .closes rfl (.reject hp)
    | some stage => exact busy rfl
  | tearing t stage =>
    rw [hp] at reached busy ahead
    obtain rfl := List.mem_singleton.1 reached
    cases stage with
    | none => exact ahead (List.mem_singleton_self s)
    | some stage => exact busy rfl
  | sweepStart => rw [hp] at reached; cases reached
  | sweeping current left n =>
    rw [hp] at reached busy ahead
    rcases List.mem_append.1 reached with here | later
    · rcases current with - | ⟨t, stage⟩
      · cases here
      · obtain rfl := List.mem_singleton.1 here
        exact busy rfl
    · exact ahead later
  | dialStart t token =>
    rw [hp] at reached
    obtain rfl := List.mem_singleton.1 reached
    exact .opens rfl (.alone hp)
  | dialing t d =>
    rw [hp] at reached busy
    obtain rfl := List.mem_singleton.1 reached
    exact busy rfl
  | closeStart t =>
    rw [hp] at reached
    obtain rfl := List.mem_singleton.1 reached
    exact .closes rfl (.alone hp)
  | closing t stage =>
    rw [hp] at reached busy
    obtain rfl := List.mem_singleton.1 reached
    exact busy rfl
  | finished o => rw [hp] at reached; cases reached
  | abandoned => rw [hp] at reached; cases reached

/-- Nothing but a call that begins to open or to close a stream takes it out of the unopened state. -/
theorem Regular.begins (h : w.Regular) (unopened : (w.stream s).lifecycle = .unopened)
    (left : ((w.step m).stream s).lifecycle ≠ .unopened) : w.Begins m s := by
  have hs : s < w.streams.size := lt_of_lifecycle (by rw [unopened]; rintro ⟨⟩)
  have fades : ∀ {S}, Fades S w (w.step m) → w.Begins m s := fun f =>
    absurd ((f.lifecycle s hs).trans unopened) left
  have same : (w.step m).streams = w.streams → w.Begins m s := fun same => by
    rw [stream, same] at left
    exact absurd unopened left
  cases m with
  | turn r =>
    simp only [System.step, System.turn] at left fades
    split at left
    · cases r with
      | call c => exact h.begins_turnCall unopened left
      | pump t => rw [if_pos ‹_›] at fades; exact fades (fades_turnPump w t)
    · exact absurd unopened left
  | start b gated errand =>
    simp only [System.step, System.start] at left
    split at left
    · exact absurd (((fades_begin (S := ∅) w b gated errand).lifecycle s hs).trans unopened) left
    · exact absurd unopened left
  | deliver n e => exact fades ((Fades.refl w).deliver (Set.mem_univ _) e)
  | abandon c => exact fades (fades_abandon fun t _ => Set.mem_univ t)
  | provide c result => exact fades (fades_provide fun t _ => Set.mem_univ t)
  | dropConsumer i => exact fades (S := ∅) (fades_dropConsumer w i)
  | make r config => exact fades (S := ∅) ((Fades.refl w).addStream rfl)
  | letGo t =>
    refine fades (S := Set.univ) (.reap (.setStream (.refl w) (Set.mem_univ t) fun x => ?_) (Set.mem_univ t))
    exact ⟨rfl, id⟩
  | cancel t =>
    refine same ?_
    simp only [System.step]
    split <;> rfl
  | setDesk desk | elapse ms => exact same rfl

/-! ### Along a run -/

theorem hasOpened_concat : w.HasOpened (moves ++ [m]) s ↔ w.HasOpened moves s ∨
    ∃ c token v, m = .turn (.call c) ∧ (w.run moves).BeginsOpen c s token v := sees_concat

theorem hasClosed_concat : w.HasClosed (moves ++ [m]) s ↔ w.HasClosed moves s ∨
    ∃ c v, m = .turn (.call c) ∧ (w.run moves).BeginsClose c s v := sees_concat

/-- A stream that is there is unopened until a call begins to open it or to close it. -/
theorem Regular.unopened_run (h : w.Regular) (empty : w.streams.size = 0)
    (hs : s < (w.run moves).streams.size) (unopened : ¬w.HasOpened moves s) (unclosed : ¬w.HasClosed moves s) :
    ((w.run moves).stream s).lifecycle = .unopened := by
  induction moves using List.reverseRecOn with
  | nil => exact absurd hs (Nat.not_lt.2 (empty ▸ Nat.zero_le s))
  | append_singleton moves m ih =>
    rw [hasOpened_concat, not_or] at unopened
    rw [hasClosed_concat, not_or] at unclosed
    rw [run_concat] at hs ⊢
    have here := h.run moves
    by_contra left
    rcases Nat.lt_or_ge s (w.run moves).streams.size with old | new
    · cases here.begins (ih old unopened.1 unclosed.1) left with
      | opens turn begins => exact unopened.2 ⟨_, _, _, turn, begins⟩
      | closes turn begins => exact unclosed.2 ⟨_, _, turn, begins⟩
    · exact left ((Stream.state_eq_iff (by rintro ⟨⟩)).1 ((here.wired.paces_step m).made s hs new))

/-- A stream that is there is neither closing nor closed until a call begins to close it. -/
theorem Regular.isDone_run (h : w.Regular) (empty : w.streams.size = 0)
    (hs : s < (w.run moves).streams.size) (unclosed : ¬w.HasClosed moves s) :
    ((w.run moves).stream s).state.isDone = false := by
  induction moves using List.reverseRecOn with
  | nil => exact absurd hs (Nat.not_lt.2 (empty ▸ Nat.zero_le s))
  | append_singleton moves m ih =>
    rw [hasClosed_concat, not_or] at unclosed
    rw [run_concat] at hs ⊢
    have here := h.run moves
    rcases Nat.lt_or_ge s (w.run moves).streams.size with old | new
    · refine Bool.eq_false_of_not_eq_true fun done => ?_
      obtain ⟨c, turn, -, v, begins, -⟩ := (here.wired.letsIn_iff m s).2 ⟨ih old unclosed.1, done⟩
      exact unclosed.2 ⟨c, v, turn, begins⟩
    · rw [(here.wired.paces_step m).made s hs new]
      rfl

/-! ### Opens by a single connect -/

/-- What a call that is opening a stream has to itself. -/
theorem Custody.sole_opening (g : w.Custody) (place : w.phaseOf c = .opening a s l wait)
    (holds : s ∈ (w.phaseOf d).owns ∨ s ∈ (w.phaseOf d).borrows) : d = c := by
  have own : s ∈ w.kept (.call c) := by
    rw [kept, place]
    exact List.mem_singleton_self s
  rcases holds with owns | borrows
  · exact Keeper.call.inj (g.unique (o := .call d) owns own)
  · exact absurd borrows (g.unlent own)

theorem BeginsOpen.keeps (h : w.BeginsOpen c s token v) :
    s ∈ (w.phaseOf c).owns ∨ s ∈ (w.phaseOf c).borrows := by
  cases h with
  | alone place => exact .inr (by rw [place]; exact List.mem_singleton_self s)
  | move place | atOnce place => exact .inl (by rw [place]; exact List.mem_singleton_self s)

theorem BeginsClose.keeps (h : w.BeginsClose c s v) :
    s ∈ (w.phaseOf c).owns ∨ s ∈ (w.phaseOf c).borrows := by
  cases h with
  | alone place => exact .inr (by rw [place]; exact List.mem_singleton_self s)
  | reject place | tear place | move place | atOnce place =>
    exact .inl (by rw [place]; exact List.mem_singleton_self s)
  | sweep place => exact .inl (by rw [place]; exact List.mem_cons_self)

/-- Opens by a single connect find their streams unopened, as they have made them. -/
structure Simple (w : System) : Prop where
  heeds : ∀ {c a s l wait}, w.phaseOf c = .opening a s l wait → a.IsPlain → (w.phaseOf c).Heeds
  unopened : ∀ {c a s l}, w.phaseOf c = .opening a s l .nowhere → a.IsPlain →
    (w.stream s).lifecycle = .unopened

/-- With the turn in which it begins to be opened or closed, a stream leaves its place in the open. -/
theorem Regular.leaves (h : w.Regular) (place : w.phaseOf c = .opening a s l .nowhere)
    (heeds : (w.phaseOf c).Heeds) (unopened : (w.stream s).lifecycle = .unopened)
    (left : ((w.step m).stream s).lifecycle ≠ .unopened) : (w.step m).phaseOf c ≠ w.phaseOf c := by
  intro same
  rw [place] at heeds
  obtain ⟨rfl, -⟩ | ⟨-, d, ⟨⟩, -⟩ := heeds
  have begins := h.begins unopened left
  cases begins with
  | @opens d token v turn begins =>
    obtain rfl := h.sound.custody.sole_opening place begins.keeps
    have still : (v.stream s).lifecycle = .unopened := by
      cases begins with
      | alone place' | atOnce place' => rw [place] at place'; cases place'
      | move => exact unopened
    subst turn
    cases fired : w.hasFired token with
    | true =>
      have result := (begins.cancelled still fired).result
      rw [same, place] at result
      cases result
    | false =>
      obtain ⟨p, dialing, stepped⟩ := begins.asks still fired
      have hp : (w.step (.turn (.call d))).phaseOf d = p := by
        rw [stepped, phaseOf_setPhase, if_pos ⟨rfl, begins.lt⟩]
      rw [← hp, same, place] at dialing
      cases dialing with
      | alone place' | within place' => cases place'
  | @closes d v turn begins =>
    obtain rfl := h.sound.custody.sole_opening place begins.keeps
    cases begins with
    | alone place' | reject place' | tear place' | sweep place' | move place' | atOnce place' =>
      rw [place] at place'
      cases place'

/-- An open that goes on is one for the same wish. -/
theorem opening_step (hp : (w.step m).phaseOf c = .opening a s l wait) :
    (w.phaseOf c).isOpening = false ∨ ∃ s' l' wait', w.phaseOf c = .opening a s' l' wait' := by
  cases opening : (w.phaseOf c).isOpening with
  | false => exact .inl rfl
  | true =>
    have hc : c < w.calls.size := w.lt_of_phaseOf c fun hn => by rw [hn] at opening; cases opening
    rcases wish_step hc m with none | same
    · rw [hp] at none
      cases none
    · rw [hp] at same
      cases hq : w.phaseOf c with
      | opening a' s' l' wait' =>
        rw [hq] at same
        cases same
        exact .inr ⟨s', l', wait', rfl⟩
      | _ => rw [hq] at opening; cases opening

theorem Simple.step (g : w.Simple) (h : w.Regular) (faithful : (w.step m).Faithful) :
    (w.step m).Simple where
  heeds {c a s l wait} hp plain := by
    rcases opening_step hp with idle | ⟨s', l', wait', place⟩
    · obtain ⟨rfl, rfl, -⟩ := planned_step idle hp
      obtain ⟨r, token, config, rfl⟩ := plain
      rw [hp]
      exact .inl ⟨rfl, rfl⟩
    · have heeds := g.heeds place plain
      by_cases actor : m.actor = some c
      · rcases dials_step place heeds actor with same | dials
        · rw [same]
          exact heeds
        · rw [hp] at dials ⊢
          cases dials with
          | asks d token => exact .inr ⟨rfl, d, rfl, token⟩
      · rw [(step_other (w.lt_of_phaseOf c (by rw [place]; rintro ⟨⟩)) actor).1]
        exact heeds
  unopened {c a s l} hp plain := by
    have outside : a.plan.outside = false := by
      obtain ⟨r, token, config, rfl⟩ := plain
      rfl
    rcases opening_step hp with idle | ⟨s', l', wait', place⟩
    · obtain ⟨-, -, rfl⟩ := planned_step idle hp
      exact (Stream.state_eq_iff (by rintro ⟨⟩)).1
        ((h.wired.paces_step m).made _ (faithful.opens hp outside).2.1 (Nat.le_refl _))
    · have heeds := g.heeds place plain
      have same : (w.step m).phaseOf c = w.phaseOf c := by
        by_cases actor : m.actor = some c
        · refine (dials_step place heeds actor).resolve_right fun dials => ?_
          rw [hp] at dials
          cases dials
        · exact (step_other (w.lt_of_phaseOf c (by rw [place]; rintro ⟨⟩)) actor).1
      have here : w.phaseOf c = .opening a s l .nowhere := same ▸ hp
      by_contra left
      exact h.leaves here heeds (g.unopened here plain) left same

theorem Simple.run (g : w.Simple) (h : w.Regular) (f : w.Faithful) (moves : List Move) :
    (w.run moves).Simple := by
  induction moves generalizing w with
  | nil => exact g
  | cons m moves ih => exact ih (g.step h (f.step m)) (h.step m) (f.step m)

theorem simple_fresh (configs : List BrokerConfig) (desk : AccessDesk) (terms : List TunerTerms) :
    (fresh configs desk terms).Simple :=
  ⟨by rintro _ _ _ _ _ ⟨⟩, by rintro _ _ _ _ ⟨⟩⟩

end System

end TunerBroker
