import TunerBroker.Proofs.Closes.DepartureRuns

/-! What becomes of the releases of a run in which consumers leave, and of their streams. A release comes
out with its first turn and without waiting, but for the one that counts out the last consumer of a stream:
that one closes the stream, and nobody else does. -/

namespace TunerBroker

theorem Move.Departs.turn_of_actor {m : Move} {b : BrokerId} {I : Finset ConsumerId} {c : CallId}
    (h : m.Departs b I) (actor : m.actor = some c) : m = .turn (.call c) := by
  cases m with
  | turn r =>
    cases r with
    | call d => rw [Option.some.inj actor]
    | pump s => cases actor
  | start | elapse => cases actor
  | _ => cases h

namespace System

variable {m : Move} {moves : List Move} {w v : System} {b : BrokerId} {c d : CallId} {s : StreamId}
  {i : ConsumerId} {x : Consumer} {I : Finset ConsumerId}

/-- The call that a move hands a consumer over to, if it does. -/
def handsOver (i : ConsumerId) (w : System) : Move → List CallId
  | .start b _ (.release j) => if j = i ∧ (Errand.release j).isAllowed w b then [w.calls.size] else []
  | _ => []

/-- The call that takes the close of a stream to its end with a move, and the result. -/
def closersOf (s : StreamId) (w : System) (m : Move) : List (CallId × Except StreamError Unit) :=
  m.turns.flatMap fun c => ((w.tornDown c).filter fun x => x.1 = s).map fun x => (c, x.2)

/-- In the course of the run the call never has to wait. -/
def Unwaiting (w : System) (moves : List Move) (c : CallId) : Prop :=
  ∀ l, l <+: moves → ((w.run l).phaseOf c).isSuspended = false

theorem Unwaiting.concat (h : w.Unwaiting moves c)
    (awake : ((w.run (moves ++ [m])).phaseOf c).isSuspended = false) : w.Unwaiting (moves ++ [m]) c := by
  intro l hl
  rcases List.prefix_concat_iff.1 hl with rfl | hl
  · exact awake
  · exact h l hl

/-- Before it begins a call has nothing to wait for. -/
theorem unwaiting_of_unborn (unborn : (w.run moves).calls.size ≤ c) : w.Unwaiting moves c := by
  rintro l ⟨rest, rfl⟩
  have before : (w.run l).calls.size ≤ c := by
    by_contra hn
    have born := (run_keeps (Nat.lt_of_not_le hn) rest).1
    rw [← run_append] at born
    exact absurd born (Nat.not_lt.2 unborn)
  rw [phaseOf_of_size_le _ _ before]
  rfl

/-- A consumer that is not held is not handed over. -/
theorem handsOver_eq_nil (there : v.consumers.get? i = some x) (gone : x.standing ≠ .held) (m : Move) :
    v.handsOver i m = [] := by
  cases m with
  | start b' gated errand =>
    cases errand with
    | release j =>
      refine if_neg ?_
      rintro ⟨rfl, allowed⟩
      simp [Errand.isAllowed, there, gone] at allowed
    | _ => rfl
  | _ => rfl

theorem closersOf_eq_nil (none : ∀ c ∈ m.turns, v.tornDown c = []) (s : StreamId) :
    v.closersOf s m = [] :=
  List.flatMap_eq_nil_iff.2 fun c hc => by rw [none c hc, List.filter_nil, List.map_nil]

/-! ### Releases -/

/-- How far a consumer of the stream `s` has come in the run: it is held still, its release is about to take
its turn, has come out with that turn, or has counted out the last consumer of the stream. -/
inductive Tale (w : System) (b : BrokerId) (moves : List Move) (i : ConsumerId) (s : StreamId) : Prop where
  | held {x : Consumer} (unasked : ∀ gated, .start b gated (.release i) ∉ moves)
      (sent : w.along (handsOver i) moves = []) (there : (w.run moves).consumers.get? i = some x)
      (standing : x.standing = .held)
  | waits (c : CallId) (sent : w.along (handsOver i) moves = [c])
      (place : (w.run moves).phaseOf c = .releasing i) (prompt : w.Unwaiting moves c)
  | passes {x : Consumer} (c : CallId) (sent : w.along (handsOver i) moves = [c])
      (past : (w.run moves).phaseOf c = .finished .done) (prompt : w.Unwaiting moves c)
      (there : (w.run moves).consumers.get? i = some x) (standing : x.standing = .released)
  | takes {x : Consumer} (c : CallId) (sent : w.along (handsOver i) moves = [c])
      (last : c ∈ w.along (empties s) moves)
      (there : (w.run moves).consumers.get? i = some x) (standing : x.standing = .released)

/-- A consumer that is held and not asked for stays held. -/
theorem Departure.held (h : Departure w b I m v (v.step m)) (l : v.Ledger)
    (there : v.consumers.get? i = some x) (standing : x.standing = .held)
    (unasked : ∀ gated, m ≠ .start b gated (.release i)) : (v.step m).consumers.get? i = some x := by
  -- A consumer that is held has no release at work on it.
  have other : ∀ {c j}, v.phaseOf c = .releasing j → i ≠ j := by
    rintro c _ place rfl
    obtain ⟨y, hy, handed⟩ := l.handed (c := c) (i := i) (by rw [place]; rfl)
    obtain rfl := Option.some.inj (there.symm.trans hy)
    rw [standing] at handed
    cases handed
  have out : ∀ {c j y}, v.phaseOf c = .releasing j → v.CountsOut (v.step m) j y →
      (v.step m).consumers.get? i = some x := fun place out => by
    rw [out.standing, if_neg (other place), there]
  cases h with
  | rests still =>
    rw [still]
    exact there
  | @starts j y gated move mine allowed there' held begun =>
    rw [begun]
    show (v.setStanding j .handedOver).consumers.get? i = some x
    rw [get?_setStanding, if_neg, there]
    rintro rfl
    exact unasked gated move
  | halts move reading stopping ended =>
    rw [ended, endPump]
    split
    · exact there
    · exact there
  | detaches turn mine place there' counted listed others out' => exact out place out'
  | takes takes => exact out takes.place takes.out
  | goesOn turn home left place wears | ends turn home left place wears => rw [wears.consumers, there]

/-- A release that takes its turn comes out with it, or counts out the last consumer of its stream. -/
theorem Departure.turn_releasing (h : Departure w b I (.turn (.call c)) v (v.step (.turn (.call c))))
    (place : v.phaseOf c = .releasing i) :
    (∃ x, v.CountsOut (v.step (.turn (.call c))) i x ∧
      (v.step (.turn (.call c))).phaseOf c = .finished .done) ∨
    ∃ x, TakesLast w b I (.turn (.call c)) v (v.step (.turn (.call c))) c i x := by
  cases h with
  | rests still idle =>
    have past := idle c rfl
    rw [place] at past
    cases past
  | starts move | halts move => cases move
  | detaches turn mine place' there counted listed others out next =>
    obtain rfl := Runner.call.inj (Move.turn.inj turn)
    obtain rfl := Phase.releasing.inj (place'.symm.trans place)
    exact .inl ⟨_, out, next⟩
  | takes takes =>
    obtain rfl := Runner.call.inj (Move.turn.inj takes.turn)
    obtain rfl := Phase.releasing.inj (takes.place.symm.trans place)
    exact .inr ⟨_, takes⟩
  | goesOn turn home left place' | ends turn home left place' =>
    obtain rfl := Runner.call.inj (Move.turn.inj turn)
    rw [place] at place'
    cases place'

/-- A consumer of the run that is held can be handed over to a release. -/
theorem Departing.hands (come : w.Departing b I (w.run moves)) (attends : w.Attends b I) (hi : i ∈ I)
    (there : (w.run moves).consumers.get? i = some x) (standing : x.standing = .held) (gated : Bool) :
    (w.run moves).handsOver i (.start b gated (.release i)) = [(w.run moves).calls.size] ∧
      (w.run (moves ++ [.start b gated (.release i)])).phaseOf (w.run moves).calls.size =
        .releasing i := by
  have seated : b < (w.run moves).brokers.size :=
    lt_of_slot _ b x.key fun he => by
      have listed := come.listed attends hi there (by rw [standing]; rintro ⟨⟩)
      simp [he, Slot.streams] at listed
  have allowed : (Errand.release i).isAllowed (w.run moves) b := by
    simp [Errand.isAllowed, seated, there, standing]
  refine ⟨if_pos ⟨rfl, allowed⟩, ?_⟩
  rw [run_concat, System.step, start, if_pos allowed, phaseOf_begin, if_pos rfl]
  rfl

/-- A consumer that nobody asks for is not handed over. -/
theorem handsOver_of_unasked (departs : m.Departs b I)
    (unasked : ∀ gated, m ≠ .start b gated (.release i)) (v : System) : v.handsOver i m = [] := by
  cases m with
  | start b' gated errand =>
    cases errand with
    | release j =>
      obtain ⟨rfl, -⟩ := departs
      refine if_neg ?_
      rintro ⟨rfl, -⟩
      exact unasked gated rfl
    | _ => rfl
  | _ => rfl

namespace Tale

/-- The release takes its turn. -/
theorem turn (come : w.Departing b I (w.run moves)) (attends : w.Attends b I)
    (hx : w.consumers.get? i = some x) (place : (w.run moves).phaseOf c = .releasing i)
    (sent : w.along (handsOver i) (moves ++ [.turn (.call c)]) = [c]) (prompt : w.Unwaiting moves c) :
    Tale w b (moves ++ [.turn (.call c)]) i x.stream := by
  have here : (Move.turn (.call c)).Departs b I := trivial
  have released : ∀ {y}, (w.run moves).CountsOut ((w.run moves).step (.turn (.call c))) i y →
      (w.run (moves ++ [.turn (.call c)])).consumers.get? i =
        some { y with standing := .released } := fun out => by
    rw [run_concat, out.standing, if_pos rfl]
  rcases (come.departure attends here).turn_releasing place with ⟨y, out, next⟩ | ⟨y, takes⟩
  · rw [← run_concat] at next
    exact .passes c sent next (prompt.concat (by rw [next]; rfl)) (released out) rfl
  · obtain ⟨z, hz, -, stream, -⟩ := come.thins.consumer takes.there
    obtain rfl := Option.some.inj (hz.symm.trans hx)
    refine .takes c sent ?_ (released takes.out) rfl
    rw [along_concat, stream, takes.empties_eq come.regular.ledger (come.few attends)]
    exact List.mem_append_right _ (List.mem_singleton_self c)

/-- With every move the consumer stays where it has come to, or goes on. -/
theorem step (tale : Tale w b moves i x.stream) (come : w.Departing b I (w.run moves))
    (attends : w.Attends b I) (departs : m.Departs b I) (hi : i ∈ I) (hx : w.consumers.get? i = some x) :
    Tale w b (moves ++ [m]) i x.stream := by
  have l := come.regular.ledger
  have released : ∀ {y : Consumer}, (w.run moves).consumers.get? i = some y → y.standing = .released →
      w.along (handsOver i) (moves ++ [m]) = w.along (handsOver i) moves ∧
        ∃ z, (w.run (moves ++ [m])).consumers.get? i = some z ∧ z.standing = .released := by
    intro y there standing
    obtain ⟨z, there', follows⟩ := consumer_step l come.regular.sound m there
    exact ⟨along_concat_nil (handsOver_eq_nil there (by rw [standing]; rintro ⟨⟩) m), z,
      by rw [run_concat, there'], follows.released standing⟩
  cases tale with
  | @held y unasked sent there standing =>
    by_cases asked : ∃ gated, m = .start b gated (.release i)
    · obtain ⟨gated, rfl⟩ := asked
      obtain ⟨hands, place⟩ := come.hands attends hi there standing gated
      refine .waits (w.run moves).calls.size ?_ place
        ((unwaiting_of_unborn (Nat.le_refl _)).concat (by rw [place]; rfl))
      rw [along_concat, sent, hands, List.nil_append]
    · have unasked' : ∀ gated, m ≠ .start b gated (.release i) := fun gated hm => asked ⟨gated, hm⟩
      refine .held (fun gated hm => ?_)
        ((along_concat_nil (handsOver_of_unasked departs unasked' _)).trans sent) ?_ standing
      · rcases List.mem_append.1 hm with hm | hm
        · exact unasked gated hm
        · exact unasked' gated (List.mem_singleton.1 hm).symm
      · rw [run_concat]
        exact (come.departure attends departs).held l there standing unasked'
  | waits c sent place prompt =>
    obtain ⟨y, there, handed⟩ := l.handed (c := c) (i := i) (by rw [place]; rfl)
    have sent' : w.along (handsOver i) (moves ++ [m]) = [c] :=
      (along_concat_nil (handsOver_eq_nil there (by simp [handed]) m)).trans sent
    by_cases actor : m.actor = some c
    · obtain rfl := departs.turn_of_actor actor
      exact turn come attends hx place sent' prompt
    · have place' : (w.run (moves ++ [m])).phaseOf c = .releasing i := by
        rw [run_concat, (step_other (lt_of_phaseOf _ _ (by simp [place])) actor).1, place]
      exact .waits c sent' place' (prompt.concat (by rw [place']; rfl))
  | passes c sent past prompt there standing =>
    obtain ⟨same, y, there', standing'⟩ := released there standing
    have past' : (w.run (moves ++ [m])).phaseOf c = .finished .done := by
      rw [run_concat, step_over m (by rw [past]; rfl) (lt_of_phaseOf _ _ (by simp [past])), past]
    exact .passes c (same.trans sent) past' (prompt.concat (by rw [past']; rfl)) there' standing'
  | takes c sent last there standing =>
    obtain ⟨same, y, there', standing'⟩ := released there standing
    exact .takes c (same.trans sent) (mem_along_concat last m) there' standing'

end Tale

/-- A call that is about to release a consumer is the one that it was handed over to. -/
theorem Tale.sent_of_releasing (tale : Tale w b moves i s) (l : (w.run moves).Ledger)
    (place : (w.run moves).phaseOf c = .releasing i) : w.along (handsOver i) moves = [c] := by
  have releases : ((w.run moves).phaseOf c).releases? = some i := by rw [place]; rfl
  obtain ⟨y, hy, handed⟩ := l.handed releases
  have elsewhere : ∀ {x : Consumer}, (w.run moves).consumers.get? i = some x →
      x.standing ≠ .handedOver → w.along (handsOver i) moves = [c] := fun there standing => by
    obtain rfl := Option.some.inj (there.symm.trans hy)
    exact absurd handed standing
  cases tale with
  | held unasked sent there standing => exact elsewhere there (by simp [standing])
  | waits d sent place' =>
    have releases' : ((w.run moves).phaseOf d).releases? = some i := by rw [place']; rfl
    rw [sent, l.sole releases releases']
  | passes d sent past prompt there standing | takes d sent last there standing =>
    exact elsewhere there (by simp [standing])

/-- Every consumer of the run has its tale. -/
theorem Departing.tale (h : w.Departing b I w) (attends : w.Attends b I)
    (departs : ∀ m ∈ moves, m.Departs b I) (hi : i ∈ I) (hx : w.consumers.get? i = some x) :
    Tale w b moves i x.stream := by
  refine h.induction (P := fun moves => Tale w b moves i x.stream) attends departs ?_
    fun moves m _ here come _ ih => ?_
  · obtain ⟨y, hy, held, -⟩ := attends.held i hi
    exact .held (by simp) rfl hy held
  · exact ih.step come attends here hi hx

/-! ### Streams -/

/-- A move leaves the close of a stream to its call, or is the turn that takes the close to its end. -/
theorem Departure.closersOf (h : Departure w b I m v (v.step m)) (s : StreamId) :
    (v.closersOf s m = [] ∧ ∀ d, s ∈ (v.phaseOf d).closes → s ∈ ((v.step m).phaseOf d).closes) ∨
    ∃ c stage, m = .turn (.call c) ∧ w.LeftBy I s ∧ v.phaseOf c = .tearing s stage ∧
      v.closersOf s m = [(c, v.shutResult s)] ∧ v.Concludes (v.step m) c s := by
  rcases h.rests_or_ends with ⟨none, -, closes⟩ | ⟨c, t, stage, rfl, -, left, place, torn, ends⟩
  · exact .inl ⟨closersOf_eq_nil none s, fun d hd => closes d hd⟩
  · have closers : v.closersOf s (.turn (.call c)) = if t = s then [(c, v.shutResult t)] else [] := by
      have turns : (Move.turn (.call c)).turns = [c] := rfl
      rw [System.closersOf, turns, List.flatMap_singleton, torn]
      by_cases hs : t = s <;> simp [hs]
    by_cases hs : t = s
    · subst hs
      exact .inr ⟨c, stage, rfl, left, place, closers.trans (if_pos rfl), ends⟩
    · refine .inl ⟨closers.trans (if_neg hs), fun d hd => ?_⟩
      have other : d ≠ c := by
        rintro rfl
        rw [place] at hd
        exact hs (List.mem_singleton.1 hd).symm
      rwa [ends.advance.phaseOf, if_neg other]

/-- How far a stream has come in the run that its consumers `I` leave: some have not left it yet; the release
of the last is closing it; or has closed it. -/
inductive Fate (w : System) (I : Finset ConsumerId) (moves : List Move) (s : StreamId) : Prop where
  | used (some : (w.run moves).unreleased s ≠ 0) (emptied : w.along (empties s) moves = [])
      (closed : w.along (closersOf s) moves = [])
  | closes {i : ConsumerId} {x : Consumer} {c : CallId}
      (none : (w.run moves).unreleased s = 0) (mine : i ∈ I) (there : w.consumers.get? i = .some x)
      (stream : x.stream = s) (sent : c ∈ w.along (handsOver i) moves)
      (emptied : w.along (empties s) moves = [c]) (closed : w.along (closersOf s) moves = [])
      (place : s ∈ ((w.run moves).phaseOf c).closes)
  | past {i : ConsumerId} {x : Consumer} {c : CallId} {result : Except StreamError Unit}
      (none : (w.run moves).unreleased s = 0) (mine : i ∈ I) (there : w.consumers.get? i = .some x)
      (stream : x.stream = s) (sent : c ∈ w.along (handsOver i) moves)
      (emptied : w.along (empties s) moves = [c]) (closed : w.along (closersOf s) moves = [(c, result)])
      (place : (w.run moves).phaseOf c = .finished (.ofClose result))
      (concluded : (w.run moves).Concluded [(s, result)])

/-- As long as it has consumers, nobody closes a stream that they leave. -/
theorem Departing.unclosed (come : w.Departing b I v) (attends : w.Attends b I) (left : w.LeftBy I s)
    (some : v.unreleased s ≠ 0) : s ∉ (v.phaseOf c).closes := by
  intro hs
  obtain ⟨x, hx, here⟩ := List.countP_pos_iff.1 (Nat.pos_iff_ne_zero.2 some)
  obtain ⟨i, hi⟩ := (Table.mem_entries_iff _ _).1 hx
  simp only [decide_eq_true_eq, ne_eq] at here
  obtain ⟨rfl, counted⟩ := here
  have mine : i ∈ I := by
    by_contra hn
    exact hn (left.all i x ((come.thins.apart i hn).symm.trans hi) rfl counted)
  exact (come.regular.poised.sealing come.regular.sound hs).spent.unlisted _ _
    (come.listed attends mine hi counted)

/-- Once nobody is left to count out, nobody is counted out any more. -/
theorem Departure.none_left (h : Departure w b I m v (v.step m)) (reg : v.Regular)
    (few : ∀ s, v.attachments s < 2 ^ 32) (none : v.unreleased s = 0) :
    (v.step m).unreleased s = 0 ∧ v.empties s m = [] := by
  refine ⟨Nat.le_zero.1 (none ▸ (h.thins reg).fewer s), ?_⟩
  rcases h.keeps_or_takes reg few s with ⟨nil, -⟩ | ⟨c, i, x, takes, rfl⟩
  · exact nil
  · rw [takes.alone] at none
    cases none

/-- No move takes the close of a stream to its end unless a call has it to close. -/
theorem Departure.closersOf_eq_nil (h : Departure w b I m v (v.step m))
    (idle : ∀ c, s ∉ (v.phaseOf c).closes) : v.closersOf s m = [] := by
  rcases h.closersOf s with ⟨nil, -⟩ | ⟨c, stage, -, -, place, -⟩
  · exact nil
  · exact absurd (by rw [place]; exact List.mem_singleton_self s) (idle c)

/-- With every move the stream stays where it has come to, or goes on. -/
theorem Fate.step (fate : Fate w I moves s) (h : w.Departing b I w) (attends : w.Attends b I)
    (before : ∀ m ∈ moves, m.Departs b I) (departs : m.Departs b I) (left : w.LeftBy I s) :
    Fate w I (moves ++ [m]) s := by
  have come := h.run attends before
  have reg := come.regular
  have few := come.few attends
  have departure := come.departure attends departs
  have none' : (w.run moves).unreleased s = 0 → (w.run (moves ++ [m])).unreleased s = 0 := fun none => by
    rw [run_concat]
    exact (departure.none_left reg few none).1
  have emptied' : (w.run moves).unreleased s = 0 →
      w.along (empties s) (moves ++ [m]) = w.along (empties s) moves := fun none =>
    along_concat_nil (departure.none_left reg few none).2
  cases fate with
  | used some emptied closed =>
    have nil := departure.closersOf_eq_nil fun c => come.unclosed attends left some (c := c)
    have closed' := (along_concat_nil nil).trans closed
    rcases departure.keeps_or_takes reg few s with ⟨none, keeps⟩ | ⟨c, i, _, takes, rfl⟩
    · exact .used (fun none => some (keeps (by rwa [run_concat] at none)))
        ((along_concat_nil none).trans emptied) closed'
    · obtain ⟨y, hy, -, stream, -⟩ := come.thins.consumer takes.there
      have sent := (h.tale attends before takes.mine hy).sent_of_releasing reg.ledger takes.place
      refine .closes (i := i) (c := c) ?_ takes.mine hy stream (mem_along_concat ?_ m) ?_ closed' ?_
      · rw [run_concat, takes.gone]
      · rw [sent]
        exact List.mem_singleton_self c
      · rw [along_concat, emptied, takes.empties_eq reg.ledger few, List.nil_append]
      · rw [run_concat, takes.next]
        exact List.mem_singleton_self _
  | @closes i x c none mine there stream sent emptied closed place =>
    rcases departure.closersOf s with ⟨nil, closes⟩ | ⟨d, stage, -, -, place', closers, ends⟩
    · refine .closes (none' none) mine there stream (mem_along_concat sent m)
        ((emptied' none).trans emptied) ((along_concat_nil nil).trans closed) ?_
      rw [run_concat]
      exact closes c place
    · have sealing := reg.poised.sealing reg.sound place
      obtain rfl := sealing.alone d (by rw [place']; exact List.mem_singleton_self s)
      have ended : ((w.run moves).step m).phaseOf d =
          .finished (.ofClose ((w.run moves).shutResult s)) := by
        rw [ends.advance.phaseOf, if_pos rfl, place']
        rfl
      have nothing : (w.run moves).Concluded [] :=
        ⟨by rintro _ ⟨⟩, by rintro _ ⟨⟩, by rintro _ ⟨⟩⟩
      have concluded := nothing.conclude reg sealing ends (by simp [ended, Phase.holds])
      rw [← run_concat] at ended concluded
      refine .past (none' none) mine there stream (mem_along_concat sent m)
        ((emptied' none).trans emptied) ?_ ended concluded
      rw [along_concat, closed, closers, List.nil_append]
  | @past i x c result none mine there stream sent emptied closed place concluded =>
    have buried := concluded.buried _ (List.mem_singleton_self _)
    have nil := departure.closersOf_eq_nil fun c hc =>
      buried.idle c (Phase.owns_subset _ (Phase.closes_subset _ hc))
    refine .past (none' none) mine there stream (mem_along_concat sent m) ((emptied' none).trans emptied)
      ((along_concat_nil nil).trans closed) ?_ ?_
    · rw [run_concat, step_over m (by rw [place]; rfl) (lt_of_phaseOf _ _ (by simp [place])), place]
    · rw [run_concat]
      exact concluded.step reg m

/-- Every stream that its consumers leave has its fate. -/
theorem Departing.fate (h : w.Departing b I w) (attends : w.Attends b I)
    (departs : ∀ m ∈ moves, m.Departs b I) (left : w.LeftBy I s) : Fate w I moves s :=
  h.induction (P := fun moves => Fate w I moves s) attends departs (.used left.some rfl rfl)
    fun _ _ before here _ _ ih => ih.step h attends before here left

/-- A stream that others stay with is not closed. -/
theorem Departing.stays (h : w.Departing b I w) (attends : w.Attends b I)
    (departs : ∀ m ∈ moves, m.Departs b I) (stays : ¬ w.LeftBy I s) :
    w.along (empties s) moves = [] ∧ w.along (closersOf s) moves = [] := by
  refine h.induction (P := fun moves => w.along (empties s) moves = [] ∧ w.along (closersOf s) moves = [])
    attends departs ⟨rfl, rfl⟩ fun moves m _ _ come departure ih => ?_
  have none : (w.run moves).empties s m = [] := by
    rcases departure.keeps_or_takes come.regular (come.few attends) s with ⟨none, -⟩ |
      ⟨_, _, _, takes, rfl⟩
    · exact none
    · exact absurd takes.left stays
  have nil : (w.run moves).closersOf s m = [] := by
    rcases departure.closersOf s with ⟨nil, -⟩ | ⟨_, _, -, left, -⟩
    · exact nil
    · exact absurd left stays
  exact ⟨(along_concat_nil none).trans ih.1, (along_concat_nil nil).trans ih.2⟩

end System

end TunerBroker
