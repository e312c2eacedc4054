import TunerBroker.Proofs.Closes.Departures

/-! Runs in which consumers leave. Each move either changes nothing, hands a consumer over to its release,
lets a pump stop, counts a consumer out, or takes the close of a stream without consumers one turn
further. -/

namespace TunerBroker

/-- A move of a run in which the consumers `I` leave the broker: one of them is handed over to a release,
a call or a pump takes a turn, or time passes. -/
def Move.Departs (b : BrokerId) (I : Finset ConsumerId) : Move → Prop
  | turn _ | elapse _ => True
  | start b' _ (.release i) => b' = b ∧ i ∈ I
  | _ => False

namespace System

variable {m : Move} {w v v' : System} {b : BrokerId} {k : SourceKey} {c d : CallId} {s t : StreamId}
  {i j : ConsumerId} {x : Consumer} {I : Finset ConsumerId}

/-- The stream has consumers to count out, and they are all among `I`. -/
structure LeftBy (w : System) (I : Finset ConsumerId) (s : StreamId) : Prop where
  some : w.unreleased s ≠ 0
  all : ∀ j x, w.consumers.get? j = .some x → x.stream = s → x.standing ≠ .released → j ∈ I

/-- The consumers `I` are held, and attached to streams that the broker lists. -/
structure Attends (w : System) (b : BrokerId) (I : Finset ConsumerId) : Prop where
  few : ∀ s, w.attachments s < 2 ^ 32
  held : ∀ i ∈ I, ∃ x, w.consumers.get? i = some x ∧ x.standing = .held ∧
    x.stream ∈ (w.slot b x.key).streams

/-- What a run in which the consumers `I` leave the broker has come to, at `v` from `w`: no call is under
way but releases of theirs, that are about to count a consumer out or are closing a stream that nobody
else has been attached to. -/
structure Departing (w : System) (b : BrokerId) (I : Finset ConsumerId) (v : System) : Prop where
  regular : v.Regular
  thins : Thins I {s | w.LeftBy I s} w v
  places : ∀ c, (v.phaseOf c).isOver ∨ v.brokerOf c = b ∧
    ((∃ i ∈ I, v.phaseOf c = .releasing i) ∨
      ∃ s stage, w.LeftBy I s ∧ v.phaseOf c = .tearing s stage)

/-- From `v` to `v'` the call counts out the last consumer of a stream, and takes the stream off the
list. -/
structure TakesLast (w : System) (b : BrokerId) (I : Finset ConsumerId) (m : Move) (v v' : System)
    (c : CallId) (i : ConsumerId) (x : Consumer) : Prop where
  turn : m = .turn (.call c)
  home : v.brokerOf c = b
  mine : i ∈ I
  place : v.phaseOf c = .releasing i
  there : v.consumers.get? i = some x
  counted : x.standing ≠ .released
  listed : x.stream ∈ (v.slot b x.key).streams
  alone : v.unreleased x.stream = 1
  left : w.LeftBy I x.stream
  out : v.CountsOut v' i x
  delists : v.Delists v' b x.key x.stream
  next : v'.phaseOf c = .tearing x.stream none

/-- What a move does from `v` to `v'` in such a run. -/
inductive Departure (w : System) (b : BrokerId) (I : Finset ConsumerId) (m : Move) (v v' : System) :
    Prop where
  /-- Nothing, but that time may pass. -/
  | rests (still : v' = { v with clock := v'.clock })
      (idle : ∀ c, m.actor = some c → (v.phaseOf c).isOver)
      (kept : ∀ b gated i, m = .start b gated (.release i) → ¬ (Errand.release i).isAllowed v b)
  /-- A consumer is handed over to its release. -/
  | starts {i : ConsumerId} {x : Consumer} {gated : Bool} (move : m = .start b gated (.release i))
      (mine : i ∈ I) (allowed : (Errand.release i).isAllowed v b)
      (there : v.consumers.get? i = some x) (held : x.standing = .held)
      (begun : v' = v.begin b gated (.release i))
  /-- A pump stops that was told to. -/
  | halts {s : StreamId} {n : ConnectionId} (move : m = .turn (.pump s))
      (reading : (v.stream s).pump = .reading n) (stopping : (v.stream s).stopping)
      (ended : v' = v.endPump s n)
  /-- A consumer leaves a stream to the others. -/
  | detaches {c : CallId} {i : ConsumerId} {x : Consumer} (turn : m = .turn (.call c)) (mine : i ∈ I)
      (place : v.phaseOf c = .releasing i) (there : v.consumers.get? i = some x)
      (counted : x.standing ≠ .released) (listed : x.stream ∈ (v.slot b x.key).streams)
      (others : v.unreleased x.stream ≠ 1) (out : v.CountsOut v' i x)
      (next : v'.phaseOf c = .finished .done) (brokers : v'.brokers = v.brokers)
  | takes {c : CallId} {i : ConsumerId} {x : Consumer} (takes : TakesLast w b I m v v' c i x)
  /-- A close goes on. -/
  | goesOn {c : CallId} {s : StreamId} {stage stage' : Option CloseStage} (turn : m = .turn (.call c))
      (home : v.brokerOf c = b) (left : w.LeftBy I s) (place : v.phaseOf c = .tearing s stage)
      (wears : Wears [s] v v')
      (torn : v.tornDown c = []) (advance : Advance c (.tearing s stage') [] none v v')
  /-- A close comes to its end. -/
  | ends {c : CallId} {s : StreamId} {stage : Option CloseStage} (turn : m = .turn (.call c))
      (home : v.brokerOf c = b) (left : w.LeftBy I s) (place : v.phaseOf c = .tearing s stage)
      (wears : Wears [s] v v')
      (torn : v.tornDown c = [(s, v.shutResult s)]) (ends : v.Concludes v' c s)

/-- A call that is over takes no turn. -/
theorem step_turn_of_over (past : (w.phaseOf c).isOver) : w.step (.turn (.call c)) = w := by
  refine step_unready ?_
  cases hp : w.phaseOf c with
  | finished | abandoned => simp [ready, phaseReady, hp]
  | _ => simp [hp, Phase.isOver] at past

theorem unreleased_ne_zero (hx : w.consumers.get? i = some x) (counted : x.standing ≠ .released) :
    w.unreleased x.stream ≠ 0 :=
  Nat.pos_iff_ne_zero.1 <| List.countP_pos_iff.2
    ⟨x, (Table.mem_entries_iff _ _).2 ⟨i, hx⟩, by simp [counted]⟩

namespace Thins

variable {L : Set StreamId} (h : Thins I L w v)

include h

/-- Consumers stay on record. -/
theorem consumer (hx : v.consumers.get? i = some x) :
    ∃ y, w.consumers.get? i = some y ∧ y.broker = x.broker ∧ y.stream = x.stream ∧ y.key = x.key := by
  have same := h.outline i
  rw [hx, Option.map_some] at same
  obtain ⟨y, hy, he⟩ := Option.map_eq_some_iff.1 same.symm
  simp only [Consumer.outline, Consumer.mk.injEq, and_true] at he
  exact ⟨y, hy, he⟩

theorem attachments (t : StreamId) : v.attachments t = w.attachments t := by
  have same : v.consumers.entries.map Consumer.outline = w.consumers.entries.map Consumer.outline := by
    refine List.ext_getElem? fun i => ?_
    rw [List.getElem?_map, List.getElem?_map]
    exact h.outline i
  have count : ∀ l : List Consumer, l.countP (fun x => decide (x.stream = t)) =
      (l.map Consumer.outline).countP fun x => decide (x.stream = t) := fun l => by
    rw [List.countP_map]
    rfl
  rw [System.attachments, System.attachments, count v.consumers.entries, same,
    ← count w.consumers.entries]

end Thins

namespace TakesLast

variable (h : TakesLast w b I m v v' c i x)

include h

theorem gone : v'.unreleased x.stream = 0 := by
  have fewer := h.out.unreleased h.there h.counted x.stream
  have alone := h.alone
  rw [if_pos rfl] at fewer
  omega

theorem others (ht : t ≠ x.stream) : v'.unreleased t = v.unreleased t := by
  have fewer := h.out.unreleased h.there h.counted t
  rwa [if_neg (Ne.symm ht)] at fewer

theorem thins (reg : v.Regular) : Thins I {s | w.LeftBy I s} v v' := by
  refine h.out.thins h.there h.counted h.mine fun b' k => ?_
  -- What is listed anywhere is still to count consumers out, but for the stream that has lost its last.
  have still : ∀ t ∈ (v.slot b' k).streams, decide (t ≠ x.stream) = decide (v'.unreleased t ≠ 0) := by
    intro t ht
    by_cases he : t = x.stream
    · simp [he, h.gone]
    · have some := (reg.ledger.counted ht).some
      have : v'.unreleased t ≠ 0 := by
        rw [h.others he]
        omega
      simp [he, this]
  rw [← Slot.only_congr still]
  by_cases here : b' = b ∧ k = x.key
  · obtain ⟨rfl, rfl⟩ := here
    rw [h.delists.slot, Slot.deregister_eq_only (reg.sound.custody.nodup (.slot _ _))]
  · have slot : v'.slot b' k = v.slot b' k := by
      rw [System.slot, h.delists.others b' k (by tauto)]
      rfl
    rw [slot]
    refine (Slot.only_self fun t ht => decide_eq_true ?_).symm
    rintro rfl
    exact here (Keeper.slot.inj (reg.sound.custody.unique (o := .slot b' k) ht
      (q := .slot b x.key) h.listed))

end TakesLast

/-- No move of such a run changes more than is said beforehand. -/
theorem Departure.thins (h : Departure w b I m v v') (reg : v.Regular) :
    Thins I {s | w.LeftBy I s} v v' := by
  have l := reg.ledger
  cases h with
  | rests still =>
    rw [still]
    exact { Thins.refl I _ l with }
  | @starts i x gated move mine allowed there held begun =>
    subst begun
    exact thins_setStanding (q := .handedOver) l mine there (by simp [held]) (by rintro ⟨⟩) rfl
      (fun _ _ => rfl) (fun _ => rfl) rfl
  | halts move reading stopping ended =>
    rw [ended]
    exact thins_endPump l reg.wired reading stopping
  | detaches turn mine place there counted listed others out next brokers =>
    have fewer := out.unreleased there counted
    refine out.thins there counted mine fun b' k => ?_
    have slot : v'.slot b' k = v.slot b' k := by rw [System.slot, System.broker, brokers]; rfl
    rw [slot]
    refine (Slot.only_self fun t ht => decide_eq_true ?_).symm
    have some := (l.counted ht).some
    have := fewer t
    split at this
    · rename_i he
      rw [he] at others
      omega
    · omega
  | takes takes => exact takes.thins reg
  | goesOn turn home left place wears | ends turn home left place wears => exact wears.thins l left

namespace Departing

variable (h : w.Departing b I v) (attends : w.Attends b I)

include h attends

theorem few (s : StreamId) : v.attachments s < 2 ^ 32 := by
  rw [h.thins.attachments]
  exact attends.few s

/-- As long as one of the consumers has not left, its stream is listed. -/
theorem listed (hi : i ∈ I) (hx : v.consumers.get? i = some x) (counted : x.standing ≠ .released) :
    x.stream ∈ (v.slot b x.key).streams := by
  obtain ⟨y, hy, -, stream, key⟩ := h.thins.consumer hx
  obtain ⟨y', hy', -, listed⟩ := attends.held i hi
  obtain rfl := Option.some.inj (hy.symm.trans hy')
  rw [stream, key] at listed
  rw [h.thins.slots]
  exact (Slot.mem_streams_only _ _).2 ⟨listed, decide_eq_true (unreleased_ne_zero hx counted)⟩

omit attends in
/-- The last consumer of a stream has been its last among `I`. -/
theorem leftBy (hx : v.consumers.get? i = some x) (counted : x.standing ≠ .released)
    (alone : v.unreleased x.stream = 1) (hi : i ∈ I) : w.LeftBy I x.stream where
  some := by
    have := h.thins.fewer x.stream
    omega
  all j y hy hs hst := by
    -- A consumer that is not among them would be there still, and be counted as another.
    by_contra hj
    have there : v.consumers.get? j = .some y := (h.thins.apart j hj).trans hy
    have two := Counts.two_le (w := v) (i := i) (j := j) ⟨x, hx, rfl, counted⟩ ⟨y, there, hs, hst⟩
      (by rintro rfl; exact hj hi)
    omega

/-- A move of such a run does one of a few things. -/
theorem departure (departs : m.Departs b I) : Departure w b I m v (v.step m) := by
  cases m with
  | turn r =>
    cases r with
    | call c =>
      rcases h.places c with past | ⟨hb, ⟨i, hi, place⟩ | ⟨s, stage, left, place⟩⟩
      · rw [step_turn_of_over past]
        refine .rests rfl (fun d hd => ?_) (by rintro _ _ _ ⟨⟩)
        obtain rfl := Option.some.inj hd
        exact past
      · obtain ⟨x, there, handed⟩ := h.regular.ledger.handed (c := c) (i := i) (by rw [place]; rfl)
        have counted : x.standing ≠ .released := by simp [handed]
        have listed := h.listed attends hi there counted
        by_cases alone : v.unreleased x.stream = 1
        · obtain ⟨out, delists, next, -, -⟩ := step_last place there h.regular.ledger
            (h.few attends _) (hb ▸ listed) h.regular.sound alone
          exact .takes ⟨rfl, hb, hi, place, there, counted, listed, alone,
            h.leftBy there counted alone hi, out, hb ▸ delists, next⟩
        · obtain ⟨out, next, brokers⟩ := step_detach place there h.regular.ledger
            (h.few attends _) (hb ▸ listed) alone
          exact .detaches rfl hi place there counted listed alone out next brokers
      · have closing : (v.phaseOf c).closing? = some (s, stage) := by rw [place]; rfl
        have wears : Wears [s] v (v.step (.turn (.call c))) :=
          h.regular.wears_closing (List.mem_singleton_self s) closing
        rcases turn_tears h.regular.wired (fun t ht => h.regular.poised.ahead ht) closing with
          ⟨torn, p, hp, advance⟩ | ⟨torn, ends⟩
        · rcases hp with ⟨-, rfl⟩ | ⟨next, rfl⟩
          · rw [place] at advance
            exact .goesOn rfl hb left place wears torn advance
          · rw [place] at advance
            exact .goesOn rfl hb left place wears torn advance
        · exact .ends rfl hb left place wears torn ends
    | pump s =>
      by_cases ready : v.ready (.pump s)
      · obtain ⟨reading, stopping⟩ := Bool.and_eq_true_iff.1 ready
        cases hp : (v.stream s).pump with
        | reading n => exact .halts rfl hp stopping (step_pump hp stopping)
        | _ => simp [hp, Pump.isReading] at reading
      · have same : v.step (.turn (.pump s)) = v := by simp [step, turn, ready]
        rw [same]
        exact .rests rfl (by rintro _ ⟨⟩) (by rintro _ _ _ ⟨⟩)
  | elapse ms => exact .rests rfl (by rintro _ ⟨⟩) (by rintro _ _ _ ⟨⟩)
  | start b' gated errand =>
    cases errand with
    | release i =>
      obtain ⟨rfl, hi⟩ := departs
      by_cases allowed : (Errand.release i).isAllowed v b'
      · have begun : v.step (.start b' gated (.release i)) = v.begin b' gated (.release i) := by
          simp [step, start, allowed]
        have holds := allowed
        simp only [Errand.isAllowed, Bool.and_eq_true] at holds
        obtain ⟨-, holds⟩ := holds
        split at holds
        · rename_i x there
          exact .starts rfl hi allowed there (of_decide_eq_true holds) begun
        · cases holds
      · have same : v.step (.start b' gated (.release i)) = v := by simp [step, start, allowed]
        rw [same]
        refine .rests rfl (by rintro _ ⟨⟩) ?_
        rintro _ _ _ ⟨⟩
        exact allowed
    | _ => cases departs
  | _ => cases departs

/-- Each call stays where it is, or goes on as the move says. -/
theorem step (departs : m.Departs b I) : w.Departing b I (v.step m) := by
  have departure := h.departure attends departs
  refine ⟨h.regular.step m, h.thins.trans (departure.thins h.regular), fun d => ?_⟩
  rcases v.step_cases m d with ⟨same, -⟩ | ⟨actor, there⟩ |
    ⟨b', gated, errand, rfl, rfl, -, origin, broker, -⟩
  · by_cases there : d < v.calls.size
    · rw [same, (step_keeps there m).2]
      exact h.places d
    · left
      rw [same, v.phaseOf_of_size_le d (Nat.le_of_not_lt there)]
      rfl
  · rw [(step_keeps there m).2]
    have only : ∀ {c}, m = .turn (.call c) → c = d := by
      rintro c rfl
      exact Option.some.inj actor
    cases departure with
    | rests still idle =>
      left
      rw [step_over m (idle d actor) there]
      exact idle d actor
    | starts move | halts move =>
      rw [move] at actor
      cases actor
    | detaches turn mine place there counted listed others out next =>
      obtain rfl := only turn
      rw [next]
      exact .inl rfl
    | takes takes =>
      obtain rfl := only takes.turn
      rw [takes.next]
      exact .inr ⟨takes.home, .inr ⟨_, none, takes.left, rfl⟩⟩
    | goesOn turn home left place wears torn advance =>
      obtain rfl := only turn
      rw [advance.phaseOf, if_pos rfl]
      exact .inr ⟨home, .inr ⟨_, _, left, rfl⟩⟩
    | ends turn home left place wears torn ends =>
      obtain rfl := only turn
      rw [ends.advance.phaseOf, if_pos rfl, place]
      exact .inl rfl
  · obtain ⟨i, rfl, rfl, hi⟩ : ∃ i, errand = .release i ∧ b' = b ∧ i ∈ I := by
      cases errand with
      | release i => exact ⟨i, rfl, departs⟩
      | _ => cases departs
    rw [origin, broker]
    exact .inr ⟨rfl, .inl ⟨i, hi, rfl⟩⟩

end Departing

theorem Departing.run {moves : List Move} (h : w.Departing b I v) (attends : w.Attends b I)
    (departs : ∀ m ∈ moves, m.Departs b I) : w.Departing b I (v.run moves) := by
  induction moves using List.reverseRecOn with
  | nil => exact h
  | append_singleton moves m ih =>
    rw [run_concat]
    exact (ih fun m hm => departs m (List.mem_append_left _ hm)).step attends
      (departs m (List.mem_append_right _ (List.mem_singleton_self m)))

theorem Regular.departing (reg : w.Regular) (past : ∀ c, (w.phaseOf c).isOver) (b : BrokerId)
    (I : Finset ConsumerId) : w.Departing b I w :=
  ⟨reg, .refl I _ reg.ledger, fun c => .inl (past c)⟩

/-! ### Counts -/

/-- The call whose turn takes the count of a stream to zero, if the move is one. -/
def empties (s : StreamId) (w : System) (m : Move) : List CallId :=
  m.turns.filter fun _ => (w.stream s).consumers ≠ 0 ∧ ((w.step m).stream s).consumers = 0

theorem empties_eq_nil (h : ((w.step m).stream s).consumers = 0 → (w.stream s).consumers = 0) :
    w.empties s m = [] :=
  List.filter_eq_nil_iff.2 fun _ _ hd => (of_decide_eq_true hd).1 (h (of_decide_eq_true hd).2)

/-- A stream whose consumers stay keeps its count. -/
theorem Thins.consumers_eq {L : Set StreamId} (h : Thins I L v v')
    (same : v'.unreleased t = v.unreleased t) : (v'.stream t).consumers = (v.stream t).consumers := by
  have counts := h.counts t
  rw [same] at counts
  exact add_right_cancel counts

/-- Only where the last consumer of a stream is counted out does its count come to zero. -/
theorem Departure.keeps_or_takes (h : Departure w b I m v (v.step m)) (reg : v.Regular)
    (few : ∀ s, v.attachments s < 2 ^ 32) (t : StreamId) :
    v.empties t m = [] ∧ ((v.step m).unreleased t = 0 → v.unreleased t = 0) ∨
      ∃ c i x, TakesLast w b I m v (v.step m) c i x ∧ x.stream = t := by
  have thins := h.thins reg
  have keeps : (v.step m).unreleased t = v.unreleased t →
      v.empties t m = [] ∧ ((v.step m).unreleased t = 0 → v.unreleased t = 0) := fun same =>
    ⟨empties_eq_nil fun hz => (thins.consumers_eq same).symm.trans hz, fun hz => same.symm.trans hz⟩
  cases h with
  | rests still =>
    refine .inl (keeps ?_)
    rw [still]
    rfl
  | @starts i x gated move mine allowed there held begun =>
    refine .inl (keeps ?_)
    have same := unreleased_setStanding (s := t) (q := .handedOver) there (by simp [held])
    rw [if_neg (by rintro ⟨-, ⟨⟩⟩), Nat.add_zero] at same
    rw [begun, ← same]
    rfl
  | halts move reading stopping ended =>
    refine .inl (keeps ?_)
    rw [ended]
    refine unreleased_congr ?_ t
    rw [endPump]
    split <;> rfl
  | @detaches c i x turn mine place there counted listed others out =>
    have fewer := out.unreleased there counted t
    by_cases ht : t = x.stream
    · subst ht
      have tallied := reg.ledger.counted listed
      have some := tallied.some
      have count := tallied.toNat_consumers (few _)
      rw [if_pos rfl] at fewer
      refine .inl ⟨empties_eq_nil fun hz => ?_, fun hz => by omega⟩
      -- The others are as many as are left.
      have one := Ledger.toNat_sub_one (tallied.consumers_ne_zero (few _))
      rw [out.stream] at hz
      rw [show (v.stream x.stream).consumers - 1 = 0 from hz, count] at one
      have zero : (0 : UInt32).toNat = 0 := rfl
      omega
    · rw [if_neg (Ne.symm ht)] at fewer
      exact .inl (keeps fewer)
  | @takes c i x takes =>
    by_cases ht : t = x.stream
    · exact .inr ⟨c, i, x, takes, ht.symm⟩
    · exact .inl (keeps (takes.others ht))
  | goesOn turn home left place wears | ends turn home left place wears =>
    exact .inl (keeps (unreleased_congr wears.consumers t))

/-- The call that counts the last consumer out takes the count from one to zero. -/
theorem TakesLast.empties_eq (h : TakesLast w b I m v (v.step m) c i x) (l : v.Ledger)
    (few : ∀ s, v.attachments s < 2 ^ 32) : v.empties x.stream m = [c] := by
  have tallied := l.counted h.listed
  have one := Ledger.toNat_sub_one (tallied.consumers_ne_zero (few _))
  rw [tallied.toNat_consumers (few _), h.alone] at one
  have zero : ((v.step m).stream x.stream).consumers = 0 := by
    rw [h.out.stream]
    exact UInt32.toNat_inj.1 one
  have turns : m.turns = [c] := by
    rw [h.turn]
    rfl
  rw [empties, turns]
  simp [tallied.consumers_ne_zero (few _), zero]

/-! ### Closes -/

theorem teardownsOn_turn (home : w.brokerOf c = b) :
    w.teardownsOn b (.turn (.call c)) = w.tornDown c := by
  simp [teardownsOn, Move.turns, home]

/-- A move of such a run counts nothing and ends no close, or takes one close to its end. -/
theorem Departure.rests_or_ends (h : Departure w b I m v (v.step m)) :
    ((∀ c ∈ m.turns, v.tornDown c = []) ∧ (∀ b', (v.step m).countersOf b' = v.countersOf b') ∧
      ∀ d, (v.phaseOf d).closes ⊆ ((v.step m).phaseOf d).closes) ∨
    ∃ c s stage, m = .turn (.call c) ∧ v.brokerOf c = b ∧ w.LeftBy I s ∧
      v.phaseOf c = .tearing s stage ∧ v.tornDown c = [(s, v.shutResult s)] ∧
      v.Concludes (v.step m) c s := by
  -- A call that has nothing to close has nothing to end.
  have idle : (∀ c, m.actor = some c → (v.phaseOf c).closes = []) →
      (∀ b', (v.step m).countersOf b' = v.countersOf b') →
      (∀ c ∈ m.turns, v.tornDown c = []) ∧ (∀ b', (v.step m).countersOf b' = v.countersOf b') ∧
        ∀ d, (v.phaseOf d).closes ⊆ ((v.step m).phaseOf d).closes := by
    refine fun none same => ⟨fun d hd => tornDown_eq_nil (none d (Move.actor_of_turns hd)), same,
      fun d t ht => ?_⟩
    have there : d < v.calls.size := v.lt_of_phaseOf d fun hp => by simp [hp, Phase.closes] at ht
    rwa [(step_other there fun hd => List.ne_nil_of_mem ht (none d hd)).1]
  have releasing : ∀ {c i}, m = .turn (.call c) → v.phaseOf c = .releasing i →
      ∀ d, m.actor = some d → (v.phaseOf d).closes = [] := by
    rintro c i rfl place d hd
    obtain rfl := Option.some.inj hd
    rw [place]
    rfl
  cases h with
  | rests still past =>
    refine .inl (idle (fun d hd => Phase.closes_of_isOver (past d hd)) fun b' => ?_)
    rw [still]
    rfl
  | @starts i x gated move mine allowed there held begun =>
    refine .inl (idle (by rw [move]; rintro _ ⟨⟩) fun b' => ?_)
    rw [begun]
    exact countersOf_begin v _ b' _ _
  | halts move reading stopping ended =>
    refine .inl (idle (by rw [move]; rintro _ ⟨⟩) fun b' => ?_)
    rw [ended]
    exact (calm_endPump v _ _).counters b'
  | detaches turn mine place there counted listed others out =>
    exact .inl (idle (releasing turn place) out.counters)
  | takes takes => exact .inl (idle (releasing takes.turn takes.place) takes.out.counters)
  | @goesOn c s stage stage' turn home left place wears torn advance =>
    subst turn
    refine .inl ⟨fun d hd => ?_, fun b' => ?_, fun d => ?_⟩
    · rw [List.mem_singleton.1 hd, torn]
    · rw [advance.counters, Counters.recordAll_nil, ite_self]
    · rw [advance.phaseOf]
      split
      · rename_i hd
        rw [hd, place]
        exact List.Subset.refl _
      · exact List.Subset.refl _
  | ends turn home left place wears torn ends => exact .inr ⟨_, _, _, turn, home, left, place, torn, ends⟩

theorem teardownsOn_of_rests (none : ∀ c ∈ m.turns, v.tornDown c = []) : v.teardownsOn b m = [] :=
  List.flatMap_eq_nil_iff.2 fun c hc => none c (List.mem_filter.1 hc).1

/-- Nothing is counted but the closes that come to their end. -/
theorem Departure.counters (h : Departure w b I m v (v.step m)) (reg : v.Regular) (b' : BrokerId) :
    (v.step m).countersOf b' = if b' = b then
      (v.countersOf b').recordAll ((v.teardownsOn b m).flatMap fun x => closeTicks x.2)
    else v.countersOf b' := by
  rcases h.rests_or_ends with ⟨torn, same, -⟩ | ⟨c, s, stage, turn, home, -, place, torn, ends⟩
  · rw [teardownsOn_of_rests torn, same, List.flatMap_nil, Counters.recordAll_nil, ite_self]
  · have seated := reg.poised.seated (c := c) (s := s) (by rw [place]; exact List.mem_singleton_self s)
    rw [home] at seated
    rw [ends.advance.counters, turn, teardownsOn_turn home, torn, home, List.flatMap_singleton]
    by_cases hb : b' = b
    · rw [if_pos ⟨hb, hb ▸ seated⟩, if_pos hb]
    · rw [if_neg fun hn => hb hn.1, if_neg hb]

/-- The closes `closed` have come out in a run in which consumers leave, each of a stream that had no
others; and a stream that has none left is being closed, or is among them. -/
structure Buries (w : System) (I : Finset ConsumerId) (v : System)
    (closed : List (StreamId × Except StreamError Unit)) : Prop extends v.Concluded closed where
  nodup : (closed.map (·.1)).Nodup
  left : ∀ x ∈ closed, w.LeftBy I x.1
  all : ∀ s, w.LeftBy I s → v.unreleased s = 0 →
    (∃ c, s ∈ (v.phaseOf c).closes) ∨ s ∈ closed.map (·.1)

theorem buries_nil (w : System) (I : Finset ConsumerId) : Buries w I w [] where
  buried := by rintro _ ⟨⟩
  pumped := by rintro _ ⟨⟩
  result := by rintro _ ⟨⟩
  nodup := List.nodup_nil
  left := by rintro _ ⟨⟩
  all _ left none := absurd none left.some

theorem Buries.step {closed : List (StreamId × Except StreamError Unit)} (h : Buries w I v closed)
    (departure : Departure w b I m v (v.step m)) (reg : v.Regular)
    (few : ∀ s, v.attachments s < 2 ^ 32) : Buries w I (v.step m) (closed ++ v.teardownsOn b m) := by
  -- A stream that has just lost its last consumer is being closed.
  have lasts : ∀ s, w.LeftBy I s → (v.step m).unreleased s = 0 →
      (∃ c, s ∈ ((v.step m).phaseOf c).closes) ∨ (∃ c, s ∈ (v.phaseOf c).closes) ∨
        s ∈ closed.map (·.1) := by
    intro s left none
    rcases departure.keeps_or_takes reg few s with ⟨-, before⟩ | ⟨c, i, x, takes, rfl⟩
    · exact .inr (h.all s left (before none))
    · exact .inl ⟨c, by rw [takes.next]; exact List.mem_singleton_self _⟩
  rcases departure.rests_or_ends with ⟨torn, -, closes⟩ |
    ⟨c, s, stage, turn, home, left, place, torn, ends⟩
  · rw [teardownsOn_of_rests torn, List.append_nil]
    refine { h.toConcluded.step reg m with
      nodup := h.nodup, left := h.left, all := fun s left none => ?_ }
    exact (lasts s left none).elim .inl (Or.imp_left fun ⟨c, hc⟩ => ⟨c, closes c hc⟩)
  · have mine : s ∈ (v.phaseOf c).closes := by
      rw [place]
      exact List.mem_singleton_self s
    have ended : (v.step m).phaseOf c = .finished (.ofClose (v.shutResult s)) := by
      rw [ends.advance.phaseOf, if_pos rfl, place]
      rfl
    have concluded := h.toConcluded.conclude reg (reg.poised.sealing reg.sound mine) ends
      (by simp [ended, Phase.holds])
    have new : s ∉ closed.map (·.1) := fun hs => by
      obtain ⟨x, hx, rfl⟩ := List.mem_map.1 hs
      exact (h.buried x hx).idle c (Phase.owns_subset _ (Phase.closes_subset _ mine))
    rw [show v.teardownsOn b m = [(s, v.shutResult s)] by rw [turn, teardownsOn_turn home, torn]]
    refine { concluded with nodup := ?_, left := fun x hx => ?_, all := fun t left none => ?_ }
    · rw [List.map_append, List.nodup_append]
      refine ⟨h.nodup, List.nodup_singleton _, ?_⟩
      rintro t ht _ hs rfl
      obtain rfl : t = s := List.mem_singleton.1 hs
      exact new ht
    · rcases List.mem_append.1 hx with hx | hx
      · exact h.left x hx
      · rw [List.mem_singleton.1 hx]
        exact left
    · rw [List.map_append, List.mem_append]
      refine (lasts t left none).elim .inl ?_
      rintro (⟨d, hd⟩ | past)
      · by_cases hdc : d = c
        · rw [hdc, place] at hd
          exact .inr (.inr hd)
        · have there : d < v.calls.size := v.lt_of_phaseOf d fun hp => by simp [hp, Phase.closes] at hd
          refine .inl ⟨d, ?_⟩
          rwa [(step_other there (by rw [turn]; rintro ⟨⟩; exact hdc rfl)).1]
      · exact .inr (.inl past)

/-! ### Every run -/

section Run

variable {moves : List Move} (h : w.Departing b I w) (attends : w.Attends b I)
  (departs : ∀ m ∈ moves, m.Departs b I)

include h attends departs

/-- What holds at the beginning of such a run and is kept by what its moves do holds at its end. -/
theorem Departing.induction {P : List Move → Prop} (nil : P [])
    (concat : ∀ moves m, (∀ m ∈ moves, m.Departs b I) → m.Departs b I →
      w.Departing b I (w.run moves) → Departure w b I m (w.run moves) ((w.run moves).step m) →
      P moves → P (moves ++ [m])) :
    P moves := by
  induction moves using List.reverseRecOn with
  | nil => exact nil
  | append_singleton moves m ih =>
    have before : ∀ m ∈ moves, m.Departs b I := fun m hm => departs m (List.mem_append_left _ hm)
    have here := departs m (List.mem_append_right _ (List.mem_singleton_self m))
    have come := h.run attends before
    exact concat moves m before here come (come.departure attends here) (ih before)

theorem Departing.buries : Buries w I (w.run moves) (w.along (teardownsOn b) moves) := by
  refine h.induction (P := fun moves => Buries w I (w.run moves) (w.along (teardownsOn b) moves))
    attends departs (buries_nil w I) fun moves m _ _ come departure ih => ?_
  rw [along_concat, run_concat]
  exact ih.step departure come.regular (come.few attends)

theorem Departing.counters (b' : BrokerId) : (w.run moves).countersOf b' = if b' = b then
      (w.countersOf b').withCloses (w.along (teardownsOn b) moves).length
        ((w.along (teardownsOn b) moves).countP fun x => failsToShut x.2)
    else w.countersOf b' := by
  have counted : (w.run moves).countersOf b' = if b' = b then
      (w.countersOf b').recordAll ((w.along (teardownsOn b) moves).flatMap fun x => closeTicks x.2)
      else w.countersOf b' := by
    refine h.induction (P := fun moves => (w.run moves).countersOf b' = if b' = b then
      (w.countersOf b').recordAll ((w.along (teardownsOn b) moves).flatMap fun x => closeTicks x.2)
      else w.countersOf b') attends departs (ite_self _).symm fun moves m _ _ come departure ih => ?_
    rw [along_concat, run_concat, departure.counters come.regular, ih, List.flatMap_append,
      Counters.recordAll_append]
    split <;> rfl
  rw [counted, recordAll_closeTicks (h.buries attends departs).result]

end Run

end System

end TunerBroker
