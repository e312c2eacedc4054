import TunerBroker.Proofs.Consumers.Discharge
import TunerBroker.Proofs.Opens.Waiting

/-! A call for a source that comes to nothing. Such a call lists no stream and takes none off, attaches
nobody and counts nothing but an open that failed; it may take an ended stream off offer, and the mark of
its open is gone with it. -/

namespace TunerBroker

/-- The places of a call that has set out with the wish `a`. -/
inductive Phase.Pursues (a : Acquisition) : Phase → Prop where
  | admission (ctx : RequestContext) : Pursues a (.admission ctx a)
  | seeking : Pursues a (.seeking a)
  | waiting (o : CallId) : Pursues a (.waiting a o)
  | opening (s : StreamId) (moves : List OpenMove) (wait : OpenWait) :
      Pursues a (.opening a s moves wait)
  | rejecting (s : StreamId) (stage : Option CloseStage) (e : StreamError) :
      Pursues a (.rejecting s stage e)
  | past {p : Phase} (past : p.isOver) : Pursues a p

/-- What the call wants is what it has set out for, wherever it has come to. -/
theorem Phase.Pursues.wish {a a' : Acquisition} {p : Phase} (h : Pursues a p)
    (hw : p.wish? = some a') : a' = a := by
  cases h with
  | rejecting => cases hw
  | past past => cases p <;> cases hw <;> cases past
  | _ => exact (Option.some.inj hw).symm

/-- As long as it is neither over nor refusing a stream, the call wants what it has set out for. -/
theorem Phase.Pursues.wants {a : Acquisition} {p : Phase} (h : Pursues a p) (hp : p.isOver = false)
    (hr : ∀ s g e, p ≠ .rejecting s g e) : p.wish? = some a := by
  cases h with
  | rejecting s g e => exact absurd rfl (hr s g e)
  | past past => simp [hp] at past
  | _ => rfl

/-- What the call may change of a slot without listing anything: the stream on offer is put beside, and
the mark of the call is set or cleared. -/
structure Slot.Trace (c : CallId) (x y : Slot) : Prop where
  streams : y.shared = x.shared ∧ y.unshared = x.unshared ∨
    ∃ s, x.shared = some s ∧ y.shared = none ∧ y.unshared = x.unshared ++ [s]
  mark : y.opening = x.opening ∨ x.opening = none ∧ y.opening = some c ∨
    x.opening = some c ∧ y.opening = none

namespace Slot.Trace

variable {c : CallId} {x y : Slot}

theorem refl (x : Slot) : Trace c x x := ⟨.inl ⟨rfl, rfl⟩, .inl rfl⟩

theorem perm (h : Trace c x y) : y.streams.Perm x.streams := by
  unfold Slot.streams
  rcases h.streams with ⟨hs, hu⟩ | ⟨s, hx, hs, hu⟩
  · rw [hs, hu]
  · rw [hx, hs, hu]
    show (x.unshared ++ [s]).Perm ([s] ++ x.unshared)
    exact List.perm_append_comm

/-- The stream on offer is put beside, and the mark set where there was none. -/
theorem demote (hn : x.streams.Nodup) (hv : x.opening = none) :
    Trace c x { x.demote with opening := some c } := by
  refine ⟨?_, .inr (.inl ⟨hv, rfl⟩)⟩
  cases hs : x.shared with
  | none => simp [Slot.demote, hs]
  | some s =>
    have off : s ∉ x.unshared := ((nodup_streams x).1 hn).1 s hs
    refine .inr ⟨s, rfl, shared_demote x, ?_⟩
    simp [Slot.demote, hs, keep_of_not_mem { x with shared := none } s off]

end Slot.Trace

namespace System

variable {m : Move} {w w₁ w' : System} {a : Acquisition} {b : BrokerId} {k : SourceKey}
  {c : CallId} {s : StreamId} {p : Phase} {ticks : List Tick} {x : Option Announcement}

/-- Between `w` and `w'` the call leaves at most its trace in the slot of the key. Who is attached to
which stream stays, and so do all other slots. -/
structure Untouched (c : CallId) (b : BrokerId) (k : SourceKey) (w w' : System) : Prop where
  slot : (w.slot b k).Trace c (w'.slot b k)
  slots : ∀ b' k', ¬(b' = b ∧ k' = k) → w'.slot b' k' = w.slot b' k'
  consumers : w'.consumers = w.consumers
  counts : ∀ s, (w'.stream s).consumers = (w.stream s).consumers
  demotes : (w'.slot b k).shared = (w.slot b k).shared ∨
    (∃ a, w.phaseOf c = .seeking a ∧ w.brokerOf c = b ∧ a.key = k) ∧ (w'.phaseOf c).isOpening

/-- Moreover, a stream put beside has ended, and nothing is counted but an open that fails. -/
structure Harmless (c : CallId) (b : BrokerId) (k : SourceKey) (w w' : System) : Prop
    extends Untouched c b k w w' where
  ended : ∀ s, (w.slot b k).shared = some s → (w'.slot b k).shared = none →
    (w.stream s).state = .ended
  counters : ∀ b', w'.countersOf b' = w.countersOf b' ∨
    b' = b ∧ w'.countersOf b = (w.countersOf b).record .openFailed ∧ (w.phaseOf c).isOpening ∧
      ∃ e, w'.phaseOf c = .finished (.failed e)

/-! ### Changes of the books -/

namespace Untouched

theorem of_slots (slots : ∀ b k, w'.slot b k = w.slot b k) (consumers : w'.consumers = w.consumers)
    (counts : ∀ s, (w'.stream s).consumers = (w.stream s).consumers) : Untouched c b k w w' where
  slot := by rw [slots]; exact .refl _
  slots b' k' _ := slots b' k'
  consumers := consumers
  counts := counts
  demotes := .inl (by rw [slots])

theorem frame {S T : Set StreamId} {w₂ : System} (h : Untouched c b k w₁ w₂) (f : Frame S w w₁)
    (g : Frame T w₂ w') : Untouched c b k w w' where
  slot := by
    rw [g.slot, ← f.slot]
    exact h.slot
  slots b' k' hn := by rw [g.slot, h.slots b' k' hn, f.slot]
  consumers := by rw [g.consumers, h.consumers, f.consumers]
  counts s := by rw [(g.kin s).consumers, h.counts, (f.kin s).consumers]
  demotes := by
    rw [g.slot, ← f.slot, ← f.phaseOf, ← f.brokerOf, g.phaseOf]
    exact h.demotes

theorem listed (h : Untouched c b k w w') (b' : BrokerId) (k' : SourceKey) :
    (w'.listedAt b' k').Perm (w.listedAt b' k') := by
  unfold listedAt
  by_cases he : b' = b ∧ k' = k
  · rw [he.1, he.2]
    exact h.slot.perm
  · rw [h.slots b' k' he]

/-- An open begins, and the slot of its key becomes `y` with its mark. -/
theorem beginOpen (g : w.Sound) (hp : w.phaseOf c = .seeking a) {y : Slot}
    (trace : (w.slot (w.brokerOf c) a.key).Trace c { y with opening := some c }) :
    Untouched c (w.brokerOf c) a.key w (w.beginOpen c a y) where
  slot := by
    rw [slot_beginOpen, if_pos ⟨rfl, rfl, g.flight.seated c (by rw [hp]; rfl)⟩]
    exact trace
  slots b' k' hn := by rw [slot_beginOpen, if_neg fun he => hn ⟨he.1, he.2.1⟩]
  consumers := rfl
  counts s := by
    rw [stream_beginOpen]
    split
    · rename_i hs
      rw [w.stream_of_size_le s hs.ge]
      rfl
    · rfl
  demotes := by
    have hc : c < w.calls.size := w.lt_of_phaseOf c (by simp [hp])
    refine .inr ⟨⟨a, hp, rfl, rfl⟩, ?_⟩
    rw [phaseOf_beginOpen, if_pos ⟨rfl, hc⟩]
    rfl

theorem giveUp {moves : List OpenMove} {wait : OpenWait} (g : w.Sound)
    (hp : w.phaseOf c = .opening a s moves wait) :
    Untouched c (w.brokerOf c) a.key w ((w.setPhase c p).endOpen c a.key none) := by
  obtain ⟨mark, -⟩ := g.flight.own_slot (c := c) (a := a) (by rw [hp]; rfl)
  have hb : w.brokerOf c < w.brokers.size := g.flight.seated c (by rw [hp]; rfl)
  have slot : ∀ b' k', ((w.setPhase c p).endOpen c a.key none).slot b' k' =
      if b' = w.brokerOf c ∧ k' = a.key then { w.slot b' k' with opening := none }
      else w.slot b' k' := by
    intro b' k'
    simp only [slot_endOpen, slot_setPhase, brokerOf_setPhase, brokers_setPhase, hb, and_true]
    split
    · rename_i he
      simp [he.1, he.2, endedSlot, mark]
    · rfl
  refine ⟨?_, fun b' k' hn => ?_, rfl, fun _ => rfl, ?_⟩
  · rw [slot, if_pos ⟨rfl, rfl⟩]
    exact ⟨.inl ⟨rfl, rfl⟩, .inr (.inr ⟨mark, rfl⟩)⟩
  · rw [slot, if_neg hn]
  · rw [slot, if_pos ⟨rfl, rfl⟩]
    exact .inl rfl

end Untouched

/-- A change that a call for a source makes without being given a consumer. -/
theorem Change.untouched (hc : Change m w w') (g : w.Sound) (actor : m.actor = some c)
    (hp : (w.phaseOf c).Pursues a) (hn : (w'.phaseOf c).attached? = none) :
    Untouched c (w.brokerOf c) a.key w w' := by
  have self : ∀ {d}, m.actor = some d → d = c := fun h => Option.some.inj (h.symm.trans actor)
  have wish : ∀ {q : Phase} {a'}, w.phaseOf c = q → q.wish? = some a' → a' = a := by
    rintro q a' rfl hw
    exact hp.wish hw
  have taken : ∀ {q : Phase}, w.phaseOf c = q → q.wish? = none → q.isOver = false →
      (∀ s g e, q ≠ .rejecting s g e) → False := by
    rintro q rfl hw ho hr
    rw [hp.wants ho hr] at hw
    cases hw
  have attaches : ∀ {v : System} {t}, v.calls.size = w.calls.size → w.phaseOf c ≠ .abandoned →
      ((v.attach c t).phaseOf c).attached? ≠ none := by
    intro v t hv hq
    rw [phaseOf_attach, if_pos ⟨rfl, hv ▸ w.lt_of_phaseOf c hq⟩]
    exact Option.some_ne_none _
  cases hc with
  | stay | go => exact .of_slots (fun _ _ => rfl) rfl fun _ => rfl
  | begin allowed start => subst start; cases actor
  | drop there held move => subst move; cases actor
  | make =>
    refine .of_slots (fun _ _ => rfl) rfl fun s => ?_
    rw [stream_addStream]
    split
    · rename_i hs
      rw [w.stream_of_size_le s hs.ge]
      rfl
    · rfl
  | letGo =>
    refine .of_slots (fun _ _ => rfl) rfl fun s => ?_
    rw [stream_setStream]
    split <;> rfl
  | work actor work =>
    exact .of_slots (fun b k => work.frame.slot b k) work.frame.consumers
      fun s => (work.frame.kin s).consumers
  | provide =>
    refine .of_slots (fun _ _ => rfl) rfl fun s => ?_
    rw [stream_setPhase, stream_setStream]
    split <;> rfl
  | demote place shared ended vacant act =>
    obtain rfl := self act
    obtain rfl := wish place rfl
    rw [g.flight.opening_filter] at vacant
    exact .beginOpen g place (.demote (g.custody.nodup (.slot _ _)) vacant)
  | demoteJoin place shared ended taken =>
    rw [g.flight.opening_filter] at taken
    simp [(g.flight.order _ _).vacant _ taken] at shared
  | «open» place shared vacant act =>
    obtain rfl := self act
    obtain rfl := wish place rfl
    rw [g.flight.opening_filter] at vacant
    exact .beginOpen g place ⟨.inl ⟨rfl, rfl⟩, .inr (.inl ⟨vacant, rfl⟩)⟩
  | reuse place shared counted live media act =>
    obtain rfl := self act
    exact absurd hn (attaches rfl (by simp [place]))
  | register act place work =>
    obtain rfl := self act
    exact absurd hn (attaches work.frame.calls (by simp [place]))
  | @giveUp w₁ d a' s moves wait p act place work exit =>
    obtain rfl := self act
    obtain rfl := wish place rfl
    have given : Untouched d (w₁.brokerOf d) a'.key w₁ ((w₁.setPhase d p).endOpen d a'.key none) := by
      refine .giveUp ⟨?_, ?_⟩ ((work.frame.phaseOf d).trans place)
      · exact g.custody.frame work.frame
      · exact g.flight.frame work.frame fun t ht => g.custody.unlisted (c := d) (by
          simp [place, Phase.holds, Set.mem_singleton_iff.1 ht])
    rw [work.frame.brokerOf] at given
    exact given.frame work.frame (.refl (S := ∅) _)
  | miss place missing act =>
    obtain rfl := self act
    exact (taken place rfl rfl (by simp)).elim
  | refuse place there unfit act =>
    obtain rfl := self act
    exact (taken place rfl rfl (by simp)).elim
  | detach turn place | last turn place | sweep turn place =>
    subst turn
    obtain rfl := self rfl
    exact (taken place rfl rfl (by simp)).elim

/-! ### Moves of the call -/

theorem Course.pursues (h : Course m w c p ticks x) (hp : (w.phaseOf c).Pursues a) :
    p.Pursues a := by
  generalize hq : w.phaseOf c = q at hp
  cases h with
  | stay => rw [hq]; exact hp
  | lone borrows next =>
    cases hp with
    | past past => cases q <;> simp_all [Phase.isOver, Phase.borrows]
    | _ => simp [hq, Phase.borrows] at borrows
  | abandon | deny | unattended | differ | reuse | cancel | inherit | fail | give | rejected
  | refuse | detach | torn | clear => exact .past rfl
  | reject | rejecting => exact .rejecting _ _ _
  | enter place | join place | «open» place | retry place | onward place =>
    rw [hq] at place
    subst place
    cases hp with
    | past past => cases past
    | _ => constructor
  | last place | tear place | sweep place | sweeping place | swept _ place =>
    rw [hq] at place
    subst place
    cases hp with
    | past past => cases past

/-- A call for a source counts an attachment or an open that fails, and nothing else. -/
theorem Course.counts (h : Course m w c p ticks x) (hp : (w.phaseOf c).Pursues a)
    (hn : p.attached? = none) : ticks = [] ∨
      ticks = [.openFailed] ∧ (w.phaseOf c).isOpening ∧ ∃ e, p = .finished (.failed e) := by
  cases h with
  | reuse | give => cases hn
  | fail place => exact .inr ⟨rfl, by rw [place]; rfl, _, rfl⟩
  | torn result place | swept result place =>
    rw [place] at hp
    cases hp with
    | past past => cases past
  | _ => exact .inl rfl

/-- An open begins only where nothing that delivers is on offer. -/
theorem Course.nothing_live (h : Course m w c p ticks x) (hp : w.phaseOf c = .seeking a)
    (ho : p.isOpening) (hs : (w.slot (w.brokerOf c) a.key).shared = some s) :
    (w.stream s).isLive = false := by
  cases h with
  | stay =>
    rw [hp] at ho
    cases ho
  | «open» place vacant ended =>
    rw [hp] at place
    cases place
    exact ended s hs
  | onward place =>
    rw [hp] at place
    cases place
  | lone borrows =>
    rw [hp] at borrows
    cases borrows
  | _ => cases ho

/-- A listed stream that does not deliver has ended. -/
theorem Sound.ended (g : w.Sound) (hs : s ∈ (w.slot b k).streams)
    (dead : (w.stream s).isLive = false) : (w.stream s).state = .ended := by
  have hl := ((g.flight.order b k).connected s hs).1
  cases hf : (w.stream s).feed <;> simp_all [Stream.isLive, Stream.state, Lifecycle.state]

/-- A move of a call for a source that is not given a consumer by it does no harm. -/
theorem Sound.harmless (g : w.Sound) (actor : m.actor = some c) (hp : (w.phaseOf c).Pursues a)
    (hn : ((w.step m).phaseOf c).attached? = none) :
    Harmless c (w.brokerOf c) a.key w (w.step m) := by
  have books : Untouched c (w.brokerOf c) a.key w (w.step m) := by
    obtain ⟨w₁, w₂, h₁, hc, h₂⟩ := step_books w m
    rw [← h₁.frame.phaseOf] at hp
    rw [h₂.frame.phaseOf] at hn
    rw [← h₁.frame.brokerOf]
    exact (hc.untouched (g.frame h₁.frame) actor hp hn).frame h₁.frame h₂.frame
  obtain ⟨p, ticks, x, course, adv⟩ := step_fares (w := w) actor
  have phase : (w.step m).phaseOf c = p := by rw [adv.phaseOf, if_pos rfl]
  refine ⟨books, fun s hs hd => ?_, fun b' => ?_⟩
  · rcases books.demotes with he | ⟨⟨a', place, -, key⟩, ho⟩
    · rw [he, hs] at hd
      cases hd
    · rw [phase] at ho
      rw [← key] at hs
      exact g.ended ((Slot.mem_streams _ _).2 (.inl hs)) (course.nothing_live place ho hs)
  · rw [phase] at hn ⊢
    have count := adv.counters b'
    rcases course.counts hp hn with rfl | ⟨rfl, ho, e, he⟩
    · exact .inl (count.trans (ite_self _))
    · split at count
      · rename_i hb
        obtain ⟨rfl, -⟩ := hb
        exact .inr ⟨rfl, count, ho, e, he⟩
      · exact .inl count

/-- So does the start of such a call. -/
theorem harmless_begin (w : System) (b : BrokerId) (gated : Bool) {errand : Errand}
    (source : errand.wish? = some a) (c : CallId) (k : SourceKey) :
    Harmless c b k w (w.begin b gated errand) where
  toUntouched := by
    refine .of_slots (fun b k => by rw [slot_begin]) ?_ fun s => by rw [stream_begin]
    cases errand <;> first | rfl | cases source
  ended s hs hd := by
    rw [slot_begin, hs] at hd
    cases hd
  counters b' := .inl (countersOf_begin w b b' gated errand)

/-! ### Whole calls -/

theorem pursues_start {gated : Bool} {errand : Errand} (source : errand.wish? = some a) :
    ((w.begin b gated errand).phaseOf w.calls.size).Pursues a := by
  rw [phaseOf_begin, if_pos rfl]
  cases errand <;> cases source <;> constructor

theorem pursues_run (hc : c < w.calls.size) (hp : (w.phaseOf c).Pursues a) (moves : List Move) :
    ((w.run moves).phaseOf c).Pursues a := by
  induction moves generalizing w with
  | nil => exact hp
  | cons m moves ih =>
    refine ih (step_keeps hc m).1 ?_
    by_cases actor : m.actor = some c
    · obtain ⟨p, ticks, x, course, adv⟩ := step_fares (w := w) actor
      rw [adv.phaseOf, if_pos rfl]
      exact course.pursues hp
    · rw [(step_other hc actor).1]
      exact hp

/-- A call that is over without a consumer was given none before. -/
theorem not_attached_before (hc : c < w.calls.size) (moves : List Move)
    (hn : ((w.run moves).phaseOf c).attached? = none) : (w.phaseOf c).attached? = none := by
  by_cases past : (w.phaseOf c).isOver
  · rw [run_over moves past hc] at hn
    exact hn
  · cases hp : w.phaseOf c <;> simp_all [Phase.isOver, Phase.attached?]

/-- A key is kept only for a listed stream or an open in flight. -/
theorem Trim.kept {y : Slot} (h : w.Trim) (g : w.Flight)
    (hy : (w.broker b).slots.get? k = some y) :
    y.streams ≠ [] ∨ ∃ o, y.opening = some o ∧ w.Opens o b k := by
  have slot : w.slot b k = y := by simp [System.slot, hy]
  have full := h b k y hy
  cases ho : y.opening with
  | some o => exact .inr ⟨o, rfl, (g.marks b k o).1 (slot ▸ ho)⟩
  | none =>
    refine .inl ((Slot.hasStreams_iff y).1 ?_)
    simpa [Slot.isEmpty, ho] using full

/-- A call opens where the slot has no mark. -/
theorem opens_enqueue (hc : c < w.calls.size)
    (vacant : (w.slot (w.brokerOf c) a.key).opening = none) :
    (w.enqueue c a).Opens c (w.brokerOf c) a.key := by
  simp only [enqueue, vacant, Option.filter_none]
  rw [Opens, brokerOf_beginOpen, phaseOf_beginOpen, if_pos ⟨rfl, hc⟩]
  exact ⟨rfl, a, rfl, rfl⟩

/-- A call that looks at a slot without an open in flight does not wait, and opens a stream itself if
none is listed. -/
theorem Flight.unblocked (g : w.Flight) (hp : w.phaseOf c = .seeking a)
    (idle : ∀ o, ¬ w.Opens o (w.brokerOf c) a.key) :
    (∀ a' o, (w.step (.turn (.call c))).phaseOf c ≠ .waiting a' o) ∧
    ((w.slot (w.brokerOf c) a.key).streams = [] →
      (w.step (.turn (.call c))).Opens c (w.brokerOf c) a.key) := by
  have hc : c < w.calls.size := w.lt_of_phaseOf c (by simp [hp])
  have vacant : (w.slot (w.brokerOf c) a.key).opening = none :=
    Option.eq_none_iff_forall_ne_some.2 fun o ho => idle o ((g.marks _ _ _).1 ho)
  constructor
  · intro a' o hw
    obtain ⟨p, ticks, x, course, adv⟩ := step_fares (w := w) (m := .turn (.call c)) rfl
    rw [adv.phaseOf, if_pos rfl] at hw
    subst hw
    obtain ⟨place, opens⟩ := Informed.joins g course (by simp [hp])
    rw [hp] at place
    cases place
    exact idle o opens
  · intro empty
    have none : (w.slot (w.brokerOf c) a.key).shared = none := by
      cases hs : (w.slot (w.brokerOf c) a.key).shared with
      | none => rfl
      | some s => simp [Slot.streams, hs] at empty
    rw [step_seeking hp]
    simp only [seek, none]
    exact opens_enqueue hc vacant

/-- In every run, a call for a source that is over without a consumer has done no harm with its start nor
with any of its moves: it lists no stream and takes none off, it leaves who is attached and the counts of
all streams as they are, and it counts nothing but the failure of its own open; all it may do is to put
an ended stream beside, and to set its mark, which is gone when it is over. And at every moment each key
that a broker keeps has a listed stream or an open in flight, and a call that finds no open in flight does
not wait, and opens if it finds nothing listed. -/
theorem failed_acquire_changes_nothing (configs : List BrokerConfig) (desk : AccessDesk)
    (terms : List TunerTerms) :
    (∀ before b gated errand a after,
      let w₀ := (fresh configs desk terms).run before
      let c := w₀.calls.size
      let w₁ := w₀.step (.start b gated errand)
      let w := w₁.run after
      b < configs.length → errand.wish? = some a → (w.phaseOf c).isOver →
      (w.phaseOf c).attached? = none →
        Harmless c b a.key w₀ w₁ ∧
        (∀ early m late, after = early ++ m :: late → m.actor = some c →
          let v := w₁.run early
          Harmless c b a.key v (v.step m) ∧
            ∀ b' k, ((v.step m).listedAt b' k).Perm (v.listedAt b' k)) ∧
        ∀ b' k, (w.slot b' k).opening ≠ some c) ∧
    ∀ moves,
      let w := (fresh configs desk terms).run moves
      (∀ b k y, (w.broker b).slots.get? k = some y →
        y.streams ≠ [] ∨ ∃ o, y.opening = some o ∧ w.Opens o b k) ∧
      ∀ c a, w.phaseOf c = .seeking a → (∀ o, ¬ w.Opens o (w.brokerOf c) a.key) →
        (∀ a' o, (w.step (.turn (.call c))).phaseOf c ≠ .waiting a' o) ∧
        ((w.slot (w.brokerOf c) a.key).streams = [] →
          (w.step (.turn (.call c))).Opens c (w.brokerOf c) a.key) := by
  have g₀ := sound_fresh configs desk terms
  constructor
  · intro before b gated errand a after w₀ c w₁ w hb source past none
    have allowed : errand.isAllowed w₀ b := by
      have lt : b < w₀.brokers.size := by
        rw [brokers_size_run]
        simpa [fresh, Table.size] using hb
      cases errand <;> simp_all [Errand.wish?, Errand.isAllowed]
    have begun : w₁ = w₀.begin b gated errand := if_pos allowed
    have g₁ : w₁.Sound := (g₀.run before).step _
    have hc : c < w₁.calls.size := by
      rw [begun, calls_begin, calls_size_addCall]
      exact Nat.lt_succ_self _
    have broker : w₁.brokerOf c = b := by
      rw [begun, brokerOf_begin]
      exact if_pos rfl
    have pursues : (w₁.phaseOf c).Pursues a := by
      rw [begun]
      exact pursues_start source
    refine ⟨?_, ?_, ?_⟩
    · rw [begun]
      exact harmless_begin w₀ b gated source c a.key
    · intro early m late split actor v
      have hv : c < v.calls.size := (run_keeps hc early).1
      have still : ((v.step m).phaseOf c).attached? = .none := by
        have final : (v.step m).run late = w := by
          rw [show w = w₁.run (early ++ m :: late) from congrArg _ split, run_append]
          rfl
        refine not_attached_before (step_keeps hv m).1 late ?_
        rw [final]
        exact none
      have harmless := (g₁.run early).harmless actor (pursues_run hc pursues early) still
      rw [(run_keeps hc early).2, broker] at harmless
      exact ⟨harmless, harmless.listed⟩
    · intro b' k mark
      obtain ⟨-, a', ha', -⟩ := ((g₁.run after).flight.marks b' k c).1 mark
      generalize w.phaseOf c = q at past ha'
      cases q <;> simp [Phase.isOver, Phase.opens?] at past ha'
  · intro moves w
    have g : w.Sound := g₀.run moves
    have trim : w.Trim := (trim_fresh configs desk terms).run moves
    exact ⟨fun b k y hy => trim.kept g.flight hy, fun c a hp idle => g.flight.unblocked hp idle⟩

/-- The moves of a call that opens a stream, up to the tuner's answer. -/
def dialed : List Move := [.turn (.call 0), .turn (.call 0)]

theorem failed_acquire_changes_nothing_refused :
    (((refusing.step (.start 0 false sampleErrand)).run (dialed ++ [.turn (.call 0)])).phaseOf
      0).isOver ∧
    Harmless 0 0 sampleRequest.key ((refusing.step (.start 0 false sampleErrand)).run dialed)
      (((refusing.step (.start 0 false sampleErrand)).run dialed).step (.turn (.call 0))) ∧
    (((refusing.step (.start 0 false sampleErrand)).run (dialed ++ [.turn (.call 0)])).countersOf
      0).openFailures = 1 := by
  obtain ⟨whole, -⟩ := failed_acquire_changes_nothing [{}] {} [{ failure := some "refused" }]
  obtain ⟨-, moves, -⟩ := whole [] 0 false sampleErrand (.ofRequest sampleRequest none {})
    (dialed ++ [.turn (.call 0)]) (by decide) rfl (by decide) (by decide)
  exact ⟨by decide, (moves dialed (.turn (.call 0)) [] rfl rfl).1, by decide⟩

end System

end TunerBroker
