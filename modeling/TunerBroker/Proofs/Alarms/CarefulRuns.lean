import TunerBroker.Proofs.Alarms.Beginnings

/-! Runs without breaches. Where consumers are released to their own brokers and before any sweep of their
streams, where opens give connected streams of the key that is asked for, and where those who open and close
streams by themselves do either once, in this order and not while the other is still under way, nothing is
found amiss: no alarm is raised, and no call fails with a breach. -/

namespace TunerBroker

namespace System

variable {m : Move} {moves before : List Move} {P : List Move → CallId → Prop} {w v : System}
  {c : CallId} {a : Acquisition} {s : StreamId} {token : Option Token}

/-- The call opens a stream by itself, or for an open that is not just a single connect. -/
def OpensByHand (w : System) (c : CallId) : Prop := ∀ a, (w.phaseOf c).opens? = some a → ¬a.IsPlain

/-- After these moves, a turn of the call treats consumers and streams as it should. -/
structure Abides (w : System) (before : List Move) (c : CallId) : Prop where
  /-- It releases a consumer to its own broker, and not after a sweep. -/
  releases : ∀ {i x}, (w.run before).phaseOf c = .releasing i → (w.run before).consumers.get? i = some x →
    x.broker = (w.run before).brokerOf c ∧ ¬w.IsSwept before x.broker x.stream
  /-- Its open gives a connected stream of the key that is asked for. -/
  gives : ∀ {a s v}, (w.run before).Makes c a s [] v → ¬a.IsPlain →
    (v.stream s).key = a.key ∧ (v.stream s).isConnected
  /-- It opens by hand no stream that has been opened already. -/
  opens : ∀ {s token v}, (w.run before).BeginsOpen c s token v → (w.run before).OpensByHand c →
    ¬w.HasOpened before s
  /-- It closes, unless for its broker, no stream that has been closed already. -/
  closes : ∀ {s v}, (w.run before).BeginsClose c s v → ((w.run before).phaseOf c).closes = [] →
    ¬w.HasClosed before s

/-- Moreover it does not open what has been closed, nor close what is being opened. -/
structure Respects (w : System) (before : List Move) (c : CallId) : Prop extends Abides w before c where
  unclosed : ∀ {s token v}, (w.run before).BeginsOpen c s token v → (w.run before).OpensByHand c →
    ¬w.HasClosed before s
  opened : ∀ {s v}, (w.run before).BeginsClose c s v → ((w.run before).phaseOf c).closes = [] →
    (v.stream s).state ≠ .opening

/-- This holds of all turns of calls in the list, each with the moves before it. -/
def AtTurns (P : List Move → CallId → Prop) (moves : List Move) : Prop :=
  ∀ before c, before ++ [.turn (.call c)] <+: moves → P before c

/-- In the course of the run consumers and streams are treated as they should be. -/
def Abiding (w : System) : List Move → Prop := AtTurns w.Abides

/-- So they are, and streams are opened before they are closed. -/
def Careful (w : System) : List Move → Prop := AtTurns w.Respects

theorem AtTurns.earlier (h : AtTurns P (moves ++ [m])) : AtTurns P moves := fun before c part =>
  h before c (part.trans (List.prefix_append moves [m]))

theorem AtTurns.last (h : AtTurns P (moves ++ [m])) (turn : m = .turn (.call c)) : P moves c :=
  h moves c (by rw [turn])

theorem atTurns_of_take
    (h : ∀ k < moves.length, ∀ c, moves[k]? = some (.turn (.call c)) → P (moves.take k) c) :
    AtTurns P moves := by
  rintro before c ⟨after, rfl⟩
  have here := h before.length (by simp) c (by simp)
  rwa [List.append_assoc, List.take_left] at here

/-! ### Nothing amiss -/

/-- A stream that a call begins to open, or to close, is there. -/
theorem Custody.made_of_keeps (g : w.Custody) (keeps : s ∈ (w.phaseOf c).owns ∨ s ∈ (w.phaseOf c).borrows) :
    s < w.streams.size :=
  keeps.elim (g.made (o := .call c)) g.lent_made

/-- An open by a single connect gives the stream that it has asked for. -/
theorem Makes.fit (yields : w.Makes c a s [] v) (plain : a.IsPlain) (g : w.Simple) (faithful : w.Faithful) :
    (v.stream s).key = a.key ∧ (v.stream s).isConnected := by
  cases yields with
  | next place =>
    have heeds := g.heeds place plain
    rw [place] at heeds
    obtain ⟨⟨⟩, -⟩ | ⟨-, d, ⟨⟩, -⟩ := heeds
  | @atOnce d place made =>
    obtain ⟨r, token, config, rfl⟩ := plain
    obtain ⟨-, hs, alike⟩ := faithful.opens place rfl
    have key : (w.stream s).key = r.key := congrArg StreamRequest.key alike.request
    rcases w.finishOpen_cases c s d with ⟨l, e, -, he⟩ | he
    · rw [he] at made
      cases made
    · rw [he, stream_connected hs]
      exact ⟨key, rfl⟩

/-- A stream that is opened by hand, for the first time and before any close, is unopened. -/
theorem Respects.unopened (h : w.Respects moves c) (reg : w.Regular) (empty : w.streams.size = 0)
    (begins : (w.run moves).BeginsOpen c s token v) (hand : (w.run moves).OpensByHand c) :
    (v.stream s).state = .unopened := by
  have here := reg.run moves
  have hs := here.sound.custody.made_of_keeps begins.keeps
  have unopened := reg.unopened_run empty hs (h.opens begins hand) (h.unclosed begins hand)
  cases begins with
  | alone place | move place => exact (Stream.state_eq_iff (by rintro ⟨⟩)).2 unopened
  | atOnce place =>
    exact absurd unopened (here.wired.not_unopened (c := c) (by rw [jobs, place]; rfl))

/-- So is one that is opened by a single connect. -/
theorem Simple.state_unopened (g : w.Simple) (begins : w.BeginsOpen c s token v)
    (opens : (w.phaseOf c).opens? = some a) (plain : a.IsPlain) : (v.stream s).state = .unopened := by
  cases begins with
  | alone place =>
    rw [place] at opens
    cases opens
  | move place =>
    rw [place] at opens
    cases opens
    exact (Stream.state_eq_iff (by rintro ⟨⟩)).2 (g.unopened place plain)
  | atOnce place =>
    rw [place] at opens
    cases opens
    have heeds := g.heeds place plain
    rw [place] at heeds
    obtain ⟨-, ⟨⟩⟩ | ⟨⟨⟩, -⟩ := heeds

/-- A stream that is closed by hand, for the first time and not while it is being opened, has something to
close. -/
theorem Respects.closable (h : w.Respects moves c) (reg : w.Regular) (empty : w.streams.size = 0)
    (begins : (w.run moves).BeginsClose c s v) (own : ((w.run moves).phaseOf c).closes = []) :
    (v.stream s).state ∈ [StreamState.unopened, .live, .ended] := by
  have here := reg.run moves
  have hs := here.sound.custody.made_of_keeps begins.keeps
  have undone := reg.isDone_run empty hs (h.closes begins own)
  have idle := h.opened begins own
  have closable : ∀ {x : StreamState}, x.isDone = false → x ≠ .opening →
      x ∈ [StreamState.unopened, .live, .ended] := by
    intro x
    cases x <;> simp [StreamState.isDone]
  cases begins with
  | tear place | sweep place =>
    rw [place] at own
    cases own
  | alone place | reject place | move place => exact closable undone idle
  | @atOnce a rest d place made =>
    rcases (w.run moves).finishOpen_cases c s d with ⟨l, e, -, he⟩ | he
    · rw [he] at made
      cases made
    · rw [he, closable_iff, stream_connected hs]
      exact .inr rfl

section Fresh

variable {configs : List BrokerConfig} {desk : AccessDesk} {terms : List TunerTerms}

/-- A consumer that is released to its own broker, and not after a sweep of its stream, is listed there and
counted. -/
theorem Abides.listed {i : ConsumerId} {x : Consumer} (h : (fresh configs desk terms).Abides moves c)
    (bound : ((fresh configs desk terms).run moves).attachments x.stream < 2 ^ 32)
    (place : ((fresh configs desk terms).run moves).phaseOf c = .releasing i)
    (there : ((fresh configs desk terms).run moves).consumers.get? i = some x) :
    x.stream ∈ (((fresh configs desk terms).run moves).slot
      (((fresh configs desk terms).run moves).brokerOf c) x.key).streams := by
  obtain ⟨y, hy, handed⟩ := ((ledger_fresh configs desk terms).run (sound_fresh configs desk terms)
    moves).handed (c := c) (i := i) (by rw [place]; rfl)
  obtain rfl : x = y := Option.some.inj (there.symm.trans hy)
  obtain ⟨own, unswept⟩ := h.releases place there
  rcases attached_or_swept configs desk terms moves bound there (by rw [handed]; rintro ⟨⟩) with
    attached | swept
  · exact own ▸ attached.listed
  · exact absurd swept unswept

/-- A turn that treats everything as it should finds nothing amiss. -/
theorem Respects.flawless (h : (fresh configs desk terms).Respects moves c)
    (bound : ∀ s, ((fresh configs desk terms).run moves).attachments s < 2 ^ 32) :
    ¬((fresh configs desk terms).run moves).Fault c := by
  have reg := regular_fresh configs desk terms
  have here := reg.run moves
  have faithful := (faithful_fresh configs desk terms).run moves
  have simple := (simple_fresh configs desk terms).run reg (faithful_fresh configs desk terms) moves
  have counted : ∀ {b k s}, s ∈ (((fresh configs desk terms).run moves).slot b k).streams →
      (((fresh configs desk terms).run moves).stream s).consumers ≠ 0 := fun listed =>
    (here.ledger.counted listed).consumers_ne_zero (bound _)
  intro fault
  cases fault with
  | unattended place shared uncounted => exact counted ((Slot.mem_streams _ _).2 (.inl shared)) uncounted
  | @unfit a s v yields unfit =>
    have fit : (v.stream s).key = a.key ∧ (v.stream s).isConnected := by
      by_cases plain : a.IsPlain
      · exact yields.fit plain simple faithful
      · exact h.gives yields plain
    rcases unfit with other | off
    · exact other fit.1
    · rw [fit.2] at off
      cases off
  | unlisted place there unfit =>
    have listed := h.listed (bound _) place there
    exact counted listed (unfit (isHeld_of_listed listed) ((Slot.isRegistered_iff _ _).2 listed))
  | misopened begins state =>
    by_cases hand : ((fresh configs desk terms).run moves).OpensByHand c
    · exact state (h.unopened reg rfl begins hand)
    · simp only [OpensByHand, not_forall, not_not] at hand
      obtain ⟨a, opens, plain⟩ := hand
      exact state (simple.state_unopened begins opens plain)
  | misclosed begins own state => exact state (h.closable reg rfl begins own)

end Fresh

/-! ### Every run -/

/-- No alarm has been raised, and no call has come to a breach. -/
structure Serene (w : System) : Prop where
  alarms : w.alarms = []
  unbreached : ∀ c, (w.phaseOf c).isBreached = false

theorem Serene.silent (g : w.Serene) (c : CallId) : ¬w.IsLoud c := by
  rw [IsLoud, g.alarms]
  exact List.not_mem_nil

theorem Serene.step (g : w.Serene) (h : w.Regular)
    (excuses : ∀ c, ∀ e ∈ (w.phaseOf c).excuses, e.isViolation = false)
    (told : ∀ o e, w.announcedBy o = some (.failed e) → e.isViolation = false)
    (flawless : ∀ c, m = .turn (.call c) → ¬w.Fault c) : (w.step m).Serene := by
  have own : ∀ c, m.actor = some c →
      (w.step m).alarms = [] ∧ ((w.step m).phaseOf c).isBreached = false := by
    intro c actor
    obtain ⟨p, raised, answers, place, raises⟩ := h.rings actor
    rw [place, raises, g.alarms]
    cases answers with
    | stay => exact ⟨rfl, g.unbreached c⟩
    | leave => exact ⟨rfl, rfl⟩
    | calm before after => exact ⟨rfl, after⟩
    | told move before after => exact ⟨rfl, after⟩
    | excuse before own => exact ⟨rfl, excuses c _ own⟩
    | inherit turn hp failed => exact ⟨rfl, told _ _ failed⟩
    | breach turn before fault | reject turn before fault => exact absurd fault (flawless c turn)
    | rejecting hp | rejected hp =>
      have before := g.unbreached c
      rw [hp] at before
      cases before
  refine ⟨?_, fun d => ?_⟩
  · cases actor : m.actor with
    | none => exact (alarms_step actor).trans g.alarms
    | some c => exact (own c actor).1
  · by_cases actor : m.actor = some d
    · exact (own d actor).2
    · rcases w.step_cases m d with ⟨same, -⟩ | ⟨moved, -⟩ | ⟨b, gated, errand, -, -, -, place, -⟩
      · rw [same]
        exact g.unbreached d
      · exact absurd moved actor
      · rw [place]
        cases errand <;> rfl

theorem serene_run (configs : List BrokerConfig) (desk : AccessDesk) (terms : List TunerTerms)
    (moves : List Move) (honest : ∀ m ∈ moves, m.IsHonest)
    (bound : ∀ s, ((fresh configs desk terms).run moves).attachments s < 2 ^ 32)
    (careful : (fresh configs desk terms).Careful moves) : ((fresh configs desk terms).run moves).Serene := by
  induction moves using List.reverseRecOn with
  | nil => exact ⟨rfl, fun _ => rfl⟩
  | append_singleton moves m ih =>
    have reg := regular_fresh configs desk terms
    have honest' : ∀ x ∈ moves, x.IsHonest := fun x hx => honest x (List.mem_append_left _ hx)
    have bound' : ∀ s, ((fresh configs desk terms).run moves).attachments s < 2 ^ 32 := fun s => by
      have more := attachments_le_step ((fresh configs desk terms).run moves) m s
      rw [← run_concat] at more
      exact more.trans_lt (bound s)
    have candid := candid_earlier configs desk terms honest'
    have g := ih honest' bound' (AtTurns.earlier careful)
    rw [run_concat]
    refine g.step (reg.run moves) (fun c => (candid moves c (List.prefix_refl _)).excuses)
      (fun o e told => Bool.eq_false_of_not_eq_true fun violation => ?_)
      fun c turn => (AtTurns.last careful turn).flawless bound'
    exact g.silent o (announced_loud reg (fun _ => rfl) candid told violation)

/-- Breaches are loud, and only they are. In every run in which no breach comes from outside, a call that has
ended has raised an alarm just when it has failed with a breach that it has not had from another's open; a
sweep raises none, and nothing but calls does. A careful run has no alarm, and no call of it fails with a
breach. -/
theorem breaches_are_loud (configs : List BrokerConfig) (desk : AccessDesk) (terms : List TunerTerms)
    (moves : List Move) (honest : ∀ m ∈ moves, m.IsHonest) :
    let w₀ := fresh configs desk terms
    let w := w₀.run moves
    (∀ c out, w.phaseOf c = .finished out →
      (w.IsLoud c ↔ (∃ e, out = .failed e ∧ e.isViolation) ∧ ¬w₀.IsHeir moves c)) ∧
    (∀ c b, w₀.errandOf c moves = some (b, .sweep) → ¬w.IsLoud c) ∧ none ∉ w.alarms ∧
    ((∀ s, w.attachments s < 2 ^ 32) → w₀.Careful moves →
      w.alarms = [] ∧ ∀ c e, w.phaseOf c = .finished (.failed e) → e.isViolation = false) := by
  intro w₀ w
  have reg : w₀.Regular := regular_fresh configs desk terms
  have candid := candid_earlier configs desk terms honest
  refine ⟨fun c out ended => (candid moves c (List.prefix_refl moves)).finished ended,
    fun c b made => reg.silent_sweep (Nat.zero_le c) candid made, reg.owned_run (by rintro ⟨⟩) moves,
    fun bound careful => ?_⟩
  have serene := serene_run configs desk terms moves honest bound careful
  refine ⟨serene.alarms, fun c e ended => ?_⟩
  have unbreached := serene.unbreached c
  rw [ended] at unbreached
  exact unbreached

/-! ### Turns that are as they should be -/

theorem BeginsOpen.alone_of_borrows (h : w.BeginsOpen c s token v) (alone : (w.phaseOf c).borrows ≠ []) :
    w.phaseOf c = .dialStart s token := by
  cases h with
  | alone place => exact place
  | move place | atOnce place => rw [place] at alone; exact absurd rfl alone

theorem BeginsClose.alone_of_borrows (h : w.BeginsClose c s v) (alone : (w.phaseOf c).borrows ≠ []) :
    w.phaseOf c = .closeStart s ∧ v = w := by
  cases h with
  | alone place => exact ⟨place, rfl⟩
  | reject place | tear place | sweep place | move place | atOnce place =>
    rw [place] at alone
    exact absurd rfl alone

/-- A call that works on a stream by itself. -/
theorem abides_alone (alone : ((w.run before).phaseOf c).borrows ≠ [])
    (opens : ∀ {s token}, (w.run before).phaseOf c = .dialStart s token → ¬w.HasOpened before s)
    (closes : ∀ {s}, (w.run before).phaseOf c = .closeStart s → ¬w.HasClosed before s) :
    w.Abides before c where
  releases place := by
    rw [place] at alone
    exact absurd rfl alone
  gives yields := by
    cases yields with
    | next place | atOnce place => rw [place] at alone; exact absurd rfl alone
  opens begins _ := opens (begins.alone_of_borrows alone)
  closes begins _ := closes (begins.alone_of_borrows alone).1

theorem respects_alone (alone : ((w.run before).phaseOf c).borrows ≠ [])
    (opens : ∀ {s token}, (w.run before).phaseOf c = .dialStart s token →
      ¬w.HasOpened before s ∧ ¬w.HasClosed before s)
    (closes : ∀ {s}, (w.run before).phaseOf c = .closeStart s →
      ¬w.HasClosed before s ∧ ((w.run before).stream s).state ≠ .opening) : w.Respects before c where
  toAbides := abides_alone alone (fun place => (opens place).1) fun place => (closes place).1
  unclosed begins _ := (opens (begins.alone_of_borrows alone)).2
  opened begins _ := by
    obtain ⟨place, rfl⟩ := begins.alone_of_borrows alone
    exact (closes place).2

/-- A call for the source of a request, or one that releases a consumer as it should. -/
theorem respects_plain (plain : ((w.run before).phaseOf c).IsPlain)
    (releases : ∀ {i x}, (w.run before).phaseOf c = .releasing i → (w.run before).consumers.get? i = some x →
      x.broker = (w.run before).brokerOf c ∧ ¬w.IsSwept before x.broker x.stream) :
    w.Respects before c := by
  have machine : ∀ {s token v}, (w.run before).BeginsOpen c s token v →
      ¬(w.run before).OpensByHand c := by
    intro s token v begins hand
    cases begins with
    | alone place => rw [place] at plain; exact plain
    | move place | atOnce place => rw [place] at plain; exact hand _ (by rw [place]; rfl) plain.1
  have broker : ∀ {s v}, (w.run before).BeginsClose c s v → ((w.run before).phaseOf c).closes ≠ [] := by
    intro s v begins
    cases begins with
    | alone place | reject place => rw [place] at plain; exact plain.elim
    | tear place | sweep place => rw [place]; rintro ⟨⟩
    | move place | atOnce place =>
      rw [place] at plain
      obtain ⟨⟨r, token, config, rfl⟩, ⟨⟨⟩, -⟩ | ⟨⟨⟩, -⟩⟩ := plain
  refine ⟨⟨releases, fun yields hand => ?_, fun begins hand => absurd hand (machine begins),
    fun begins own => absurd own (broker begins)⟩, fun begins hand => absurd hand (machine begins),
    fun begins own => absurd own (broker begins)⟩
  cases yields with
  | next place | atOnce place => rw [place] at plain; exact absurd plain.1 hand

/-- One stream is opened and then closed; after that, a consumer of another comes and goes. -/
def openedThenClosed : List Move :=
  [.make sampleRequest {}, .start 0 false (.openStream 0 none), .turn (.call 0), .turn (.call 0),
    .start 0 false (.closeStream 0), .turn (.call 1), .start 0 false sampleErrand, .turn (.call 2),
    .turn (.call 2), .turn (.call 2), .start 0 false (.release 0), .turn (.call 3)]

theorem careful_openedThenClosed : (fresh [{}] {} []).Careful openedThenClosed := by
  have unopened : ∀ s, ¬(fresh [{}] {} []).HasOpened (openedThenClosed.take 2) s := by
    rintro s (⟨c, token, v, ⟨⟩, -⟩ | ⟨c, token, v, ⟨⟩, -⟩ | none)
    exact none
  have unclosed : ∀ s, ¬(fresh [{}] {} []).HasClosed (openedThenClosed.take 2) s := by
    rintro s (⟨c, v, ⟨⟩, -⟩ | ⟨c, v, ⟨⟩, -⟩ | none)
    exact none
  have unclosed' : ∀ s, ¬(fresh [{}] {} []).HasClosed (openedThenClosed.take 5) s := by
    rintro s (⟨c, v, ⟨⟩, -⟩ | ⟨c, v, ⟨⟩, -⟩ | ⟨c, v, ⟨⟩, begins⟩ | ⟨c, v, ⟨⟩, begins⟩ | ⟨c, v, ⟨⟩, -⟩ | none)
    · cases (begins.alone_of_borrows (by decide)).1
    · cases (begins.alone_of_borrows (by decide)).1
    · exact none
  have plain : (Acquisition.ofRequest sampleRequest none {}).IsPlain := ⟨sampleRequest, none, {}, rfl⟩
  have unswept : ¬(fresh [{}] {} []).IsSwept (openedThenClosed.take 11) 0 1 := fun swept =>
    swept.unlisted (ledger_fresh ..) (sound_fresh ..) 0 sampleRequest.key (by decide)
  refine atTurns_of_take fun k hk c turn => ?_
  match k, turn with
  | 0, turn | 1, turn | 4, turn | 6, turn | 10, turn | _ + 12, turn => cases turn
  | 2, turn =>
    cases turn
    exact respects_alone (by decide) (fun _ => ⟨unopened _, unclosed _⟩) (by rintro s ⟨⟩)
  | 3, turn =>
    cases turn
    exact respects_alone (by decide) (by rintro s token ⟨⟩) (by rintro s ⟨⟩)
  | 5, turn =>
    cases turn
    refine respects_alone (by decide) (by rintro s token ⟨⟩) ?_
    rintro s ⟨⟩
    exact ⟨unclosed' 0, by decide⟩
  | 7, turn =>
    cases turn
    have place : ((fresh [{}] {} []).run (openedThenClosed.take 7)).phaseOf 2 =
        .seeking (.ofRequest sampleRequest none {}) := rfl
    exact respects_plain (by rw [place]; exact plain) (by rw [place]; rintro i x ⟨⟩)
  | 8, turn =>
    cases turn
    have place : ((fresh [{}] {} []).run (openedThenClosed.take 8)).phaseOf 2 =
        .opening (.ofRequest sampleRequest none {}) 1 [.connect none] .nowhere := rfl
    exact respects_plain (by rw [place]; exact ⟨plain, .inl ⟨rfl, rfl⟩⟩) (by rw [place]; rintro i x ⟨⟩)
  | 9, turn =>
    cases turn
    have place : ((fresh [{}] {} []).run (openedThenClosed.take 9)).phaseOf 2 =
        .opening (.ofRequest sampleRequest none {}) 1 [] (.dialing ⟨1, 0, 30000, none⟩) := rfl
    exact respects_plain (by rw [place]; exact ⟨plain, .inr ⟨rfl, _, rfl⟩⟩) (by rw [place]; rintro i x ⟨⟩)
  | 11, turn =>
    cases turn
    have place : ((fresh [{}] {} []).run (openedThenClosed.take 11)).phaseOf 3 = .releasing 0 := rfl
    have there : ((fresh [{}] {} []).run (openedThenClosed.take 11)).consumers.get? 0 =
        some ⟨0, 1, sampleRequest.key, .handedOver⟩ := rfl
    refine respects_plain (by rw [place]; trivial) fun {i x} hp hx => ?_
    obtain rfl : 0 = i := Phase.releasing.inj (place.symm.trans hp)
    obtain rfl := Option.some.inj (there.symm.trans hx)
    exact ⟨by decide, unswept⟩

theorem breaches_are_loud_openedThenClosed :
    let w := (fresh [{}] {} []).run openedThenClosed
    (∀ m ∈ openedThenClosed, m.IsHonest) ∧ (∀ s, w.attachments s < 2 ^ 32) ∧
      (fresh [{}] {} []).Careful openedThenClosed ∧ w.phaseOf 0 = .finished .done ∧ ¬w.IsLoud 0 ∧
      w.alarms = [] ∧ ∀ c e, w.phaseOf c = .finished (.failed e) → e.isViolation = false := by
  intro w
  have honest : ∀ m ∈ openedThenClosed, m.IsHonest := by
    simp [openedThenClosed, Move.IsHonest, Errand.wish?, sampleErrand, Acquisition.IsHonest,
      Acquisition.ofRequest, OpenMove.excuse?]
  have bound : ∀ s, w.attachments s < 2 ^ 32 := fun s => List.countP_le_length.trans_lt (by decide)
  have ended : w.phaseOf 0 = .finished .done := rfl
  obtain ⟨loud, -, -, serene⟩ := breaches_are_loud [{}] {} [] openedThenClosed honest
  refine ⟨honest, bound, careful_openedThenClosed, ended, fun h => ?_,
    serene bound careful_openedThenClosed⟩
  obtain ⟨⟨e, ⟨⟩, -⟩, -⟩ := (loud 0 .done ended).1 h

/-- A stream is made, and closed while a call is opening it. -/
def closedTooEarly : List Move :=
  [.make sampleRequest {}, .start 0 false (.openStream 0 none), .turn (.call 0),
    .start 0 false (.closeStream 0), .turn (.call 1)]

/-- A stream is made and closed, and then opened. -/
def openedTooLate : List Move :=
  [.make sampleRequest {}, .start 0 false (.closeStream 0), .turn (.call 0),
    .start 0 false (.openStream 0 none), .turn (.call 1)]

/-- That streams are not opened twice, nor closed twice, is not enough: one that is closed while it is being
opened has the close fail with a breach, and one that is opened after its close has the open do so. -/
theorem abiding_runs_can_breach :
    let w₀ := fresh [{}] {} []
    ((∀ m ∈ closedTooEarly, m.IsHonest) ∧ (∀ s, (w₀.run closedTooEarly).attachments s < 2 ^ 32) ∧
      w₀.Abiding closedTooEarly ∧ (w₀.run closedTooEarly).alarms = [some 1] ∧
      (w₀.run closedTooEarly).phaseOf 1 =
        .finished (.failed (.violation sampleRequest.key (.closeOn .opening)))) ∧
    (∀ m ∈ openedTooLate, m.IsHonest) ∧ (∀ s, (w₀.run openedTooLate).attachments s < 2 ^ 32) ∧
      w₀.Abiding openedTooLate ∧ (w₀.run openedTooLate).alarms = [some 1] ∧
      (w₀.run openedTooLate).phaseOf 1 =
        .finished (.failed (.violation sampleRequest.key (.openOn .closed))) := by
  intro w₀
  have early : w₀.Abiding closedTooEarly := by
    refine atTurns_of_take fun k hk c turn => ?_
    match k, turn with
    | 0, turn | 1, turn | 3, turn | _ + 5, turn => cases turn
    | 2, turn =>
      cases turn
      refine abides_alone (by decide) (fun {s token} _ => ?_) (by rintro s ⟨⟩)
      rintro (⟨c, token, v, ⟨⟩, -⟩ | ⟨c, token, v, ⟨⟩, -⟩ | none)
      exact none
    | 4, turn =>
      cases turn
      refine abides_alone (by decide) (by rintro s token ⟨⟩) fun {s} _ => ?_
      rintro (⟨c, v, ⟨⟩, -⟩ | ⟨c, v, ⟨⟩, -⟩ | ⟨c, v, ⟨⟩, begins⟩ | ⟨c, v, ⟨⟩, -⟩ | none)
      · cases (begins.alone_of_borrows (by decide)).1
      · exact none
  have late : w₀.Abiding openedTooLate := by
    refine atTurns_of_take fun k hk c turn => ?_
    match k, turn with
    | 0, turn | 1, turn | 3, turn | _ + 5, turn => cases turn
    | 2, turn =>
      cases turn
      refine abides_alone (by decide) (by rintro s token ⟨⟩) fun {s} _ => ?_
      rintro (⟨c, v, ⟨⟩, -⟩ | ⟨c, v, ⟨⟩, -⟩ | none)
      exact none
    | 4, turn =>
      cases turn
      refine abides_alone (by decide) (fun {s token} _ => ?_) (by rintro s ⟨⟩)
      rintro (⟨c, token, v, ⟨⟩, -⟩ | ⟨c, token, v, ⟨⟩, -⟩ | ⟨c, token, v, ⟨⟩, begins⟩ |
        ⟨c, token, v, ⟨⟩, -⟩ | none)
      · cases begins.alone_of_borrows (by decide)
      · exact none
  refine ⟨⟨?_, fun s => List.countP_le_length.trans_lt (by decide), early, by decide, rfl⟩, ?_,
    fun s => List.countP_le_length.trans_lt (by decide), late, by decide, rfl⟩
  · simp [closedTooEarly, Move.IsHonest, Errand.wish?]
  · simp [openedTooLate, Move.IsHonest, Errand.wish?]

end System

end TunerBroker
