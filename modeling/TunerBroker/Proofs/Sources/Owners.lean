import TunerBroker.Proofs.Sources.Excerpt
import TunerBroker.Proofs.Sources.Footprint
import TunerBroker.Proofs.Closes.Sweep

/-! What belongs to which source in a run. A call belongs to the source that it was made for. A stream
belongs to the source that it is opened for, if ever it is: it has no name from then on, so that no call
of another source comes to open it. Connections go with their streams. -/

namespace TunerBroker

/-- What the call sets out to do that begins with the move, and on which broker. -/
def Move.errand? : Move → Option (BrokerId × Errand)
  | start b _ x => some (b, x)
  | _ => none

/-- The sources that things belong to; some belong to none. -/
structure Owners where
  made : CallId → Option (BrokerId × Errand)
  stream : StreamId → Option Source
  connection : ConnectionId → Option Source
  consumer : ConsumerId → Option Source

namespace Owners

/-- The source of a call that is made on the broker for this. -/
def errand (O : Owners) (b : BrokerId) : Errand → Option Source
  | .acquire a | .enter _ a => some (b, a.key)
  | .release i => O.consumer i
  | .openStream s _ | .closeStream s => O.stream s
  | .sweep => none

def call (O : Owners) (c : CallId) : Option Source := (O.made c).bind fun x => O.errand x.1 x.2

end Owners

namespace System

/-- The source that a call is opening the stream for at this moment. -/
def opener? (w : System) (s : StreamId) : Option Source :=
  (List.range w.calls.size).findSome? fun c =>
    match w.phaseOf c with
    | .opening a t _ _ => if t = s then some (w.brokerOf c, a.key) else none
    | _ => none

/-- The source that the stream is opened for first in the course of a run. -/
def openedFor (s : StreamId) (w : System) : List Move → Option Source
  | [] => w.opener? s
  | m :: moves => (w.opener? s).or (openedFor s (w.step m) moves)

/-- What the call of a number sets out to do that is made in the course of a run, and on which broker. -/
def errandOf (c : CallId) (w : System) : List Move → Option (BrokerId × Errand)
  | [] => none
  | m :: moves => if c < (w.step m).calls.size then m.errand? else errandOf c (w.step m) moves

/-- What belongs to which source in the course of a run. -/
def owners (w : System) (moves : List Move) : Owners where
  made c := w.errandOf c moves
  stream s := w.openedFor s moves
  connection n := ((w.run moves).connections.get? n).bind fun x => w.openedFor x.stream moves
  consumer i := ((w.run moves).consumers.get? i).map fun x => (x.broker, x.key)

/-- What the owners say of streams, connections and consumers is so at this moment. -/
structure Knows (O : Owners) (w : System) : Prop where
  stream : ∀ {c s b k}, w.OpensFor c s b k → O.stream s = some (b, k)
  connection : ∀ {n x}, w.connections.get? n = some x → O.connection n = O.stream x.stream
  consumer : ∀ {i x}, w.consumers.get? i = some x → O.consumer i = some (x.broker, x.key)

/-- The stream is there without a name, and calls open it for this source only. -/
structure Claimed (w : System) (s : StreamId) (x : Source) : Prop where
  made : s < w.streams.size
  unnamed : (w.stream s).named = false
  sole : ∀ {c b k}, w.OpensFor c s b k → (b, k) = x

variable {m : Move} {w w' : System} {b b' : BrokerId} {k k' : SourceKey} {c d : CallId} {s : StreamId}
  {x : Source} {moves : List Move}

/-! ### Streams that are opened -/

theorem opensFor_iff : w.OpensFor c s b k ↔ w.brokerOf c = b ∧
    ∃ a, (w.phaseOf c).opens? = some a ∧ (w.phaseOf c).opening? = some s ∧ a.key = k := by
  refine and_congr_right fun _ => ⟨?_, ?_⟩
  · rintro ⟨a, moves, wait, place, key⟩
    rw [place]
    exact ⟨a, rfl, rfl, key⟩
  · rintro ⟨a, ha, hs, key⟩
    cases hp : w.phaseOf c <;> rw [hp] at ha hs <;> cases ha
    cases hs
    exact ⟨_, _, _, rfl, key⟩

theorem Custody.sole_opener (h : w.Custody) (hc : w.OpensFor c s b k) (hd : w.OpensFor d s b' k') :
    (b', k') = (b, k) := by
  obtain ⟨rfl, a, moves, wait, place, rfl⟩ := hc
  obtain ⟨rfl, a', moves', wait', place', rfl⟩ := hd
  have own : s ∈ w.kept (.call c) := by simp [System.kept, place, Phase.owns]
  have own' : s ∈ w.kept (.call d) := by simp [System.kept, place', Phase.owns]
  cases h.unique own own'
  rw [place] at place'
  cases place'
  rfl

theorem opensFor_of_opener? (h : w.opener? s = some x) : ∃ c, w.OpensFor c s x.1 x.2 := by
  obtain ⟨c, -, hc⟩ := List.exists_of_findSome?_eq_some h
  refine ⟨c, ?_⟩
  split at hc
  · rename_i a t moves wait place
    split at hc
    · rename_i ht
      obtain rfl := Option.some.inj hc
      exact ⟨rfl, a, moves, wait, ht ▸ place, rfl⟩
    · cases hc
  · cases hc

theorem opener?_of_opensFor (h : w.Custody) (hc : w.OpensFor c s b k) : w.opener? s = some (b, k) := by
  cases ho : w.opener? s with
  | some x =>
    obtain ⟨d, hd⟩ := opensFor_of_opener? ho
    rw [← h.sole_opener hc hd]
  | none =>
    obtain ⟨-, a, moves, wait, place, -⟩ := hc
    have lt := w.lt_of_phaseOf c (by simp [place])
    have nothing := List.findSome?_eq_none_iff.1 ho c (List.mem_range.2 lt)
    simp [place] at nothing

theorem Custody.claimed (h : w.Custody) (hc : w.OpensFor c s b k) : w.Claimed s (b, k) := by
  have own : s ∈ w.kept (.call c) := by
    obtain ⟨-, a, moves, wait, place, -⟩ := hc
    simp [System.kept, place, Phase.owns]
  exact ⟨h.made own, h.unnamed own, fun hd => h.sole_opener hc hd⟩

/-- No stream is given a name once it is there. -/
theorem Change.named (hc : Change m w w') (hs : s < w.streams.size) (named : (w'.stream s).named) :
    (w.stream s).named := by
  have kept : ∀ {v : System} {t : StreamId} {f : Stream → Stream},
      ((v.setStream t f).stream s).named → (∀ x, (f x).named → x.named) → (v.stream s).named := by
    intro v t f hv hf
    rw [stream_setStream] at hv
    split at hv
    · exact hf _ hv
    · exact hv
  cases hc with
  | stay | drop | go | miss | refuse | sweep | demoteJoin => exact named
  | begin => rwa [stream_begin] at named
  | make | demote | «open» =>
    first | rw [stream_addStream] at named | rw [stream_beginOpen] at named
    rwa [if_neg (Nat.ne_of_lt hs)] at named
  | work actor work => exact (work.frame.kin s).named ▸ named
  | giveUp actor place work => exact (work.frame.kin s).named ▸ named
  | letGo | provide => exact kept named (by rintro x ⟨⟩)
  | reuse => exact kept (v := w) (f := fun x => { x with consumers := x.consumers + 1 }) named fun _ => id
  | detach | last =>
    exact kept (v := w) (f := fun x => { x with consumers := x.consumers - 1 }) named fun _ => id
  | @register w₁ c a t moves wait actor place work =>
    rw [← (work.frame.kin s).named]
    exact kept (f := fun x => { x with consumers := x.consumers + 1 }) named fun _ => id

/-- A call comes to open a stream that is new or goes by a name. -/
theorem Change.opensFor (hc : Change m w w') (h : w'.OpensFor c s b k) :
    w.OpensFor c s b k ∨ (w.stream s).named ∨ w.streams.size ≤ s := by
  have same : ∀ {v : System}, v.brokerOf c = w.brokerOf c → v.phaseOf c = w.phaseOf c →
      v.OpensFor c s b k → w.OpensFor c s b k := by
    rintro v hb hp ⟨broker, a, moves, wait, place, key⟩
    exact ⟨hb ▸ broker, a, moves, wait, hp ▸ place, key⟩
  have moved : ∀ {v : System} {d : CallId} {p : Phase}, (∀ c, v.brokerOf c = w.brokerOf c) →
      (∀ c, v.phaseOf c = w.phaseOf c) → (v.setPhase d p).OpensFor c s b k →
      (p.opening? = some s → p.opens? = (w.phaseOf d).opens? ∧ p.opening? = (w.phaseOf d).opening? ∨
        (w.stream s).named ∨ w.streams.size ≤ s) →
      w.OpensFor c s b k ∨ (w.stream s).named ∨ w.streams.size ≤ s := by
    intro v d p hb hp opens led
    rcases v.setPhase_cases d c p with stays | ⟨rfl, goes⟩
    · exact .inl (same (by rw [brokerOf_setPhase, hb]) (stays.trans (hp c)) opens)
    · rw [opensFor_iff, brokerOf_setPhase, hb, goes] at opens
      obtain ⟨broker, a, ha, ht, key⟩ := opens
      refine (led ht).imp_left fun h => opensFor_iff.2 ⟨broker, a, ?_, ?_, key⟩
      · rw [← h.1, ha]
      · rw [← h.2, ht]
  cases hc with
  | stay | make | letGo | drop => exact .inl h
  | begin =>
    refine .inl ?_
    obtain ⟨broker, a, moves, wait, place, key⟩ := h
    rw [phaseOf_begin] at place
    split at place
    · rename_i errand _ _ _
      cases errand <;> cases place
    · rw [brokerOf_begin, if_neg ‹_›] at broker
      exact ⟨broker, a, moves, wait, place, key⟩
  | go actor leads => exact moved (fun _ => rfl) (fun _ => rfl) h fun _ => .inl ⟨leads.opens, leads.opening⟩
  | work actor work held leads =>
    exact moved work.frame.brokerOf work.frame.phaseOf h fun _ => .inl ⟨leads.opens, leads.opening⟩
  | @provide d a u t moves place free =>
    refine moved (v := w.setStream t _) (fun _ => rfl) (fun _ => rfl) h fun hs => .inr (.inl ?_)
    rw [← Option.some.inj hs]
    exact ((w.isFree_iff t).1 free).1
  | demote | «open» =>
    refine moved (v := (w.putSlot _ _ _).addStream _) (fun _ => rfl) (fun _ => rfl) h fun hs => ?_
    exact .inr (.inr (Option.some.inj hs).le)
  | demoteJoin | miss | refuse | detach | last | sweep =>
    exact moved (v := _) (fun _ => rfl) (fun _ => rfl) h (by rintro ⟨⟩)
  | reuse => exact moved (v := (w.setStream _ _).addConsumer _) (fun _ => rfl) (fun _ => rfl) h (by rintro ⟨⟩)
  | @register w₁ d a t moves wait actor place work =>
    exact moved (v := ((w₁.setStream _ _).endOpen _ _ _).addConsumer _) work.frame.brokerOf
      work.frame.phaseOf h (by rintro ⟨⟩)
  | @giveUp w₁ d a t moves wait p actor place work exit =>
    refine moved (v := w₁) work.frame.brokerOf work.frame.phaseOf (d := d) (p := p) ?_ fun hs => ?_
    · exact h
    · cases exit <;> cases hs

namespace Claimed

theorem frame {S : Set StreamId} (h : w.Claimed s x) (g : Frame S w w') : w'.Claimed s x where
  made := g.streams ▸ h.made
  unnamed := (g.kin s).named.trans h.unnamed
  sole {c b k} := by
    rintro ⟨broker, a, moves, wait, place, key⟩
    rw [g.brokerOf] at broker
    rw [g.phaseOf] at place
    exact h.sole ⟨broker, a, moves, wait, place, key⟩

theorem step (h : w.Claimed s x) (m : Move) : (w.step m).Claimed s x := by
  obtain ⟨w₁, w₂, h₁, hc, h₂⟩ := step_books w m
  have h := h.frame h₁.frame
  refine frame (w := w₂) ⟨?_, ?_, fun opens => ?_⟩ h₂.frame
  · rcases hc.newStream with same | ⟨more, -⟩
    · exact same ▸ h.made
    · exact more ▸ Nat.lt_succ_of_lt h.made
  · exact Bool.eq_false_of_not_eq_true fun named => by simpa [h.unnamed] using hc.named h.made named
  · rcases hc.opensFor opens with opens | named | new
    · exact h.sole opens
    · simp [h.unnamed] at named
    · exact absurd h.made (Nat.not_lt.2 new)

theorem run (h : w.Claimed s x) (moves : List Move) : (w.run moves).Claimed s x := by
  induction moves generalizing w with
  | nil => exact h
  | cons m moves ih => exact ih (h.step m)

end Claimed

/-! ### The owners of a run -/

/-- Whoever opens a stream opens it for the source that it is opened for first. -/
theorem Regular.openedFor (h : w.Regular) (pre post : List Move) (opens : (w.run pre).OpensFor c s b k) :
    w.openedFor s (pre ++ post) = some (b, k) := by
  induction pre generalizing w with
  | nil =>
    have found := opener?_of_opensFor h.sound.custody opens
    cases post with
    | nil => exact found
    | cons m post => simp [System.openedFor, show w.opener? s = some (b, k) from found]
  | cons m pre ih =>
    rw [List.cons_append, System.openedFor]
    cases ho : w.opener? s with
    | none => exact ih (h.step m) opens
    | some x =>
      obtain ⟨d, hd⟩ := opensFor_of_opener? ho
      rw [((h.sound.custody.claimed hd).run (m :: pre)).sole opens]
      rfl

theorem keepsTerms_run (w : System) (moves : List Move) : KeepsTerms w (w.run moves) := by
  induction moves generalizing w with
  | nil => exact .refl w
  | cons m moves ih => exact (keepsTerms_step w m).trans (ih (w.step m))

theorem Regular.knows (h : w.Regular) (pre post : List Move) :
    (w.run pre).Knows (w.owners (pre ++ post)) where
  stream opens := h.openedFor pre post opens
  connection {n x} hx := by
    obtain ⟨y, hy, same, -⟩ := keepsTerms_run (w.run pre) post n x hx
    simp only [owners, run_append, hy, Option.bind_some, same]
  consumer {i x} hx := by
    obtain ⟨y, hy, follows⟩ := consumer_run (h.run pre).ledger (h.run pre).sound post hx
    simp only [owners, run_append, hy, Option.map_some, follows.broker, follows.key]

/-- The move that a call begins with tells what it was made for. -/
theorem errandOf_new (w : System) (pre post : List Move) (m : Move) (old : (w.run pre).calls.size ≤ c)
    (new : c < ((w.run pre).step m).calls.size) : w.errandOf c (pre ++ m :: post) = m.errand? := by
  induction pre generalizing w with
  | nil => exact if_pos new
  | cons m₀ pre ih =>
    rw [List.cons_append, errandOf, if_neg, ih (w.step m₀) old new]
    exact fun lt => Nat.not_lt.2 old (run_keeps lt pre).1

/-- A call is made by one of the moves for what it sets out to do. -/
theorem exists_errand {x : Errand} (hc : w.calls.size ≤ c) (made : w.errandOf c moves = some (b, x)) :
    ∃ before gated after, moves = before ++ .start b gated x :: after ∧
      x.isAllowed (w.run before) b ∧ (w.run before).calls.size = c := by
  induction moves generalizing w with
  | nil => cases made
  | cons m moves ih =>
    rw [errandOf] at made
    split at made
    · rename_i lt
      cases m with
      | start b' gated errand =>
        cases made
        rw [step, start] at lt
        split at lt
        · rw [calls_begin, calls_size_addCall] at lt
          exact ⟨[], gated, moves, rfl, ‹_›, Nat.le_antisymm hc (Nat.le_of_lt_succ lt)⟩
        · exact absurd lt (Nat.not_lt.2 hc)
      | _ => cases made
    · rename_i lt
      obtain ⟨before, gated, after, rfl, rest⟩ := ih (Nat.le_of_not_lt lt) made
      exact ⟨m :: before, gated, after, rfl, rest⟩

end System

end TunerBroker
