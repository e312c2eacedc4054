import TunerBroker.Proofs.Invariants.Aging

/-! The states a stream comes through, and the steps that leave streams to themselves. By itself a stream
does no more than run dry. -/

namespace TunerBroker

namespace StreamState

/-- One state may come right after another. -/
inductive Next : StreamState → StreamState → Prop where
  /-- The tuner is asked. -/
  | dial : Next unopened opening
  /-- It refuses, or is not waited for. -/
  | fail : Next opening unopened
  | connect : Next opening live
  /-- The source stops delivering. -/
  | dry : Next live ended
  | haltLive : Next live closing
  | haltEnded : Next ended closing
  | shut : Next closing closed
  /-- A stream that was never opened is closed. -/
  | void : Next unopened closed

/-- What a step may make of a state: nothing, or the next one; and a connection that is made may be
followed by the state next to it. -/
def Passes (x y : StreamState) : Prop := y = x ∨ Next x y ∨ Next x live ∧ Next live y

/-- What becomes of a state by itself. -/
def Fades (x y : StreamState) : Prop := y = x ∨ x = live ∧ y = ended

/-- A close of the stream has been let in. -/
def isDone : StreamState → Bool
  | closing | closed => true
  | _ => false

variable {x y z : StreamState}

theorem Fades.passes (h : Fades x y) : Passes x y := by
  rcases h with rfl | ⟨rfl, rfl⟩
  · exact .inl rfl
  · exact .inr (.inl .dry)

theorem Passes.fades (h : Passes x y) (g : Fades y z) : Passes x z := by
  rcases g with rfl | ⟨rfl, rfl⟩
  · exact h
  · rcases h with rfl | h | ⟨-, h⟩
    · exact .inr (.inl .dry)
    · exact .inr (.inr ⟨h, .dry⟩)
    · cases h

/-- What comes after a connection comes after the opening. -/
theorem Passes.of_live (h : Passes live y) : Passes opening y := by
  rcases h with rfl | h | ⟨h, -⟩
  · exact .inr (.inl .connect)
  · exact .inr (.inr ⟨.connect, h⟩)
  · cases h

theorem Passes.isDone (h : Passes x y) (hx : x.isDone) : y.isDone := by
  rcases h with rfl | h | ⟨h, -⟩
  · exact hx
  · cases h <;> first | rfl | cases hx
  · cases h
    cases hx

theorem Passes.closed (h : Passes closed y) : y = closed := by
  rcases h with rfl | h | ⟨h, -⟩
  · rfl
  · cases h
  · cases h

end StreamState

namespace Stream

variable {x y : Stream}

/-- Away from a connection the state is the place in life. -/
theorem state_of_lifecycle (h : x.lifecycle ≠ .connected) : x.state = x.lifecycle.state := by
  simp [state, h]

theorem state_of_connected (h : x.lifecycle = .connected) :
    x.state = if x.feed then .live else .ended := by
  cases hf : x.feed <;> simp [state, Lifecycle.state, h, hf]

/-- But for a connection, the state tells the place in life. -/
theorem state_eq_iff {l : Lifecycle} (hl : l ≠ .connected) : x.state = l.state ↔ x.lifecycle = l := by
  by_cases hx : x.lifecycle = .connected
  · rw [state_of_connected hx, hx]
    cases x.feed <;> cases l <;> simp_all [Lifecycle.state]
  · rw [state_of_lifecycle hx]
    cases h : x.lifecycle <;> cases l <;> simp_all [Lifecycle.state]

/-- Where the place in life stays and no feed opens, a stream does no more than run dry. -/
theorem fades (lifecycle : y.lifecycle = x.lifecycle) (feed : y.feed → x.feed) :
    x.state.Fades y.state := by
  by_cases hl : x.lifecycle = .connected
  · rw [state_of_connected hl, state_of_connected (lifecycle.trans hl)]
    cases hy : y.feed with
    | true => exact .inl (by rw [feed hy])
    | false =>
      cases x.feed with
      | true => exact .inr ⟨rfl, rfl⟩
      | false => exact .inl rfl
  · rw [state_of_lifecycle hl, state_of_lifecycle (lifecycle ▸ hl), lifecycle]
    exact .inl rfl

end Stream

namespace System

/-- From `w` to `w'` only streams in `S` are touched, and they do no more than run dry; new streams are
unopened, no shutdown begins, and the surroundings stay. -/
structure Fades (S : Set StreamId) (w w' : System) : Prop where
  others : ∀ s ∉ S, s < w.streams.size → w'.stream s = w.stream s
  lifecycle : ∀ s < w.streams.size, (w'.stream s).lifecycle = (w.stream s).lifecycle
  feed : ∀ s < w.streams.size, (w'.stream s).feed → (w.stream s).feed
  made : ∀ s < w'.streams.size, w.streams.size ≤ s → (w'.stream s).lifecycle = .unopened
  size : w.streams.size ≤ w'.streams.size
  shutdowns : ∀ n, w'.shutdownsOf n = w.shutdownsOf n
  surroundings : w'.clock = w.clock ∧ w'.desk = w.desk ∧ w'.fired = w.fired

variable {S T : Set StreamId} {m : Move} {w w₁ w' w'' : System} {c : CallId} {a : Acquisition}
  {s t : StreamId} {n : ConnectionId} {p : Phase}

namespace Fades

theorem trans (h : Fades S w w') (g : Fades S w' w'') : Fades S w w'' where
  others s hS hs := (g.others s hS (hs.trans_le h.size)).trans (h.others s hS hs)
  lifecycle s hs := (g.lifecycle s (hs.trans_le h.size)).trans (h.lifecycle s hs)
  feed s hs hf := h.feed s hs (g.feed s (hs.trans_le h.size) hf)
  made s hs hn := by
    rcases Nat.lt_or_ge s w'.streams.size with hl | hl
    · rw [g.lifecycle s hl]
      exact h.made s hl hn
    · exact g.made s hs hl
  size := h.size.trans g.size
  shutdowns n := (g.shutdowns n).trans (h.shutdowns n)
  surroundings := ⟨g.surroundings.1.trans h.surroundings.1,
    g.surroundings.2.1.trans h.surroundings.2.1, g.surroundings.2.2.trans h.surroundings.2.2⟩

/-- Neither the streams change nor what the tuner has seen. -/
theorem of_eq (streams : w'.streams = w.streams) (sightings : w'.sightings = w.sightings)
    (surroundings : w'.clock = w.clock ∧ w'.desk = w.desk ∧ w'.fired = w.fired) : Fades S w w' := by
  have same : ∀ s, w'.stream s = w.stream s := fun s => by rw [stream, stream, streams]
  refine ⟨fun s _ _ => same s, fun s _ => by rw [same], fun s _ => by rw [same]; exact id,
    fun s hs hn => ?_, (congrArg Table.size streams).ge,
    fun n => by rw [shutdownsOf, shutdownsOf, sightings], surroundings⟩
  rw [streams] at hs
  exact absurd hs (Nat.not_lt.2 hn)

theorem refl (w : System) : Fades S w w := .of_eq rfl rfl ⟨rfl, rfl, rfl⟩

variable (h : Fades S w w')

include h

theorem eq (streams : w''.streams = w'.streams) (sightings : w''.sightings = w'.sightings)
    (surroundings : w''.clock = w'.clock ∧ w''.desk = w'.desk ∧ w''.fired = w'.fired) :
    Fades S w w'' :=
  h.trans (.of_eq streams sightings surroundings)

theorem note (o : Option CallId) (e : Event) : Fades S w (w'.note o e) := h.eq rfl rfl ⟨rfl, rfl, rfl⟩

theorem record (b : BrokerId) (t : Tick) : Fades S w (w'.record b t) := h.eq rfl rfl ⟨rfl, rfl, rfl⟩

theorem announce (x : Announcement) : Fades S w (w'.announce c x) := h.eq rfl rfl ⟨rfl, rfl, rfl⟩

theorem setPhase (c : CallId) (p : Phase) : Fades S w (w'.setPhase c p) :=
  h.eq rfl rfl ⟨rfl, rfl, rfl⟩

theorem finish (c : CallId) (o : Outcome) : Fades S w (w'.finish c o) := h.setPhase c _

theorem setLink (n : ConnectionId) (l : LinkState) : Fades S w (w'.setLink n l) :=
  h.eq rfl rfl ⟨rfl, rfl, rfl⟩

theorem putSlot (b : BrokerId) (k : SourceKey) (x : Slot) : Fades S w (w'.putSlot b k x) :=
  h.eq rfl rfl ⟨rfl, rfl, rfl⟩

theorem setStanding (i : ConsumerId) (x : Standing) : Fades S w (w'.setStanding i x) :=
  h.eq rfl rfl ⟨rfl, rfl, rfl⟩

theorem attach (c : CallId) (s : StreamId) : Fades S w (w'.attach c s) := h.eq rfl rfl ⟨rfl, rfl, rfl⟩

theorem endOpen (c : CallId) (k : SourceKey) (given : Option StreamId) :
    Fades S w (w'.endOpen c k given) := h.putSlot _ k _

/-- The tuner sees something else than a shutdown. -/
theorem witness {e : TunerEvent} (he : e.shuts? = none) : Fades S w (w'.witness e) := by
  refine h.trans { Fades.refl w' with shutdowns := fun n => ?_ }
  rw [shutdownsOf_witness, he]
  rfl

theorem dropLink (n : ConnectionId) : Fades S w (w'.dropLink n) := (h.setLink n .dropped).witness rfl

/-- A stream changes at its place in life, and no feed opens. -/
theorem setStream (hs : s ∈ S) {f : Stream → Stream}
    (hf : ∀ x : Stream, (f x).lifecycle = x.lifecycle ∧ ((f x).feed → x.feed)) :
    Fades S w (w'.setStream s f) := by
  refine h.trans ⟨fun t ht _ => ?_, fun t _ => ?_, fun t _ => ?_, fun t ht hn => ?_, by simp,
    fun _ => rfl, rfl, rfl, rfl⟩
  · exact stream_setStream_ne _ _ _ _ (by rintro rfl; exact ht hs)
  · rw [stream_setStream]
    split
    · exact (hf _).1
    · rfl
  · rw [stream_setStream]
    split
    · exact (hf _).2
    · exact id
  · rw [streams_size_setStream] at ht
    exact absurd ht (Nat.not_lt.2 hn)

/-- A new stream is unopened. -/
theorem addStream {x : Stream} (hx : x.lifecycle = .unopened) : Fades S w (w'.addStream x) := by
  have old : ∀ t < w'.streams.size, (w'.addStream x).stream t = w'.stream t := fun t ht => by
    rw [stream_addStream, if_neg (Nat.ne_of_lt ht)]
  refine h.trans ⟨fun t _ ht => old t ht, fun t ht => by rw [old t ht],
    fun t ht => by rw [old t ht]; exact id, fun t ht hn => ?_, by simp, fun _ => rfl, rfl, rfl, rfl⟩
  rw [streams_size_addStream] at ht
  rw [stream_addStream, if_pos (Nat.le_antisymm (Nat.lt_succ_iff.1 ht) hn)]
  exact hx

theorem detachPump (hs : s ∈ S) : Fades S w (w'.detachPump s) := by
  have marked : Fades S w (w'.setStream s fun x => { x with stopping := true, detached := true }) :=
    h.setStream hs fun x => ⟨rfl, id⟩
  simp only [System.detachPump]
  split
  · refine .dropLink (.setStream marked hs fun x => ?_) _
    exact ⟨rfl, id⟩
  · exact marked.setStream hs fun x => ⟨rfl, by simp⟩
  · exact marked

theorem reap (hs : s ∈ S) : Fades S w (w'.reap s) := by
  unfold System.reap
  split
  · exact h
  · split
    · exact (h.detachPump hs).note _ _
    · exact h

theorem foldl_reap {l : List StreamId} (hl : ∀ s ∈ l, s ∈ S) :
    Fades S w (l.foldl System.reap w') := by
  induction l generalizing w' with
  | nil => exact h
  | cons s l ih =>
    exact ih (h.reap (hl s List.mem_cons_self)) fun t ht => hl t (List.mem_cons_of_mem s ht)

theorem endPump (hs : s ∈ S) (n : ConnectionId) : Fades S w (w'.endPump s n) := by
  simp only [System.endPump]
  split
  · refine .dropLink (.setStream h hs fun x => ?_) n
    exact ⟨rfl, by simp⟩
  · exact h.setStream hs fun x => ⟨rfl, by simp⟩

theorem deliver (hs : (w'.connection n).stream ∈ S) (e : SourceEvent) :
    Fades S w (w'.deliver n e) := by
  simp only [System.deliver]
  split
  · cases e with
    | chunk data => exact h.setStream hs fun x => ⟨rfl, id⟩
    | finish | failure message => exact (h.note _ _).endPump hs n
    | fatal message =>
      refine .dropLink (.setStream h hs fun x => ?_) n
      exact ⟨rfl, id⟩
  · exact h

theorem account (b : BrokerId) (result : Except StreamError Unit) :
    Fades S w (w'.account b result) := by
  cases result with
  | ok u => exact h.record _ _
  | error e =>
    simp only [System.account]
    split
    · exact h
    · exact (h.record _ _).record _ _

end Fades

/-! ### Steps that leave the streams to themselves -/

theorem fades_turnPump (w : System) (s : StreamId) : Fades {s} w (w.turnPump s) := by
  unfold turnPump
  split
  · split
    · exact (Fades.refl w).endPump (Set.mem_singleton s) _
    · exact .refl w
  · exact .refl w

theorem fades_begin (w : System) (b : BrokerId) (gated : Bool) (errand : Errand) :
    Fades S w (w.begin b gated errand) :=
  .of_eq (streams_begin ..) (by cases errand <;> rfl) (by cases errand <;> exact ⟨rfl, rfl, rfl⟩)

theorem Fades.beginOpen (h : Fades S w w') (c : CallId) (a : Acquisition) (x : Slot) :
    Fades S w (w'.beginOpen c a x) :=
  ((h.putSlot _ a.key _).addStream rfl).setPhase c _

theorem Fades.enqueue (h : Fades S w w') (c : CallId) (a : Acquisition) :
    Fades S w (w'.enqueue c a) := by
  unfold System.enqueue
  dsimp only
  split
  · exact h.setPhase c _
  · exact h.beginOpen c a _

theorem fades_seek (hS : ∀ s, (w.slot (w.brokerOf c) a.key).shared = some s → s ∈ S) :
    Fades S w (w.seek c a) := by
  have h : Fades S w w := .refl w
  unfold seek
  dsimp only
  split
  · exact h.enqueue c a
  · rename_i s shared
    split
    · exact (h.note _ _).finish c _
    · split
      · split
        · exact (h.note _ _).finish c _
        · refine .note (.record (.attach (.setStream h (hS s shared) fun x => ?_) c s) _ _) _ _
          exact ⟨rfl, id⟩
      · exact ((h.note _ _).putSlot _ a.key _).enqueue c a

theorem fades_endWait (w : System) (c : CallId) (a : Acquisition) (o : CallId) :
    Fades S w (w.endWait c a o) := by
  unfold endWait
  split
  · exact (Fades.refl w).finish c _
  · split
    · exact ((Fades.refl w).note _ _).finish c _
    · exact (Fades.refl w).setPhase c _

theorem fades_enter (w : System) (c : CallId) (ctx : RequestContext) (a : Acquisition) :
    Fades S w (w.enter c ctx a) := by
  have h : Fades S w (w.note (some c) (.authorizationDecided .liveTvAccess)) := (Fades.refl w).note _ _
  unfold enter authorized
  dsimp only
  split
  · exact h.setPhase c _
  · exact (h.note _ _).finish c _

theorem fades_release {i : ConsumerId} (hS : ∀ x, w.consumers.get? i = some x → x.stream ∈ S) :
    Fades S w (w.release c i) := by
  have h : Fades S w w := .refl w
  have refused : ∀ e key breach, Fades S w (w.refuseRelease c i e key breach) := fun e key breach =>
    ((h.setStanding i .refused).finish c _).note c e
  unfold release
  dsimp only
  split
  · exact h.finish c _
  · rename_i x there
    have counted : Fades S w ((w.setStanding i .released).setStream x.stream fun y =>
        { y with consumers := y.consumers - 1 }) :=
      (h.setStanding i .released).setStream (hS x there) fun y => ⟨rfl, id⟩
    split
    · exact refused _ _ _
    split
    · exact refused _ _ _
    split
    · exact refused _ _ _
    split
    · exact (counted.finish c _).note _ _
    · exact ((counted.putSlot _ x.key _).setPhase c _).note _ _

theorem fades_provide {result : Except StreamError StreamId} (hS : ∀ s, result = .ok s → s ∈ S) :
    Fades S w (w.provide c result) := by
  have h : Fades S w w := .refl w
  unfold provide
  split
  · exact h.setPhase c _
  · split
    · refine .setPhase (.setStream h (hS _ rfl) fun x => ?_) c _
      exact ⟨rfl, id⟩
    · exact h
  · exact h

theorem fades_dropConsumer (w : System) (i : ConsumerId) : Fades S w (w.dropConsumer i) := by
  unfold dropConsumer
  split
  · split
    · exact ((Fades.refl w).setStanding i _).note _ _
    · exact .refl w
  · exact .refl w

/-- Abandoning a call takes no stream further. -/
theorem fades_abandon (hS : ∀ s ∈ (w.phaseOf c).holds, s ∈ S) : Fades S w (w.abandon c) := by
  have h : Fades S w w := .refl w
  have left : ∀ {s} stage, s ∈ S → Fades S w (w.abandonClose s stage) := by
    intro s stage hs
    cases stage with
    | joining => exact h.detachPump hs
    | shutting due => exact h
  have held : ∀ {p s}, w.phaseOf c = p → s ∈ p.holds → s ∈ S := fun hp hs => hS _ (by rwa [hp])
  unfold abandon
  split
  · exact h
  split
  · rename_i a s moves wait place
    have hs : s ∈ S := held place (by simp [Phase.holds])
    have waited : Fades S w (w.abandonWait s wait) := by
      cases wait with
      | dialing d => exact h.setLink _ _
      | closing stage => exact left stage hs
      | nowhere | outside | pausing | ending => exact h
    exact (((waited.setPhase c _).endOpen c _ _).reap hs).note _ _
  · rename_i place
    have hs := held place (List.mem_singleton_self _)
    exact ((left _ hs).setPhase c _).reap hs
  · rename_i place
    have hs := held place (List.mem_singleton_self _)
    exact ((left _ hs).setPhase c _).reap hs
  · rename_i place
    have hs := held place (List.mem_singleton_self _)
    exact ((left _ hs).setPhase c _).reap hs
  · rename_i s stage rest n place
    have hs : s ∈ S := held place List.mem_cons_self
    exact (((left _ hs).setPhase c _).reap hs).foldl_reap fun t ht =>
      held place (List.mem_cons_of_mem s ht)
  · rename_i place
    have hs := held place (List.mem_singleton_self _)
    exact ((h.setLink _ _).setPhase c _).reap hs
  · exact h.setPhase c _

end System

end TunerBroker
