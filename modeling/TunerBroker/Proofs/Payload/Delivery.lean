import TunerBroker.Proofs.Payload.Audience
import TunerBroker.Proofs.Streams.Liveness

/-! What an audience hears. Whatever the order in which chunks come, readers are made and readers ask, each
reader is given chunks sent since it was made, in the order of their numbers and none twice, and counts the
ones it has lost; it loses one only by falling more than a ring behind. -/

namespace TunerBroker

/-- A reader has been given chunks of the history, in their order and with their numbers; with those it
counts as skipped they make up what was sent from the time it was made up to its place. -/
structure Hearing.Keeps (x : Hearing) (history : List Text.Bytes) : Prop where
  place : x.reader.next ≤ history.length
  account : x.since + (x.reader.skipped + x.heard.length) = x.reader.next
  order : (x.heard.map (·.1)).Pairwise (· < ·)
  span : ∀ h ∈ x.heard, x.since ≤ h.1 ∧ h.1 < x.reader.next
  chunks : ∀ h ∈ x.heard, history[h.1]? = some h.2

namespace System

/-- What a reader is given by a stream to which the history has been sent. -/
structure Gives (w : System) (r : StreamReader) (history : List Text.Bytes) : Prop where
  /-- The chunk at its place, or the first after it that is still kept. -/
  chunk : r.next < history.length →
    ∃ data, history[max r.next (history.length - powerAbove (w.stream r.stream).capacity)]? = some data ∧
      (w.read r).2 = ({ r with
        next := max r.next (history.length - powerAbove (w.stream r.stream).capacity) + 1
        skipped := r.skipped +
          (history.length - powerAbove (w.stream r.stream).capacity - r.next) }, .chunk data)
  waits : r.next = history.length → (w.stream r.stream).isLive → w.read r = (w, r, .waiting)
  ends : r.next = history.length → ((w.stream r.stream).state = .ended ∨
    (w.stream r.stream).state = .closed ∨ w.isSettled ∧ (w.stream r.stream).isLive = false) →
      w.read r = (w, r, .ended)

variable {w w' : System} {J : CallId → Option (StreamId × Job)} {m : Move} {s : StreamId}
  {k : ConsumerId} {r : StreamReader} {history : List Text.Bytes} {x : Hearing}

theorem Wired.of_bare (h : w.Wired J) (same : w'.bare = w.bare) : w'.Wired J := by
  have held : ∀ s, w'.isHeld s = w.isHeld s := fun s => by
    show w'.bare.isHeld s = w.bare.isHeld s
    rw [same]
  have connections : w'.connections = w.connections := by
    show w'.bare.connections = w.bare.connections
    rw [same]
  have sightings : w'.sightings = w.sightings := by
    show w'.bare.sightings = w.bare.sightings
    rw [same]
  refine h.alike (fun s => stream_of_bare same s ▸ .refl _) connections sightings fun s hs => .inl ?_
  rwa [held] at hs

/-! ### One read -/

/-- A stream that has ended or is closed sends nothing more, nor does one that does not deliver in a settled
state. -/
theorem Wired.isShut (h : w.Wired J)
    (down : (w.stream s).state = .ended ∨ (w.stream s).state = .closed ∨
      w.isSettled ∧ (w.stream s).isLive = false) : (w.stream s).isShut := by
  have fit := h.fit s
  have feed : (w.stream s).feed = false := by
    by_contra feed
    rw [Bool.not_eq_false] at feed
    have live := fit.isLive_iff.2 feed
    have state : (w.stream s).state = .live := by simpa [Stream.isLive] using live
    rcases down with ended | closed | ⟨-, dead⟩ <;> simp_all
  have halted : (w.stream s).pump.isReading = false := by
    by_contra reading
    rw [Bool.not_eq_false] at reading
    cases hp : (w.stream s).pump with
    | reading n =>
      cases hl : (w.stream s).lifecycle with
      | closing =>
        rcases down with ended | closed | ⟨settled, -⟩
        · simp [Stream.state, hl, Lifecycle.state] at ended
        · simp [Stream.state, hl, Lifecycle.state] at closed
        · have running := running_of_settled settled reading
          simp [Stream.IsFit, hl, hp, running] at fit
      | _ => simp [Stream.IsFit, hl, hp, feed] at fit
    | _ => simp [hp, Pump.isReading] at reading
  simp [Stream.isShut, feed, halted]

theorem Wired.gives (h : w.Wired J) (carries : (w.stream r.stream).Carries history) :
    w.Gives r history where
  chunk ahead := by
    have sent := due_lt carries ahead
    have due : w.due r = max r.next (history.length - powerAbove (w.stream r.stream).capacity) := by
      rw [System.due, carries.holds.oldest_eq, carries.size]
    have lost : max r.next (history.length - powerAbove (w.stream r.stream).capacity) - r.next =
        history.length - powerAbove (w.stream r.stream).capacity - r.next := by omega
    have after : r.after (w.due r) = { r with
        next := max r.next (history.length - powerAbove (w.stream r.stream).capacity) + 1
        skipped := r.skipped +
          (history.length - powerAbove (w.stream r.stream).capacity - r.next) } := by
      rw [StreamReader.after, due, lost]
    refine ⟨history[w.due r], by rw [← due, List.getElem?_eq_getElem sent], ?_⟩
    rw [read_sent carries sent, after]
  waits drained live := by
    have feed := (h.fit _).isLive_iff.1 live
    rw [read_drained carries drained.ge, if_neg (by simp [Stream.isShut, feed])]
  ends drained down := by
    rw [read_drained carries drained.ge, if_pos (h.isShut down)]

/-- A reader starts where the history ends. -/
theorem subscribed (carries : (w.stream s).Carries history) (made : w.subscribe s = .ok r) :
    r.stream = s ∧ r.next = history.length ∧ r.skipped = 0 := by
  simp only [subscribe] at made
  split at made
  · cases made
    exact ⟨rfl, carries.holds.sent, rfl⟩
  · cases made

/-- A reader for a consumer is one of its stream. -/
theorem subscribe_of_readerOf (made : w.readerOf k = .ok r) :
    ∃ y, w.consumers.get? k = some y ∧ w.subscribe y.stream = .ok r := by
  simp only [readerOf] at made
  split at made
  · split at made
    · exact ⟨_, ‹_›, made⟩
    · cases made
  · cases made

end System

/-! ### What a reader keeps -/

namespace Hearing

variable {w : System} {x : Hearing} {history : List Text.Bytes} {r : StreamReader}

theorem take_stream (w : System) (x : Hearing) :
    (x.take (w.read x.reader).2).reader.stream = x.reader.stream := by
  have caught : (w.catchUp x.reader).2.stream = x.reader.stream := by
    unfold System.catchUp
    split <;> rfl
  have taken : ∀ answer, (x.take answer).reader = answer.1 := by
    rintro ⟨r, _ | _ | _⟩ <;> rfl
  rw [taken, System.read]
  dsimp only
  split <;> exact caught

/-- An answer that brings the chunk that is due. -/
theorem take_sent {n : Nat} (carries : (w.stream x.reader.stream).Carries history)
    (due : w.due x.reader = n) (sent : n < history.length) : x.take (w.read x.reader).2 =
      { x with reader := x.reader.after n, heard := x.heard ++ [(n, history[n])] } := by
  subst due
  rw [System.read_sent carries sent]
  rfl

/-- An answer to a reader that has had all. -/
theorem take_drained (carries : (w.stream x.reader.stream).Carries history)
    (drained : history.length ≤ x.reader.next) : x.take (w.read x.reader).2 = x := by
  rw [System.read_drained carries drained]
  cases (w.stream x.reader.stream).isShut <;> rfl

/-- A reader not more than a ring behind skips nothing. -/
theorem skipped_take (carries : (w.stream x.reader.stream).Carries history)
    (near : history.length ≤ x.reader.next + powerAbove (w.stream x.reader.stream).capacity) :
    (x.take (w.read x.reader).2).reader.skipped = x.reader.skipped := by
  rcases Nat.lt_or_ge x.reader.next history.length with ahead | drained
  · have due : w.due x.reader = x.reader.next := by
      rw [System.due, carries.holds.oldest_eq, carries.size]
      omega
    rw [take_sent carries due ahead]
    show x.reader.skipped + (x.reader.next - x.reader.next) = x.reader.skipped
    rw [Nat.sub_self, Nat.add_zero]
  · rw [take_drained carries drained]

namespace Keeps

theorem new (start : r.next = history.length) (skipped : r.skipped = 0) :
    Keeps { reader := r, since := r.next } history where
  place := start.le
  account := by rw [skipped]; rfl
  order := .nil
  span _ hm := by cases hm
  chunks _ hm := by cases hm

/-- More is sent. -/
theorem grow (h : x.Keeps history) (later : List Text.Bytes) : x.Keeps (history ++ later) where
  place := h.place.trans (by simp)
  account := h.account
  order := h.order
  span := h.span
  chunks c hc := by
    have old : c.1 < history.length := (h.span c hc).2.trans_le h.place
    rw [List.getElem?_append_left old]
    exact h.chunks c hc

theorem take (h : x.Keeps history) (carries : (w.stream x.reader.stream).Carries history) :
    (x.take (w.read x.reader).2).Keeps history := by
  rcases Nat.lt_or_ge x.reader.next history.length with ahead | drained
  · have sent := System.due_lt carries ahead
    have after : x.reader.next ≤ w.due x.reader := Nat.le_max_left _ _
    rw [take_sent carries rfl sent]
    refine ⟨sent, ?_, ?_, ?_, ?_⟩
    · have account := h.account
      simp only [StreamReader.after, List.length_append, List.length_singleton]
      omega
    · rw [List.map_append, List.pairwise_append]
      refine ⟨h.order, List.pairwise_singleton _ _, fun a ha b hb => ?_⟩
      obtain ⟨c, hc, rfl⟩ := List.mem_map.1 ha
      rw [List.map_singleton, List.mem_singleton] at hb
      rw [hb]
      exact (h.span c hc).2.trans_le after
    · intro c hc
      rcases List.mem_append.1 hc with hc | hc
      · obtain ⟨low, high⟩ := h.span c hc
        exact ⟨low, (high.trans_le after).trans (Nat.lt_succ_self _)⟩
      · rw [List.mem_singleton.1 hc]
        have account := h.account
        exact ⟨by dsimp only; omega, Nat.lt_succ_self _⟩
    · intro c hc
      rcases List.mem_append.1 hc with hc | hc
      · exact h.chunks c hc
      · rw [List.mem_singleton.1 hc]
        exact List.getElem?_eq_getElem sent
  · rw [take_drained carries drained]
    exact h

end Keeps

end Hearing

namespace Audience

variable {v : Audience} {q : ReaderId} {x : Hearing} {acts : List Act} {history : List Text.Bytes}

theorem moves_concat (acts : List Act) (act : Act) :
    Act.moves (acts ++ [act]) = Act.moves acts ++ act.move?.toList := by
  rw [Act.moves, List.filterMap_append]
  cases hm : act.move? <;> simp [Act.moves, hm]

/-- A reader that asks again and again is given what is still kept for it, one chunk after another. -/
theorem drain (there : v.hearing q = some x)
    (carries : (v.system.stream x.reader.stream).Carries history)
    (kept : (v.system.stream x.reader.stream).buffer.oldest ≤ x.reader.next) (n : Nat)
    (sent : x.reader.next + n ≤ history.length) :
    (v.run (List.replicate n (.ask q))).hearing q = some { x with
      reader := { x.reader with next := x.reader.next + n }
      heard := x.heard ++
        (((history.drop x.reader.next).take n).zipIdx x.reader.next).map Prod.swap } := by
  induction n generalizing v x with
  | zero => simpa [run] using there
  | succ n ih =>
    have ahead : x.reader.next < history.length := by omega
    have due : v.system.due x.reader = x.reader.next := Nat.max_eq_left kept
    have given : x.take (v.system.read x.reader).2 = { x with
        reader := { x.reader with next := x.reader.next + 1 }
        heard := x.heard ++ [(x.reader.next, history[x.reader.next])] } := by
      rw [Hearing.take_sent carries due ahead, StreamReader.after, Nat.sub_self]
      rfl
    have next : (v.perform (.ask q)).hearing q = some { x with
        reader := { x.reader with next := x.reader.next + 1 }
        heard := x.heard ++ [(x.reader.next, history[x.reader.next])] } := by
      rw [hearing_ask, if_pos rfl, there, Option.map_some, given]
    have same : (v.perform (.ask q)).system.stream x.reader.stream =
        v.system.stream x.reader.stream :=
      System.stream_of_bare (bare_perform v (.ask q)) _
    have rest := ih next (by rw [same]; exact carries) (by rw [same]; exact Nat.le_succ_of_le kept)
      (by dsimp only; omega)
    rw [List.replicate_succ]
    refine rest.trans ?_
    rw [List.drop_eq_getElem_cons ahead, List.take_succ_cons, List.zipIdx_cons, List.map_cons,
      List.append_assoc]
    simp only [Nat.add_assoc, Nat.add_comm 1 n]
    rfl

/-- A reader that has fallen behind steps over what it has lost and is given the rest. -/
theorem drain_all {n : Nat} (there : v.hearing q = some x)
    (carries : (v.system.stream x.reader.stream).Carries history)
    (place : x.reader.next ≤ history.length) (due : v.system.due x.reader = n) :
    (v.run (List.replicate (history.length - n) (.ask q))).hearing q = some { x with
      reader := { x.reader with
        next := history.length
        skipped := x.reader.skipped + (n - x.reader.next) }
      heard := x.heard ++ ((history.drop n).zipIdx n).map Prod.swap } := by
  have old : n = max x.reader.next (v.system.stream x.reader.stream).buffer.oldest := due.symm
  rcases Nat.lt_or_ge x.reader.next (v.system.stream x.reader.stream).buffer.oldest with behind | near
  · have sent : n < history.length := by
      have positive := carries.holds.size
      rw [carries.holds.oldest_eq] at old behind
      omega
    have next : (v.perform (.ask q)).hearing q = some { x with
        reader := x.reader.after n, heard := x.heard ++ [(n, history[n])] } := by
      rw [hearing_ask, if_pos rfl, there, Option.map_some, Hearing.take_sent carries due sent]
    have same : (v.perform (.ask q)).system.stream x.reader.stream =
        v.system.stream x.reader.stream :=
      System.stream_of_bare (bare_perform v (.ask q)) _
    have kept : ((v.perform (.ask q)).system.stream x.reader.stream).buffer.oldest ≤ n + 1 := by
      rw [same]
      omega
    have rest := drain next (by rw [StreamReader.after, same]; exact carries) kept
      (history.length - (n + 1)) (Nat.add_sub_of_le sent).le
    have count : history.length - n = history.length - (n + 1) + 1 := by omega
    rw [count, List.replicate_succ, List.drop_eq_getElem_cons sent]
    refine rest.trans ?_
    have all : (x.reader.after n).next + (history.length - (n + 1)) = history.length :=
      Nat.add_sub_of_le sent
    rw [all, List.take_of_length_le (by rw [List.length_drop]; rfl), List.append_assoc]
    rfl
  · obtain rfl : n = x.reader.next := old.trans (Nat.max_eq_left near)
    have given := drain there carries near (history.length - x.reader.next)
      (Nat.add_sub_of_le place).le
    rw [List.take_of_length_le (by rw [List.length_drop]), Nat.add_sub_of_le place] at given
    rw [given, Nat.sub_self, Nat.add_zero]

/-- Whenever the reader asks it is not more than a ring behind. -/
def Prompt (v : Audience) (q : ReaderId) (acts : List Act) : Prop :=
  ∀ early late x, acts = early ++ .ask q :: late → (v.run early).hearing q = some x →
    (System.sent x.reader.stream v.system (Act.moves early)).length ≤
      x.reader.next + powerAbove ((v.run early).system.stream x.reader.stream).capacity

/-- What a reader has after an act it had before, or it has just been made, or it has just asked. -/
theorem hearing_cases {act : Act} (there : (v.perform act).hearing q = some x) :
    v.hearing q = some x ∨
      (act.move? = none ∧ ∃ s r, v.system.subscribe s = .ok r ∧ x = { reader := r, since := r.next }) ∨
      act = .ask q ∧ ∃ y, v.hearing q = some y ∧ x = y.take (v.system.read y.reader).2 := by
  have seated : ∀ {q' result}, (v.seat q' result).hearing q = some x → v.hearing q = some x ∨
      ∃ r, result = .ok r ∧ x = { reader := r, since := r.next } := by
    intro q' result hx
    rw [hearing_seat] at hx
    split at hx
    · cases result with
      | ok r => exact .inr ⟨r, rfl, (Option.some.inj hx).symm⟩
      | error e => exact .inl hx
    · exact .inl hx
  cases act with
  | move m => exact .inl there
  | join q' k =>
    rcases seated there with old | ⟨r, made, new⟩
    · exact .inl old
    · obtain ⟨y, -, subscribed⟩ := System.subscribe_of_readerOf made
      exact .inr (.inl ⟨rfl, _, r, subscribed, new⟩)
  | watch q' s =>
    rcases seated there with old | ⟨r, made, new⟩
    · exact .inl old
    · exact .inr (.inl ⟨rfl, s, r, made, new⟩)
  | ask q' =>
    rw [hearing_ask] at there
    split at there
    · rename_i same
      obtain ⟨y, hy, rfl⟩ := Option.map_eq_some_iff.1 there
      exact .inr (.inr ⟨by rw [same], y, hy, rfl⟩)
    · exact .inl there

section Run

variable (configs : List BrokerConfig) (desk : AccessDesk) (terms : List TunerTerms)

/-- In front of an audience streams carry what is sent to them. -/
theorem carries_run (acts : List Act) (s : StreamId) :
    ((({ system := .fresh configs desk terms } : Audience).run acts).system.stream s).Carries
      (System.sent s (.fresh configs desk terms) (Act.moves acts)) := by
  rw [System.stream_of_bare (bare_run _ acts)]
  exact System.carries_sent configs desk terms (Act.moves acts) s

theorem keeps_run (acts : List Act)
    (there : (({ system := .fresh configs desk terms } : Audience).run acts).hearing q = some x) :
    x.Keeps (System.sent x.reader.stream (.fresh configs desk terms) (Act.moves acts)) := by
  induction acts using List.reverseRecOn generalizing x with
  | nil => cases there
  | append_singleton acts act ih =>
    have carries := carries_run configs desk terms acts
    rw [run_concat] at there
    rw [moves_concat, System.sent_append]
    rcases hearing_cases there with old | ⟨silent, s, r, made, rfl⟩ | ⟨rfl, y, hy, rfl⟩
    · exact (ih old).grow _
    · obtain ⟨rfl, start, skipped⟩ := System.subscribed (carries s) made
      exact (Hearing.Keeps.new start skipped).grow _
    · rw [Hearing.take_stream]
      exact ((ih hy).take (carries _)).grow _

/-- A reader that is never more than a ring behind when it asks skips nothing. -/
theorem unskipped_run (acts : List Act)
    (there : (({ system := .fresh configs desk terms } : Audience).run acts).hearing q = some x)
    (prompt : ({ system := .fresh configs desk terms } : Audience).Prompt q acts) :
    x.reader.skipped = 0 := by
  induction acts using List.reverseRecOn generalizing x with
  | nil => cases there
  | append_singleton acts act ih =>
    have carries := carries_run configs desk terms acts
    have before : ({ system := .fresh configs desk terms } : Audience).Prompt q acts :=
      fun early late y split => prompt early (late ++ [act]) y (by rw [split, List.append_assoc]; rfl)
    rw [run_concat] at there
    rcases hearing_cases there with old | ⟨silent, s, r, made, rfl⟩ | ⟨rfl, y, hy, rfl⟩
    · exact ih old before
    · exact (System.subscribed (carries s) made).2.2
    · have near := prompt acts [] y rfl hy
      exact (Hearing.skipped_take (carries _) near).trans (ih hy before)

end Run

end Audience

/-- In every run, at every moment and for any number of readers that were made and have asked as they
pleased: the ring of a stream has for its size the least power of two that is not below the capacity, which
is at least one; a reader is made at the end of what has been sent to its stream; a reader asks and gets
the chunk at its place, or the first after it that the ring still keeps, and counts what it has stepped over,
or, if it has had all, waits as long as the stream delivers and is told that nothing follows once it has
ended or is closed. So what it has been given are chunks of the history in their order, and those with the
skipped ones make up all that was sent from its start to its place; it has skipped nothing if it was never
more than a ring behind when it asked; by asking on it is given all that is still kept for it, whatever has
become of the stream; and it hears what it would hear if there were no other readers. -/
theorem Audience.fan_out (configs : List BrokerConfig) (desk : AccessDesk) (terms : List TunerTerms)
    (acts : List Act) :
    let start : Audience := { system := .fresh configs desk terms }
    let v := start.run acts
    let history := fun s => System.sent s start.system (Act.moves acts)
    let size := fun s => powerAbove (v.system.stream s).capacity
    (∀ s, 0 < (v.system.stream s).capacity ∧ (v.system.stream s).capacity ≤ size s ∧
      (∃ e, size s = 2 ^ e) ∧ ∀ e, (v.system.stream s).capacity ≤ 2 ^ e → size s ≤ 2 ^ e) ∧
    (∀ s r, v.system.subscribe s = .ok r →
      r.stream = s ∧ r.next = (history s).length ∧ r.skipped = 0) ∧
    (∀ k r, v.system.readerOf k = .ok r → ∃ y, v.system.consumers.get? k = some y ∧
      v.system.subscribe y.stream = .ok r) ∧
    (∀ q x, v.hearing q = some x →
      v.system.Gives x.reader (history x.reader.stream) ∧
      x.Keeps (history x.reader.stream) ∧
      (start.Prompt q acts → x.reader.skipped = 0) ∧
      let n := max x.reader.next ((history x.reader.stream).length - size x.reader.stream)
      (v.run (List.replicate ((history x.reader.stream).length - n) (.ask q))).hearing q = some { x with
        reader := { x.reader with
          next := (history x.reader.stream).length
          skipped := x.reader.skipped + (n - x.reader.next) }
        heard := x.heard ++ (((history x.reader.stream).drop n).zipIdx n).map Prod.swap }) ∧
    ∀ q, let u := start.run (acts.filter (·.concerns q))
      u.hearing q = v.hearing q ∧ ∀ r, (u.system.read r).2 = (v.system.read r).2 := by
  intro start v history size
  have carries := carries_run configs desk terms acts
  have same := bare_run start acts
  have wired := ((System.wired_fresh configs desk terms).run (Act.moves acts)).of_bare same
  refine ⟨fun s => ?_, fun s r made => System.subscribed (carries s) made,
    fun k r made => System.subscribe_of_readerOf made, fun q x there => ⟨wired.gives (carries _),
      keeps_run configs desk terms acts there, unskipped_run configs desk terms acts there, ?_⟩,
    fun q => ?_⟩
  · obtain ⟨power, above, least⟩ := powerAbove_spec (v.system.stream s).capacity
    exact ⟨(carries s).capacity, above, power, least⟩
  · refine drain_all there (carries _) (keeps_run configs desk terms acts there).place ?_
    rw [System.due, (carries _).holds.oldest_eq, (carries _).size]
  · obtain ⟨silent, own⟩ := alone start q acts
    exact ⟨own, System.read_of_bare silent⟩

/-- Two readers watch a stream that keeps two chunks. Three chunks come and then the end; one reader has
asked after the first two, the other not at all. -/
def oneLags : List Act :=
  ([.start 0 false (.acquire (.ofRequest System.sampleRequest none { capacity := 2 })), .turn (.call 0),
    .turn (.call 0), .turn (.call 0)] : List Move).map .move ++
  [.watch 0 0, .watch 1 0, .move (.deliver 0 (.chunk [1])), .ask 1, .move (.deliver 0 (.chunk [2])),
    .ask 1, .move (.deliver 0 (.chunk [3])), .move (.deliver 0 .finish)]

theorem Audience.fan_out_oneLags :
    let v := ({ system := .fresh [{}] {} [] } : Audience).run oneLags
    v.system.Gives ⟨0, System.sampleRequest.key, 0, 0⟩ [[1], [2], [3]] ∧
    (v.run [.ask 0, .ask 0]).hearing 0 =
      some ⟨⟨0, System.sampleRequest.key, 3, 1⟩, 0, [(1, [2]), (2, [3])]⟩ ∧
    Hearing.Keeps ⟨⟨0, System.sampleRequest.key, 2, 0⟩, 0, [(0, [1]), (1, [2])]⟩ [[1], [2], [3]] := by
  obtain ⟨-, -, -, hears, -⟩ := Audience.fan_out [{}] {} [] oneLags
  obtain ⟨gives, -, -, all⟩ := hears 0 ⟨⟨0, System.sampleRequest.key, 0, 0⟩, 0, []⟩ rfl
  obtain ⟨-, keeps, -⟩ := hears 1 ⟨⟨0, System.sampleRequest.key, 2, 0⟩, 0, [(0, [1]), (1, [2])]⟩ rfl
  exact ⟨gives, all, keeps⟩

end TunerBroker
