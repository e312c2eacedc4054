import TunerBroker.Proofs.Payload.Sending

/-! What a reader is given. With each read it gets the first chunk at or after its place that the ring
still keeps, and counts those it has stepped over; once it has had everything it waits, or is told that
nothing follows. -/

namespace TunerBroker

/-- The reader once it has been given the chunk of a number. -/
def StreamReader.after (r : StreamReader) (n : Nat) : StreamReader :=
  { r with next := n + 1, skipped := r.skipped + (n - r.next) }

namespace System

variable {w : System} {r : StreamReader} {history : List Text.Bytes}

/-- The number of the chunk that a reader is given next, once it has been sent: the first at or after its
place that is still kept. -/
def due (w : System) (r : StreamReader) : Nat := max r.next (w.stream r.stream).buffer.oldest

/-- A read leaves all as it is, but for a word in the log that the reader has fallen behind. -/
theorem read_log (w : System) (r : StreamReader) : (w.read r).1 = w ∨
    ∃ missed, (w.read r).1 = w.note none (.readerLagged r.key missed) := by
  have caught : (w.read r).1 = (w.catchUp r).1 := by
    simp only [read]
    split <;> rfl
  rw [caught, catchUp]
  split
  · exact .inr ⟨_, rfl⟩
  · exact .inl rfl

/-- A reader that has lost chunks steps over them. -/
theorem catchUp_behind (carries : (w.stream r.stream).Carries history)
    (behind : r.next < (w.stream r.stream).buffer.oldest) : (w.catchUp r).2 =
      { r with next := w.due r, skipped := r.skipped + (w.due r - r.next) } := by
  have due : w.due r = (w.stream r.stream).buffer.oldest := Nat.max_eq_right behind.le
  have lost : w.receive r = .lagged ((w.stream r.stream).buffer.oldest - r.next) := by
    rw [receive, carries.holds.receive_eq, ← carries.holds.oldest_eq, if_pos behind]
  have next : r.next + ((w.stream r.stream).buffer.oldest - r.next) =
      (w.stream r.stream).buffer.oldest := by omega
  simp only [catchUp, lost, next, due]

/-- A reader that has lost nothing stays where it is. -/
theorem catchUp_kept (carries : (w.stream r.stream).Carries history)
    (kept : (w.stream r.stream).buffer.oldest ≤ r.next) : w.catchUp r = (w, r) := by
  have given : ∀ missed, w.receive r ≠ .lagged missed := by
    intro missed
    rw [receive, carries.holds.receive_eq, ← carries.holds.oldest_eq, if_neg (Nat.not_lt.2 kept)]
    split <;> simp
  rw [catchUp]
  split
  · exact absurd ‹_› (given _)
  · rfl

/-- A reader is given the chunk that is due if it has been sent, and counts what it has stepped over. -/
theorem read_sent (carries : (w.stream r.stream).Carries history) (sent : w.due r < history.length) :
    (w.read r).2 = (r.after (w.due r), .chunk history[w.due r]) := by
  have kept : ∀ v : System, v.stream r.stream = w.stream r.stream → ∀ q : StreamReader,
      q.stream = r.stream → q.next = w.due r → v.receive q = .chunk history[w.due r] := by
    intro v hv q hs hq
    have old : history.length - (w.stream r.stream).buffer.size ≤ w.due r := by
      rw [← carries.holds.oldest_eq]
      exact Nat.le_max_right _ _
    rw [receive, hs, hv, hq, carries.holds.receive_kept old sent]
  rcases Nat.lt_or_ge r.next (w.stream r.stream).buffer.oldest with behind | near
  · have caught := catchUp_behind carries behind
    have same : (w.catchUp r).1.stream r.stream = w.stream r.stream := by
      rw [catchUp]
      split <;> rfl
    have given := kept (w.catchUp r).1 same (w.catchUp r).2 (by rw [caught]) (by rw [caught])
    simp only [read, given]
    rw [caught]
    rfl
  · have due : w.due r = r.next := Nat.max_eq_left near
    have given := kept w rfl r rfl due.symm
    simp only [read, catchUp_kept carries near, given, StreamReader.after, due, Nat.sub_self,
      Nat.add_zero]

/-- A reader that has had everything waits, or is told that nothing follows. -/
theorem read_drained (carries : (w.stream r.stream).Carries history)
    (drained : history.length ≤ r.next) : w.read r =
      (w, r, if (w.stream r.stream).isShut then .ended else .waiting) := by
  have kept : (w.stream r.stream).buffer.oldest ≤ r.next := by
    rw [carries.holds.oldest_eq]
    omega
  have given : w.receive r = .nothing := carries.holds.receive_drained drained
  simp only [read, catchUp_kept carries kept, given]

/-- A chunk is due to a reader that has not had everything. -/
theorem due_lt (carries : (w.stream r.stream).Carries history) (ahead : r.next < history.length) :
    w.due r < history.length := by
  have size := carries.holds.size
  rw [due, carries.holds.oldest_eq]
  omega

end System

end TunerBroker
