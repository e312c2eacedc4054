import TunerBroker.Proofs.Invariants.Aging
import TunerBroker.Proofs.Payload.Ring

/-! What a pump sends. Along a run the fan-out of a stream is sent the chunks that its connection
delivers while the pump reads it, in that order and nothing else, and the ring of the stream holds the
end of them. -/

namespace TunerBroker

/-- The size of a ring does not tell a capacity of none from one of one. -/
theorem powerAbove_max_one (n : Nat) : powerAbove (max n 1) = powerAbove n := by
  rcases Nat.eq_zero_or_pos n with rfl | hn
  · rfl
  · rw [Nat.max_eq_left hn]

/-- The stream is as it was made. -/
structure Stream.IsNew (x : Stream) : Prop where
  pump : x.pump = .idle
  buffer : ∃ capacity, x.buffer = .ofCapacity capacity ∧ x.capacity = max capacity 1

theorem Stream.isNew_ofRequest (r : StreamRequest) (config : BrokerConfig) (named : Bool) :
    ({ Stream.ofRequest r config with named } : Stream).IsNew := ⟨rfl, _, rfl, rfl⟩

theorem Stream.isNew_blank : Stream.blank.IsNew := ⟨rfl, _, rfl, rfl⟩

/-- The fan-out of the stream holds the end of the history, in a ring for its capacity. Before the
stream has a connection there is no history. -/
structure Stream.Carries (x : Stream) (history : List Text.Bytes) : Prop where
  holds : x.buffer.Holds history
  capacity : 0 < x.capacity
  size : x.buffer.size = powerAbove x.capacity
  idle : x.pump = .idle → history = []

namespace Stream.Carries

variable {m : Move} {x y : Stream} {history : List Text.Bytes}

/-- A stream is made without a history. -/
theorem new (h : x.IsNew) : x.Carries [] where
  holds := by
    obtain ⟨capacity, buffer, -⟩ := h.buffer
    exact buffer ▸ Fanout.holds_ofCapacity capacity
  capacity := by
    obtain ⟨capacity, -, size⟩ := h.buffer
    rw [size]
    exact Nat.lt_of_lt_of_le Nat.one_pos (Nat.le_max_right _ _)
  size := by
    obtain ⟨capacity, buffer, size⟩ := h.buffer
    rw [buffer, size, powerAbove_max_one]
    rfl
  idle _ := rfl

/-- What grows older without a delivery carries what it did. -/
theorem ages (h : x.Carries history) (g : x.Ages m y) (quiet : ∀ n data, m ≠ .deliver n (.chunk data)) :
    y.Carries history := by
  rcases g.buffer quiet with same | ⟨idle, fresh⟩
  · refine ⟨same ▸ h.holds, g.capacity ▸ h.capacity, ?_, fun hy => h.idle ?_⟩
    · rw [same, g.capacity]
      exact h.size
    · by_contra hx
      exact g.ne_idle hx hy
  · obtain rfl := h.idle idle
    refine ⟨fresh ▸ Fanout.holds_ofCapacity _, g.capacity ▸ h.capacity, ?_, fun _ => rfl⟩
    rw [fresh, g.capacity]
    rfl

/-- A chunk that is sent comes at the end of the history. -/
theorem push (h : x.Carries history) (reading : x.pump ≠ .idle) (data : Text.Bytes) :
    ({ x with buffer := x.buffer.push data } : Stream).Carries (history ++ [data]) :=
  ⟨h.holds.push data, h.capacity, h.size, fun idle => absurd idle reading⟩

end Stream.Carries

namespace System

/-- The chunks that a move sends to the fan-out of a stream. -/
def sends (w : System) (s : StreamId) : Move → List Text.Bytes
  | .deliver n (.chunk data) => if w.accepts n ∧ (w.connection n).stream = s then [data] else []
  | _ => []

/-- The chunks sent to the fan-out of a stream along a run, in order. -/
def sent (s : StreamId) (w : System) : List Move → List Text.Bytes
  | [] => []
  | m :: moves => w.sends s m ++ sent s (w.step m) moves

variable {m : Move} {w w' : System} {s : StreamId} {history : List Text.Bytes}

theorem sent_append (w : System) (s : StreamId) (moves later : List Move) :
    sent s w (moves ++ later) = sent s w moves ++ sent s (w.run moves) later := by
  induction moves generalizing w with
  | nil => rfl
  | cons m moves ih =>
    rw [List.cons_append, sent, sent, ih, List.append_assoc]
    rfl

/-- A stream that was not there before is as it was made. -/
theorem Change.isNew (hc : Change m w w') (hs : w.streams.size ≤ s) : (w'.stream s).IsNew := by
  have blank : ∀ {v : System}, v.streams.size = w.streams.size → (v.stream s).IsNew := by
    intro v hv
    rw [v.stream_of_size_le s (hv ▸ hs)]
    exact Stream.isNew_blank
  cases hc with
  | stay | drop | go | demoteJoin | miss | refuse | sweep => exact blank rfl
  | begin => exact blank (by simp)
  | make =>
    rw [stream_addStream]
    split
    · exact Stream.isNew_ofRequest _ _ _
    · exact blank rfl
  | demote | «open» =>
    rw [stream_beginOpen]
    split
    · exact Stream.isNew_ofRequest _ _ false
    · exact blank rfl
  | letGo | provide | reuse | detach | last => exact blank (streams_size_setStream _ _ _)
  | work actor work => exact blank work.frame.streams
  | register actor place work =>
    exact blank ((streams_size_setStream _ _ _).trans work.frame.streams)
  | giveUp actor place work => exact blank work.frame.streams

/-- With a step a stream grows older, if it is not made with that step. -/
theorem Wired.aged (h : w.Wired w.jobs) (m : Move) (s : StreamId) :
    (w.stream s).Ages m ((w.step m).stream s) ∨
      ∃ x : Stream, x.IsNew ∧ x.Ages m ((w.step m).stream s) ∧ (w.stream s).pump = .idle := by
  rcases Nat.lt_or_ge s w.streams.size with hs | hs
  · exact .inl ((h.ages_step m).streams s hs)
  · have idle : (w.stream s).pump = .idle := by
      rw [w.stream_of_size_le s hs]
      rfl
    obtain ⟨w₁, w₂, h₁, hc, h₂⟩ := step_books w m
    have new := hc.isNew (h₁.frame.streams ▸ hs)
    rcases Nat.lt_or_ge s w₂.streams.size with hs₂ | hs₂
    · exact .inr ⟨_, new, h₂.ages.streams s hs₂, idle⟩
    · refine .inr ⟨_, Stream.isNew_blank, ?_, idle⟩
      rw [stream_of_size_le _ s (h₂.frame.streams ▸ hs₂)]
      exact .refl _

/-- A step sends a stream what it says, and no step takes anything back. -/
theorem Wired.carries_step (h : w.Wired w.jobs) (carries : (w.stream s).Carries history) (m : Move) :
    ((w.step m).stream s).Carries (history ++ w.sends s m) := by
  by_cases chunk : ∃ n data, m = .deliver n (.chunk data)
  · obtain ⟨n, data, rfl⟩ := chunk
    simp only [System.step, deliver, sends]
    by_cases taken : w.accepts n
    · rw [if_pos taken, stream_setStream]
      have reading : (w.stream (w.connection n).stream).pump = .reading n := by
        simp only [accepts, Bool.and_eq_true, decide_eq_true_eq] at taken
        exact taken.1
      by_cases place : (w.connection n).stream = s
      · subst place
        rw [if_pos ⟨rfl, lt_of_pump (by simp [reading])⟩, if_pos ⟨taken, rfl⟩]
        exact carries.push (by simp [reading]) data
      · rw [if_neg fun he => place he.1.symm, if_neg fun he => place he.2, List.append_nil]
        exact carries
    · rw [if_neg taken, if_neg fun he => taken he.1, List.append_nil]
      exact carries
  · have quiet : ∀ n data, m ≠ .deliver n (.chunk data) := fun n data he => chunk ⟨n, data, he⟩
    have none : w.sends s m = [] := by
      unfold sends
      split
      · exact absurd rfl (quiet _ _)
      · rfl
    rw [none, List.append_nil]
    rcases h.aged m s with older | ⟨x, new, older, idle⟩
    · exact carries.ages older quiet
    · rw [carries.idle idle]
      exact (Stream.Carries.new new).ages older quiet

theorem Wired.carries_run (h : w.Wired w.jobs) (carries : (w.stream s).Carries history)
    (moves : List Move) : ((w.run moves).stream s).Carries (history ++ sent s w moves) := by
  induction moves generalizing w history with
  | nil =>
    rw [sent, List.append_nil]
    exact carries
  | cons m moves ih =>
    rw [sent, ← List.append_assoc]
    exact ih (h.step m) (h.carries_step carries m)

/-- In every run a stream carries what was sent to it since the start. -/
theorem carries_sent (configs : List BrokerConfig) (desk : AccessDesk) (terms : List TunerTerms)
    (moves : List Move) (s : StreamId) :
    (((fresh configs desk terms).run moves).stream s).Carries
      (sent s (fresh configs desk terms) moves) := by
  have start : ((fresh configs desk terms).stream s).Carries [] := .new Stream.isNew_blank
  exact (wired_fresh configs desk terms).carries_run start moves

end System

end TunerBroker
