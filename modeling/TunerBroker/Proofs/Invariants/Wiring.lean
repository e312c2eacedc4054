import Mathlib.Logic.Function.Basic
import TunerBroker.Proofs.Steps.Books

/-! How streams and connections hang together. The parts of a stream are in keeping with its place in
life; a connection that the tuner has given is with the pump of one stream, for good, and stands as
that stream does; and no two calls have a job on the same stream. -/

namespace TunerBroker

namespace LinkState

/-- The tuner has given the connection. -/
def isEstablished : LinkState → Bool
  | live | shutting | shut | dropped => true
  | _ => false

/-- Shutdowns begun on a connection that stands so. -/
def shutdowns : LinkState → Nat
  | shutting | shut => 1
  | _ => 0

/-- Losses of a connection that stands so. -/
def drops : LinkState → Nat
  | dropped => 1
  | _ => 0

end LinkState

/-- The connection whose shutdown is seen. -/
def TunerEvent.shuts? : TunerEvent → Option ConnectionId
  | shutdown n => some n
  | _ => none

/-- The connection whose loss is seen. -/
def TunerEvent.drops? : TunerEvent → Option ConnectionId
  | dropped n => some n
  | _ => none

namespace Stream

/-- The parts of a stream are in keeping with its place in life. -/
def IsFit (x : Stream) : Prop :=
  match x.lifecycle, x.pump with
  | .unopened, .idle | .opening, .idle => x.feed = false ∧ x.stopping = false ∧ x.detached = false
  | .connected, .reading _ => x.feed = true ∧ x.stopping = x.detached
  | .connected, .stopped _ => x.feed = false ∧ x.stopping = false ∧ x.detached = false
  | .connected, .crashed _ _ => x.feed = !x.detached ∧ x.stopping = x.detached
  | .connected, .collected _ => x.feed = false ∧ x.stopping = true ∧ x.detached = true
  | .closing, .stopped _ => x.feed = false ∧ x.stopping = true ∧ x.detached = false
  | .closing, .reading _ | .closing, .crashed _ _ | .closing, .collected _ =>
    x.feed = false ∧ x.stopping = true
  | .closed, .idle | .closed, .crashed _ _ | .closed, .collected _ =>
    x.feed = false ∧ x.detached = false
  | _, _ => False

/-- The connection of a stream, and where it stands. -/
def link? (x : Stream) : Option (ConnectionId × LinkState) :=
  match x.pump with
  | .idle => none
  | .reading n | .stopped n => some (n, .live)
  | .crashed n _ => some (n, .dropped)
  | .collected n =>
    some (n, if x.detached then .dropped else if x.lifecycle = .closed then .shut else .shutting)

/-- Two streams stand alike if they differ in their consumers, name and payload only. -/
structure Alike (x y : Stream) : Prop where
  lifecycle : y.lifecycle = x.lifecycle
  feed : y.feed = x.feed
  pump : y.pump = x.pump
  stopping : y.stopping = x.stopping
  detached : y.detached = x.detached

namespace Alike

variable {x y : Stream}

theorem refl (x : Stream) : Alike x x := ⟨rfl, rfl, rfl, rfl, rfl⟩

theorem isFit (h : Alike x y) : y.IsFit ↔ x.IsFit := by
  simp only [IsFit, h.lifecycle, h.feed, h.pump, h.stopping, h.detached]

theorem link? (h : Alike x y) : y.link? = x.link? := by
  simp only [Stream.link?, h.lifecycle, h.pump, h.detached]

end Alike

end Stream

namespace System

/-- Shutdowns begun on a connection. -/
def shutdownsOf (w : System) (n : ConnectionId) : Nat := w.sightings.countP (·.shuts? = some n)

/-- Losses of a connection. -/
def dropsOf (w : System) (n : ConnectionId) : Nat := w.sightings.countP (·.drops? = some n)

/-- What was seen of a connection goes with where it stands. -/
def Seen (w : System) (n : ConnectionId) (l : LinkState) : Prop :=
  w.shutdownsOf n = l.shutdowns ∧ w.dropsOf n = l.drops

/-- A stream is at the place where a job finds it. -/
def Manned (w : System) (s : StreamId) : Job → Prop
  | .dial d => (w.stream s).lifecycle = .opening ∧
      ∃ x, w.connections.get? d.connection = some x ∧ x.stream = s ∧ x.state = .dialing
  | .close .joining => (w.stream s).lifecycle = .closing ∧ (w.stream s).detached = false ∧
      ∀ n, (w.stream s).pump ≠ .collected n
  | .close (.shutting _) => (w.stream s).lifecycle = .closing ∧ (w.stream s).detached = false ∧
      ∃ n, (w.stream s).pump = .collected n

/-- The jobs that the calls have. -/
def jobs (w : System) (c : CallId) : Option (StreamId × Job) := (w.phaseOf c).job?

/-- Streams, connections and the jobs `J` hang together. -/
structure Wired (w : System) (J : CallId → Option (StreamId × Job)) : Prop where
  fit : ∀ s, (w.stream s).IsFit
  linked : ∀ {s n l}, (w.stream s).link? = some (n, l) →
    ∃ x, w.connections.get? n = some x ∧ x.stream = s ∧ x.state = l
  pumped : ∀ {n x}, w.connections.get? n = some x → x.state.isEstablished →
    (w.stream x.stream).link? = some (n, x.state)
  manned : ∀ {c s j}, J c = some (s, j) → w.Manned s j
  sole : ∀ {c c' s j j'}, J c = some (s, j) → J c' = some (s, j') → c = c'
  seen : ∀ n, w.Seen n ((w.connections.get? n).elim .dialing (·.state))
  whole : ∀ {s}, w.isHeld s → (w.stream s).lifecycle = .connected → (w.stream s).detached = false

variable {m : Move} {w w' : System} {J K : CallId → Option (StreamId × Job)} {c : CallId}
  {s t : StreamId} {n : ConnectionId} {i j : Option Job} {p : Phase} {f : Stream → Stream}

theorem Manned.lifecycle {j : Job} (h : w.Manned s j) :
    (w.stream s).lifecycle = .opening ∨ (w.stream s).lifecycle = .closing := by
  cases j with
  | dial d => exact .inl h.1
  | close stage => cases stage <;> exact .inr h.1

theorem lt_of_lifecycle (h : (w.stream s).lifecycle ≠ .closed) : s < w.streams.size := by
  rcases Nat.lt_or_ge s w.streams.size with hs | hs
  · exact hs
  · exact absurd (by rw [w.stream_of_size_le _ hs]; rfl) h

theorem lt_of_pump (h : (w.stream s).pump ≠ .idle) : s < w.streams.size := by
  rcases Nat.lt_or_ge s w.streams.size with hs | hs
  · exact hs
  · exact absurd (by rw [w.stream_of_size_le _ hs]; rfl) h

namespace Wired

/-- The pump of a connected stream has been started. -/
theorem pump_ne_idle (h : w.Wired J) (connected : (w.stream s).lifecycle = .connected) :
    (w.stream s).pump ≠ .idle := fun idle => by
  have fit := h.fit s
  simp [Stream.IsFit, connected, idle] at fit

/-- Nobody has a job on a stream that is neither opening nor closing. -/
theorem free (h : w.Wired J) (ho : (w.stream s).lifecycle ≠ .opening)
    (hc : (w.stream s).lifecycle ≠ .closing) (c : CallId) (j : Job) : J c ≠ some (s, j) :=
  fun hj => (h.manned hj).lifecycle.elim ho hc

/-- A pump has been started on a connection of its own stream. -/
theorem exists_connection (h : w.Wired J) (hn : (w.stream s).pump.connection? = some n) :
    ∃ x, w.connections.get? n = some x ∧ x.stream = s := by
  have link : ∃ l, (w.stream s).link? = some (n, l) := by
    cases hp : (w.stream s).pump <;> simp_all [Pump.connection?, Stream.link?]
  obtain ⟨l, link⟩ := link
  obtain ⟨x, hx, place, -⟩ := h.linked link
  exact ⟨x, hx, place⟩

/-! ### One change at a time -/

/-- Everything hangs together as before where the streams stand alike. -/
theorem alike (h : w.Wired J) (streams : ∀ s, (w.stream s).Alike (w'.stream s))
    (connections : w'.connections = w.connections) (sightings : w'.sightings = w.sightings)
    (held : ∀ s, w'.isHeld s → w.isHeld s ∨ (w.stream s).lifecycle ≠ .connected) : w'.Wired J where
  fit s := (streams s).isFit.2 (h.fit s)
  linked hl := by
    rw [(streams _).link?] at hl
    rw [connections]
    exact h.linked hl
  pumped hx he := by
    rw [connections] at hx
    rw [(streams _).link?]
    exact h.pumped hx he
  manned {c s j} hj := by
    have hm := h.manned hj
    have g := streams s
    cases j with
    | dial d => simpa only [Manned, g.lifecycle, connections] using hm
    | close stage =>
      cases stage <;> simpa only [Manned, g.lifecycle, g.detached, g.pump] using hm
  sole := h.sole
  seen n := by
    simp only [Seen, shutdownsOf, dropsOf, sightings, connections]
    exact h.seen n
  whole {s} hs hc := by
    rw [(streams s).lifecycle] at hc
    rw [(streams s).detached]
    rcases held s hs with hs | hn
    · exact h.whole hs hc
    · exact absurd hc hn

theorem fit_of_others (h : w.Wired J) (others : ∀ t ≠ s, w'.stream t = w.stream t)
    (fit : (w'.stream s).IsFit) (t : StreamId) : (w'.stream t).IsFit := by
  by_cases ht : t = s
  · exact ht ▸ fit
  · rw [others t ht]
    exact h.fit t

theorem whole_of_others (h : w.Wired J) (others : ∀ t ≠ s, w'.stream t = w.stream t)
    (held : ∀ t, w'.isHeld t → w.isHeld t ∨ t = s)
    (whole : w'.isHeld s → (w'.stream s).lifecycle = .connected → (w'.stream s).detached = false)
    (ht : w'.isHeld t) (hc : (w'.stream t).lifecycle = .connected) : (w'.stream t).detached = false := by
  by_cases he : t = s
  · subst he
    exact whole ht hc
  · rw [others t he] at hc ⊢
    exact h.whole ((held t ht).resolve_right he) hc

/-- One call at most has a job on each stream, if that is so of the stream whose jobs change. -/
theorem sole_of_jobs {c' : CallId} {j j' : Job} {P : Job → Prop} (h : w.Wired J)
    (jobs : ∀ {c t j}, K c = some (t, j) → t ≠ s ∧ J c = some (t, j) ∨ t = s ∧ P j)
    (sole : ∀ {c c' j j'}, K c = some (s, j) → K c' = some (s, j') → c = c')
    (hj : K c = some (t, j)) (hj' : K c' = some (t, j')) : c = c' := by
  rcases jobs hj with ⟨ht, hc⟩ | ⟨rfl, -⟩
  · rcases jobs hj' with ⟨-, hc'⟩ | ⟨ht', -⟩
    · exact h.sole hc hc'
    · exact absurd ht' ht
  · exact sole hj hj'

/-- One stream changes and its connection stays as it stands. -/
theorem restream (h : w.Wired J) (s : StreamId) (others : ∀ t ≠ s, w'.stream t = w.stream t)
    (connections : w'.connections = w.connections) (sightings : w'.sightings = w.sightings)
    (held : ∀ t, w'.isHeld t → w.isHeld t ∨ t = s)
    (fit : (w'.stream s).IsFit) (link : (w'.stream s).link? = (w.stream s).link?)
    (whole : w'.isHeld s → (w'.stream s).lifecycle = .connected → (w'.stream s).detached = false)
    (jobs : ∀ {c t j}, K c = some (t, j) → t ≠ s ∧ J c = some (t, j) ∨ t = s ∧ w'.Manned s j)
    (sole : ∀ {c c' j j'}, K c = some (s, j) → K c' = some (s, j') → c = c') : w'.Wired K where
  fit t := h.fit_of_others others fit t
  linked {t n l} hl := by
    rw [connections]
    by_cases ht : t = s
    · subst ht
      exact h.linked (link ▸ hl)
    · rw [others t ht] at hl
      exact h.linked hl
  pumped {n x} hx he := by
    rw [connections] at hx
    have hp := h.pumped hx he
    by_cases ht : x.stream = s
    · rw [ht] at hp ⊢
      rwa [link]
    · rwa [others _ ht]
  manned {c t j} hj := by
    rcases jobs hj with ⟨ht, hj⟩ | ⟨rfl, hm⟩
    · have hm := h.manned hj
      cases j with
      | dial d => simpa only [Manned, others t ht, connections] using hm
      | close stage => cases stage <;> simpa only [Manned, others t ht] using hm
    · exact hm
  sole := h.sole_of_jobs jobs sole
  seen n := by
    simp only [Seen, shutdownsOf, dropsOf, sightings, connections]
    exact h.seen n
  whole := h.whole_of_others others held whole

/-- One stream changes together with its connection. -/
theorem rewire (h : w.Wired J) (s : StreamId) (n : ConnectionId) {x : Connection}
    (others : ∀ t ≠ s, w'.stream t = w.stream t)
    (connection : ∀ k, w'.connections.get? k = if k = n then some x else w.connections.get? k)
    (place : x.stream = s) (own : ∀ y, w.connections.get? n = some y → y.stream = s)
    (before : ∀ k l, (w.stream s).link? = some (k, l) → k = n)
    (held : ∀ t, w'.isHeld t → w.isHeld t)
    (fit : (w'.stream s).IsFit)
    (link : (w'.stream s).link? = if x.state.isEstablished then some (n, x.state) else none)
    (whole : w'.isHeld s → (w'.stream s).lifecycle = .connected → (w'.stream s).detached = false)
    (jobs : ∀ {c t j}, K c = some (t, j) → t ≠ s ∧ J c = some (t, j) ∨ t = s ∧ w'.Manned s j)
    (sole : ∀ {c c' j j'}, K c = some (s, j) → K c' = some (s, j') → c = c')
    (unseen : ∀ k ≠ n, w'.shutdownsOf k = w.shutdownsOf k ∧ w'.dropsOf k = w.dropsOf k)
    (seen : w'.Seen n x.state) : w'.Wired K where
  fit t := h.fit_of_others others fit t
  linked {t k l} hl := by
    rw [connection]
    by_cases ht : t = s
    · subst ht
      rw [link] at hl
      split at hl
      · obtain ⟨rfl, rfl⟩ := Prod.mk.inj (Option.some.inj hl)
        exact ⟨x, if_pos rfl, place, rfl⟩
      · cases hl
    · rw [others t ht] at hl
      obtain ⟨y, hy, hs, hst⟩ := h.linked hl
      rw [if_neg (by rintro rfl; exact ht (hs.symm.trans (own y hy)))]
      exact ⟨y, hy, hs, hst⟩
  pumped {k y} hy he := by
    rw [connection] at hy
    split at hy
    · subst k
      obtain rfl := Option.some.inj hy
      rw [place, link, if_pos he]
    · have hp := h.pumped hy he
      by_cases ht : y.stream = s
      · exact absurd (before k y.state (ht ▸ hp)) ‹_›
      · rwa [others _ ht]
  manned {c t j} hj := by
    rcases jobs hj with ⟨ht, hj⟩ | ⟨rfl, hm⟩
    · have hm := h.manned hj
      cases j with
      | dial d =>
        obtain ⟨hl, y, hy, hs, hst⟩ := hm
        refine ⟨by rw [others t ht]; exact hl, y, ?_, hs, hst⟩
        rw [connection, if_neg (by rintro rfl; exact ht (hs.symm.trans (own y hy)))]
        exact hy
      | close stage => cases stage <;> simpa only [Manned, others t ht] using hm
    · exact hm
  sole := h.sole_of_jobs jobs sole
  seen k := by
    rw [connection]
    by_cases hk : k = n
    · subst hk
      rw [if_pos rfl]
      exact seen
    · obtain ⟨h₁, h₂⟩ := h.seen k
      rw [if_neg hk, Seen, (unseen k hk).1, (unseen k hk).2]
      exact ⟨h₁, h₂⟩
  whole := h.whole_of_others others (fun t ht => .inl (held t ht)) whole

end Wired

end System

end TunerBroker
