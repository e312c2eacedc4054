import Mathlib.Data.List.Induction
import TunerBroker.Proofs.Access.Policy

/-! The session book after any history of insertions, moves and removals, described by the history
alone: which sessions are active and where each was last seen. The address fallback trusts exactly
the addresses this gives, whatever the order in which the sessions are listed. -/

namespace TunerBroker

/-- A change to the session book. -/
inductive SessionMove where
  | upsert (s : Session)
  | touch (id endpoint : String)
  | remove (id : String)
  deriving DecidableEq

/-- The change says that a session is at an endpoint. -/
def SessionMove.Places (id endpoint : String) : SessionMove → Prop
  | upsert s => s.id = id ∧ s.endpoint = endpoint
  | touch i e => i = id ∧ e = endpoint
  | remove _ => False

/-- The session was put in and has not been taken out since. -/
def IsActive (history : List SessionMove) (id : String) : Prop :=
  ∃ before s after, history = before ++ .upsert s :: after ∧ s.id = id ∧ .remove id ∉ after

/-- The session is active, and the last change that places it does so at the endpoint. -/
def LastSeen (history : List SessionMove) (id endpoint : String) : Prop :=
  IsActive history id ∧ ∃ before m after, history = before ++ m :: after ∧
    m.Places id endpoint ∧ ∀ n ∈ after, ∀ e, ¬n.Places id e

/-- The session was taken out and has not been put in since. -/
def IsRemoved (history : List SessionMove) (id : String) : Prop :=
  ∃ before after, history = before ++ .remove id :: after ∧ ∀ s, .upsert s ∈ after → s.id ≠ id

namespace SessionBook

/-- One change to the book. -/
def apply (b : SessionBook) : SessionMove → SessionBook
  | .upsert s => b.upsert s
  | .touch id endpoint => (b.touch id endpoint).1
  | .remove id => (b.remove id).1

/-- The book after a history of changes, empty to begin with. -/
def after (history : List SessionMove) : SessionBook := history.foldl apply {}

end SessionBook

section History
variable {history : List SessionMove} {m : SessionMove} {s : Session} {id i e d : String}

/-- A split of a list that grew at its end is at the new entry or within the old ones. -/
theorem split_concat {α : Type} {l before after : List α} {a b : α} :
    l ++ [a] = before ++ b :: after ↔
      (before = l ∧ b = a ∧ after = []) ∨ ∃ rest, after = rest ++ [a] ∧ l = before ++ b :: rest := by
  rw [List.append_eq_append_iff]
  constructor
  · rintro (⟨xs, rfl, h⟩ | ⟨xs, rfl, h⟩)
    · cases xs with
      | nil => simp_all
      | cons x xs => simp at h
    · cases xs with
      | nil => simp_all
      | cons x xs =>
        obtain ⟨rfl, rfl⟩ := List.cons.inj h
        exact .inr ⟨xs, rfl, rfl⟩
  · rintro (⟨rfl, rfl, rfl⟩ | ⟨rest, rfl, rfl⟩)
    · exact .inl ⟨[], by simp⟩
    · exact .inr ⟨b :: rest, by simp⟩

theorem isActive_concat : IsActive (history ++ [m]) id ↔
    (∃ s, m = .upsert s ∧ s.id = id) ∨ (IsActive history id ∧ m ≠ .remove id) := by
  simp only [IsActive, split_concat]
  constructor
  · rintro ⟨before, s, after, ⟨rfl, rfl, rfl⟩ | ⟨rest, rfl, rfl⟩, named, kept⟩
    · exact .inl ⟨s, rfl, named⟩
    · simp only [List.mem_append, List.mem_singleton, not_or] at kept
      exact .inr ⟨⟨before, s, rest, rfl, named, kept.1⟩, fun h => kept.2 h.symm⟩
  · rintro (⟨s, rfl, named⟩ | ⟨⟨before, s, rest, rfl, named, kept⟩, other⟩)
    · exact ⟨history, s, [], .inl ⟨rfl, rfl, rfl⟩, named, by simp⟩
    · refine ⟨before, s, rest ++ [m], .inr ⟨rest, rfl, rfl⟩, named, ?_⟩
      simpa [kept] using Ne.symm other

theorem not_isActive_nil : ¬IsActive [] id := by
  rintro ⟨before, s, after, h, -⟩
  simp at h

theorem lastSeen_concat : LastSeen (history ++ [m]) id e ↔
    IsActive (history ++ [m]) id ∧
      (m.Places id e ∨ (∀ d, ¬m.Places id d) ∧ ∃ before n after, history = before ++ n :: after ∧
        n.Places id e ∧ ∀ x ∈ after, ∀ d, ¬x.Places id d) := by
  simp only [LastSeen, split_concat]
  refine and_congr_right fun _ => ?_
  constructor
  · rintro ⟨before, n, after, ⟨rfl, rfl, rfl⟩ | ⟨rest, rfl, rfl⟩, places, last⟩
    · exact .inl places
    · refine .inr ⟨last m (by simp), before, n, rest, rfl, places, fun x hx => last x (by simp [hx])⟩
  · rintro (places | ⟨silent, before, n, rest, rfl, places, last⟩)
    · exact ⟨history, m, [], .inl ⟨rfl, rfl, rfl⟩, places, by simp⟩
    · refine ⟨before, n, rest ++ [m], .inr ⟨rest, rfl, rfl⟩, places, fun x hx => ?_⟩
      rcases List.mem_append.mp hx with hx | hx
      · exact last x hx
      · exact (List.mem_singleton.mp hx) ▸ silent

/-- A session that was taken out for good is not active. -/
theorem IsRemoved.not_isActive (h : IsRemoved history id) : ¬IsActive history id := by
  induction history using List.reverseRecOn with
  | nil => exact not_isActive_nil
  | append_singleton history m ih =>
    obtain ⟨before, after, split, gone⟩ := h
    rw [isActive_concat]
    rintro (⟨s, rfl, named⟩ | ⟨active, other⟩)
    · rcases split_concat.mp split with ⟨-, h, -⟩ | ⟨rest, rfl, -⟩
      · cases h
      · exact gone s (by simp) named
    · rcases split_concat.mp split with ⟨-, rfl, -⟩ | ⟨rest, rfl, rfl⟩
      · exact other rfl
      · exact ih ⟨before, rest, rfl, fun s hs => gone s (by simp [hs])⟩ active

namespace SessionBook

theorem after_concat (history : List SessionMove) (m : SessionMove) :
    after (history ++ [m]) = (after history).apply m := by
  simp [after]

theorem get?_apply (b : SessionBook) (m : SessionMove) (id : String) :
    (b.apply m).sessions.get? id =
      match m with
      | .upsert s => if id = s.id then some s else b.sessions.get? id
      | .touch i e =>
        if id = i then (b.sessions.get? id).map ({ · with endpoint := e }) else b.sessions.get? id
      | .remove i => if id = i then none else b.sessions.get? id := by
  cases m with
  | upsert s => simp [apply, upsert]
  | remove i => simp [apply, remove]
  | touch i e =>
    by_cases h : id = i
    · subst h
      cases known : b.sessions.get? id <;> simp [apply, touch, known]
    · cases known : b.sessions.get? i <;> simp [apply, touch, known, h]

/-- The book holds the active sessions. -/
theorem isSome_after (history : List SessionMove) (id : String) :
    ((after history).sessions.get? id).isSome = true ↔ IsActive history id := by
  induction history using List.reverseRecOn with
  | nil => simpa [after, Keyed.get?] using not_isActive_nil
  | append_singleton history m ih =>
    rw [after_concat, get?_apply, isActive_concat, ← ih]
    cases m with
    | upsert s => by_cases h : id = s.id <;> simp [h, eq_comm (b := id)]
    | touch i e => by_cases h : id = i <;> simp [h]
    | remove i => by_cases h : id = i <;> simp [h, eq_comm (a := i)]

/-- The book holds each session where it was last seen. -/
theorem endpoint_after (history : List SessionMove) (id e : String) :
    ((after history).sessions.get? id).map (·.endpoint) = some e ↔ LastSeen history id e := by
  induction history using List.reverseRecOn with
  | nil => simp [after, Keyed.get?, LastSeen, not_isActive_nil]
  | append_singleton history m ih =>
    rw [after_concat, get?_apply, lastSeen_concat, isActive_concat]
    cases m with
    | upsert s =>
      by_cases h : id = s.id
      · simp [SessionMove.Places, ← h]
      · simpa [SessionMove.Places, h, Ne.symm h, LastSeen] using ih
    | touch i e' =>
      by_cases h : id = i
      · subst h
        simp [SessionMove.Places, ← isSome_after, Option.isSome_iff_exists]
      · simpa [SessionMove.Places, h, Ne.symm h, LastSeen] using ih
    | remove i =>
      by_cases h : id = i
      · simp [h]
      · simpa [SessionMove.Places, h, Ne.symm h, LastSeen] using ih

/-- The book holds each session under its id. -/
theorem id_after (h : (after history).sessions.get? id = some s) : s.id = id := by
  induction history using List.reverseRecOn generalizing s with
  | nil => simp [after, Keyed.get?] at h
  | append_singleton history m ih =>
    rw [after_concat, get?_apply] at h
    split at h <;> split at h
    case h_1.isTrue same => exact same ▸ congrArg Session.id (Option.some.inj h).symm
    case h_2.isTrue =>
      obtain ⟨old, known, rfl⟩ := Option.map_eq_some_iff.mp h
      have named : old.id = id := ih known
      exact named
    case h_3.isTrue => cases h
    all_goals exact ih h

end SessionBook

end History

/-- The session was last seen from the caller's address, both in normal form and case aside. -/
def SharesAddress (history : List SessionMove) (ctx : RequestContext) (id : String) : Prop :=
  ∃ peer, ctx.peer = some peer ∧
    ∃ e, LastSeen history id e ∧ e.toLower = peer.normalize.text.toLower

section Fallback
variable {history : List SessionMove} {k : Collaborators Id} {ctx : RequestContext} {s : Session}
  {id : String}

namespace SessionBook

theorem mem_values_after : s ∈ (after history).sessions.values ↔
    (after history).sessions.get? s.id = some s := by
  rw [Keyed.mem_values]
  constructor
  · rintro ⟨id, found⟩
    rwa [id_after found]
  · exact fun found => ⟨s.id, found⟩

/-- A list of the sessions tells where each was last seen. -/
theorem lastSeen_iff {l : List Session} (listed : l.Perm (after history).sessions.values)
    (id e : String) : LastSeen history id e ↔ ∃ s ∈ l, s.id = id ∧ s.endpoint = e := by
  rw [← endpoint_after, Option.map_eq_some_iff]
  constructor
  · rintro ⟨s, found, rfl⟩
    have named := id_after found
    exact ⟨s, listed.mem_iff.mpr (mem_values_after.mpr (named ▸ found)), named, rfl⟩
  · rintro ⟨s, hs, rfl, rfl⟩
    exact ⟨s, mem_values_after.mp (listed.mem_iff.mp hs), rfl⟩

theorem snapshot_perm (b : SessionBook) : b.snapshot.Perm b.sessions.values :=
  List.mergeSort_perm ..

theorem snapshot_sorted (b : SessionBook) : b.snapshot.Pairwise (·.id ≤ ·.id) := by
  refine (List.pairwise_mergeSort ?_ ?_ _).imp of_decide_eq_true
  · simpa using fun _ _ _ => String.le_trans
  · simpa using fun s t : Session => String.le_total s.id t.id

end SessionBook

/-- In any list of the sessions, those that share the caller's address are the ones a scan by
address would stop at. -/
theorem sharesAddress_iff
    (listed : (Id.run k.sessions).Perm (SessionBook.after history).sessions.values) :
    SharesAddress history ctx id ↔ ∃ peer, ctx.peer = some peer ∧ ∃ s ∈ Id.run k.sessions,
      s.id = id ∧ s.endpoint.toLower = peer.normalize.text.toLower := by
  simp only [SharesAddress, SessionBook.lastSeen_iff listed]
  constructor
  · rintro ⟨peer, known, _, ⟨s, hs, named, rfl⟩, same⟩
    exact ⟨peer, known, s, hs, named, same⟩
  · rintro ⟨peer, known, s, hs, named, same⟩
    exact ⟨peer, known, _, ⟨s, hs, named, rfl⟩, same⟩

variable {g : Grant}

/-- Once the claims are rejected, what is granted is the first session seen from the address. -/
theorem fallback_grants
    (rejected : ∃ e, Id.run (validate k ctx.claims Requirement.default.rule) = .rejected e) :
    Accepts k ctx .unsafeAddress g ↔ ∃ s, SeenFrom k ctx s ∧ g = .trustedSessionAddress s.id := by
  have fails : ¬∃ g, Meets k ctx Requirement.unsafeAddress.rule g := validate_refuses.mp rejected
  constructor
  · intro accepts
    cases accepts with
    | setup opens => obtain ⟨⟨b, h⟩, -⟩ := opens; cases h
    | claims shut meets => exact absurd ⟨g, meets⟩ fails
    | address _ seen => exact ⟨_, seen, rfl⟩
  · rintro ⟨s, seen, rfl⟩
    exact .address fails seen

theorem SeenFrom.sharesAddress (seen : SeenFrom k ctx s)
    (listed : (Id.run k.sessions).Perm (SessionBook.after history).sessions.values) :
    SharesAddress history ctx s.id := by
  obtain ⟨peer, known, before, after, split, same, -⟩ := seen
  have hs : s ∈ Id.run k.sessions := by
    rw [show Id.run k.sessions = before ++ s :: after from split]
    simp
  exact (sharesAddress_iff listed).mpr ⟨peer, known, s, hs, rfl, same⟩

theorem SharesAddress.exists_seenFrom (h : SharesAddress history ctx id)
    (listed : (Id.run k.sessions).Perm (SessionBook.after history).sessions.values) :
    ∃ s, SeenFrom k ctx s := by
  obtain ⟨peer, known, s, hs, -, same⟩ := (sharesAddress_iff listed).mp h
  have found : ((Id.run k.sessions).find? fun t =>
      sameIgnoringCase t.endpoint peer.normalize.text).isSome = true :=
    List.find?_isSome.mpr ⟨s, hs, sameIgnoringCase_iff.mpr same⟩
  obtain ⟨t, first⟩ := Option.isSome_iff_exists.mp found
  exact ⟨t, (seenFrom_iff known).mpr first⟩

/-- In a list by increasing id the first session seen from the address has the least id. -/
theorem SeenFrom.least (seen : SeenFrom k ctx s)
    (listed : (Id.run k.sessions).Perm (SessionBook.after history).sessions.values)
    (sorted : (Id.run k.sessions).Pairwise (·.id ≤ ·.id)) (h : SharesAddress history ctx id) :
    s.id ≤ id := by
  obtain ⟨peer, known, t, ht, rfl, same⟩ := (sharesAddress_iff listed).mp h
  obtain ⟨peer', known', before, after, split, -, miss⟩ := seen
  obtain rfl : peer = peer' := Option.some.inj (known.symm.trans known')
  replace split : Id.run k.sessions = before ++ s :: after := split
  rw [split] at ht sorted
  rcases List.mem_append.mp ht with early | late
  · exact absurd same (miss t early)
  · rcases List.mem_cons.mp late with rfl | late
    · exact String.le_refl _
    · exact List.rel_of_pairwise_cons (List.pairwise_append.mp sorted).2.1 late

/-- The request is accepted if and only if some session shares its address. -/
theorem fallback_accepts
    (rejected : ∃ e, Id.run (validate k ctx.claims Requirement.default.rule) = .rejected e)
    (listed : (Id.run k.sessions).Perm (SessionBook.after history).sessions.values) :
    (Id.run (authorize k ctx .unsafeAddress)).isAccepted = true ↔
      ∃ id, SharesAddress history ctx id := by
  simp only [isAccepted_iff, fallback_grants rejected]
  constructor
  · rintro ⟨_, s, seen, rfl⟩
    exact ⟨s.id, seen.sharesAddress listed⟩
  · rintro ⟨id, shares⟩
    obtain ⟨s, seen⟩ := shares.exists_seenFrom listed
    exact ⟨_, s, seen, rfl⟩

/-- A session that was removed, or is now seen elsewhere, does not share the caller's address. -/
theorem not_sharesAddress (h : IsRemoved history id ∨ ∃ e, LastSeen history id e ∧
    ∀ peer, ctx.peer = some peer → e.toLower ≠ peer.normalize.text.toLower) :
    ¬SharesAddress history ctx id := by
  rintro ⟨peer, known, e, seen, same⟩
  rcases h with removed | ⟨e', seen', elsewhere⟩
  · exact removed.not_isActive seen.1
  · rw [← SessionBook.endpoint_after] at seen seen'
    obtain rfl := Option.some.inj (seen.symm.trans seen')
    exact elsewhere peer known same

end Fallback

/-- The address fallback follows the session history. Take any history of changes to a book that was
empty, any list of the sessions that are then active, and any request whose claims the default rule
rejects. The request is accepted if and only if its address is known and an active session was last
seen from there, and the session granted is such a one: the one with the least id, if the list is by
id. No other listing accepts more or less. A session that was removed or is now seen elsewhere does
not help: if the request is accepted, another session is granted. -/
theorem address_follows_history (history : List SessionMove) (k : Collaborators Id)
    (ctx : RequestContext)
    (rejected : ∃ e, Id.run (validate k ctx.claims Requirement.default.rule) = .rejected e)
    (listed : (Id.run k.sessions).Perm (SessionBook.after history).sessions.values) :
    let decision := Id.run (authorize k ctx .unsafeAddress)
    (decision.isAccepted = true ↔ ∃ id, SharesAddress history ctx id) ∧
    (∀ g, decision.verdict = .accepted g →
      ∃ id, g = .trustedSessionAddress id ∧ SharesAddress history ctx id) ∧
    (∀ l : List Session, l.Perm (Id.run k.sessions) →
      (Id.run (authorize { k with sessions := l } ctx .unsafeAddress)).isAccepted =
        decision.isAccepted) ∧
    ((Id.run k.sessions).Pairwise (·.id ≤ ·.id) → ∀ id,
      (decision.verdict = .accepted (.trustedSessionAddress id) ↔
        SharesAddress history ctx id ∧ ∀ i, SharesAddress history ctx i → id ≤ i)) ∧
    (∀ id, IsRemoved history id ∨ (∃ e, LastSeen history id e ∧
        ∀ peer, ctx.peer = some peer → e.toLower ≠ peer.normalize.text.toLower) →
      decision.isAccepted = true →
      ∃ i ≠ id, decision.verdict = .accepted (.trustedSessionAddress i) ∧
        SharesAddress history ctx i) ∧
    (∀ id e, ¬IsActive history id →
      (SessionBook.after history).touch id e = (SessionBook.after history, false)) ∧
    (SessionBook.after history).snapshot.Perm (SessionBook.after history).sessions.values ∧
    (SessionBook.after history).snapshot.Pairwise (·.id ≤ ·.id) := by
  have grants {g : Grant} : (Id.run (authorize k ctx .unsafeAddress)).verdict = .accepted g ↔
      ∃ s, SeenFrom k ctx s ∧ g = .trustedSessionAddress s.id := by
    rw [authorize_verdict, judge_accepts, fallback_grants rejected]
  have accepts := fallback_accepts rejected listed
  refine ⟨accepts, ?_, ?_, ?_, ?_, ?_, SessionBook.snapshot_perm _, SessionBook.snapshot_sorted _⟩
  · intro g granted
    obtain ⟨s, seen, rfl⟩ := grants.mp granted
    exact ⟨s.id, rfl, seen.sharesAddress listed⟩
  · intro l reordered
    have accepts' := fallback_accepts (k := { k with sessions := l }) rejected
      (reordered.trans listed)
    exact Bool.eq_iff_iff.mpr (accepts'.trans accepts.symm)
  · intro sorted id
    constructor
    · intro granted
      obtain ⟨s, seen, same⟩ := grants.mp granted
      obtain rfl : id = s.id := by simpa using same
      exact ⟨seen.sharesAddress listed, fun i shares => seen.least listed sorted shares⟩
    · rintro ⟨shares, least⟩
      obtain ⟨s, seen⟩ := shares.exists_seenFrom listed
      have same : id = s.id :=
        String.le_antisymm (least _ (seen.sharesAddress listed)) (seen.least listed sorted shares)
      exact grants.mpr ⟨s, seen, by rw [same]⟩
  · intro id gone accepted
    obtain ⟨i, shares⟩ := accepts.mp accepted
    obtain ⟨s, seen⟩ := shares.exists_seenFrom listed
    have there := seen.sharesAddress listed
    exact ⟨s.id, fun same => not_sharesAddress gone (same ▸ there), grants.mpr ⟨s, seen, rfl⟩, there⟩
  · intro id e unknown
    have missing : (SessionBook.after history).sessions.get? id = none := by
      rwa [← SessionBook.isSome_after, Bool.not_eq_true, Option.isSome_eq_false_iff,
        Option.isNone_iff_eq_none] at unknown
    simp [SessionBook.touch, missing]

/-- Two sessions behind one address, of which the first has moved away; a third was removed. -/
def movesAndLeaves : List SessionMove :=
  [.upsert { id := "a", endpoint := "10.0.0.7" }, .upsert { id := "b", endpoint := "10.0.0.7" },
    .upsert { id := "c", endpoint := "10.0.0.7" }, .touch "a" "10.0.0.8", .remove "c"]

/-- A caller without claims, from the address two of the sessions have had. -/
def callerAtSeven : RequestContext := { peer := some (.v4 ⟨10, 0, 0, 7⟩) }

/-- The session that has stayed is granted. -/
theorem fallback_grants_who_stayed :
    let k : Collaborators Id :=
      { setupComplete := true, allows := fun _ => true
        sessions := (SessionBook.after movesAndLeaves).sessions.values }
    (∃ e, Id.run (validate k callerAtSeven.claims Requirement.default.rule) = .rejected e) ∧
    (Id.run k.sessions).Perm (SessionBook.after movesAndLeaves).sessions.values ∧
    ∃ i ≠ "a", (Id.run (authorize k callerAtSeven .unsafeAddress)).verdict =
      .accepted (.trustedSessionAddress i) := by
  have rejected : ∃ e, Id.run (validate (m := Id)
      { setupComplete := true, allows := fun _ => true
        sessions := (SessionBook.after movesAndLeaves).sessions.values }
      callerAtSeven.claims Requirement.default.rule) = .rejected e := ⟨_, rfl⟩
  obtain ⟨accepts, -, -, -, others, -⟩ :=
    address_follows_history movesAndLeaves _ callerAtSeven rejected (List.Perm.refl _)
  have stays : SharesAddress movesAndLeaves callerAtSeven "b" :=
    ⟨_, rfl, "10.0.0.7", (SessionBook.endpoint_after ..).mp (by decide),
      sameIgnoringCase_iff.mp (by decide)⟩
  have moved : LastSeen movesAndLeaves "a" "10.0.0.8" :=
    (SessionBook.endpoint_after ..).mp (by decide)
  have elsewhere : ∀ peer, callerAtSeven.peer = some peer →
      "10.0.0.8".toLower ≠ peer.normalize.text.toLower := by
    rintro _ ⟨⟩
    exact fun same => absurd (sameIgnoringCase_iff.mpr same) (by decide)
  obtain ⟨i, other, granted, -⟩ :=
    others "a" (.inr ⟨_, moved, elsewhere⟩) (accepts.mpr ⟨"b", stays⟩)
  exact ⟨rejected, List.Perm.refl _, i, other, granted⟩

end TunerBroker
