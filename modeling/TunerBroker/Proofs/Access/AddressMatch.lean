import TunerBroker.Proofs.Access.AddressText
import TunerBroker.Proofs.Access.Policy

/-! The address fallback compares texts, and that is to compare addresses: a session recorded under a
caller's normal address is matched by the callers of that address and by no others. -/

namespace TunerBroker

namespace IpAddress

/-- What is in normal form holds no IPv4 address. -/
theorem mapped?_of_normalize {a : IpAddress} {x : Ipv6} (h : a.normalize = .v6 x) :
    x.mapped? = none := by
  cases a with
  | v4 y => cases h
  | v6 y =>
    cases inner : y.mapped? with
    | some z => simp [normalize, inner] at h
    | none =>
      obtain rfl : y = x := by simpa [normalize, inner] using h
      exact inner

theorem normalize_normalize (a : IpAddress) : a.normalize.normalize = a.normalize := by
  cases h : a.normalize with
  | v4 x => rfl
  | v6 x => simp [normalize, mapped?_of_normalize h]

theorem normalize_mapped (x : Ipv4) : (IpAddress.v6 x.mapped).normalize = .v4 x := by
  simp [normalize, Ipv6.mapped?_eq_some.mpr rfl]

end IpAddress

/-- The same collaborators with other sessions. -/
def Collaborators.withSessions (k : Collaborators Id) (sessions : List Session) : Collaborators Id :=
  { k with sessions := pure sessions }

section Fallback
variable {k : Collaborators Id} {ctx : RequestContext} {peer a : IpAddress} {s : Session}
  (before after sessions : List Session)

/-- A session recorded under the normal form of an address is seen from that address only. -/
theorem sameIgnoringCase_recorded (recorded : s.endpoint.toLower = a.normalize.text.toLower) :
    sameIgnoringCase s.endpoint peer.normalize.text = decide (peer.normalize = a.normalize) := by
  rw [Bool.eq_iff_iff, sameIgnoringCase_iff, recorded, IpAddress.text_toLower_inj, eq_comm,
    decide_eq_true_iff]

/-- A session of another address is passed over. -/
theorem matchAddress_skip (recorded : s.endpoint.toLower = a.normalize.text.toLower)
    (other : peer.normalize ≠ a.normalize) :
    matchAddress peer.normalize (before ++ s :: after) = matchAddress peer.normalize (before ++ after) := by
  have unmatched : sameIgnoringCase s.endpoint peer.normalize.text = false := by
    rw [sameIgnoringCase_recorded recorded, decide_eq_false other]
  simp only [matchAddress, List.find?_append, List.find?_cons, unmatched]

/-- A session of the address is trusted, if none before it is. -/
theorem matchAddress_found (recorded : s.endpoint.toLower = a.normalize.text.toLower)
    (same : peer.normalize = a.normalize)
    (first : matchAddress peer.normalize before = .rejected .noMatchingSession) :
    matchAddress peer.normalize (before ++ s :: after) = .accepted (.trustedSessionAddress s.id) := by
  have matched : sameIgnoringCase s.endpoint peer.normalize.text = true := by
    rw [sameIgnoringCase_recorded recorded, decide_eq_true same]
  simp only [matchAddress] at first ⊢
  cases found : before.find? fun t => sameIgnoringCase t.endpoint peer.normalize.text with
  | some t => simp [found] at first
  | none => simp [List.find?_append, found, matched]

/-- Where the credential is rejected, the sessions decide. -/
theorem authorize_withSessions
    (rejected : ∃ e, Id.run (validate k ctx.claims Requirement.unsafeAddress.rule) = .rejected e)
    (known : ctx.peer = some peer) :
    (Id.run (authorize (k.withSessions sessions) ctx .unsafeAddress)).verdict =
      matchAddress peer.normalize sessions := by
  have fails : ¬∃ g, Meets (k.withSessions sessions) ctx Requirement.unsafeAddress.rule g :=
    validate_refuses.mp rejected
  rw [authorize_verdict, judge_address fails, known]
  rfl

/-- Callers of one normal form are treated alike. -/
theorem authorize_congr {peer peer' : IpAddress} (same : peer.normalize = peer'.normalize)
    (r : Requirement) : Id.run (authorize k { ctx with peer := some peer } r) =
      Id.run (authorize k { ctx with peer := some peer' } r) := by
  simp only [authorize, judge, authorizeByAddress, RequestContext.remoteAddress, Option.map_some, same]

end Fallback

/-- To match texts is to match addresses. Where the credential of a caller is rejected, the address
fallback matches a session recorded under the normal form of an address, in capitals or not, just when
that is the normal form of the caller's own address, whatever his port and his zone: it trusts the
first such session, and passes over the others. Normal forms are left as they are, and hold no IPv4
address in an IPv6 one; an IPv4 caller is treated alike however he arrives; and addresses whose normal
forms have texts that differ at most in case have one normal form. -/
theorem authorize_matches_addresses (k : Collaborators Id) (ctx : RequestContext) (peer : SocketAddress)
    (arrives : ctx.peer = IpAddress.ofSocket? peer.text)
    (rejected : ∃ e, Id.run (validate k ctx.claims Requirement.unsafeAddress.rule) = .rejected e) :
    (∀ (a : IpAddress) (s : Session) (before after : List Session),
      s.endpoint.toLower = a.normalize.text.toLower →
      let verdict sessions := (Id.run (authorize (k.withSessions sessions) ctx .unsafeAddress)).verdict
      (verdict [s] = .accepted (.trustedSessionAddress s.id) ↔
        peer.address.normalize = a.normalize) ∧
      (peer.address.normalize = a.normalize → verdict before = .rejected .noMatchingSession →
        verdict (before ++ s :: after) = .accepted (.trustedSessionAddress s.id)) ∧
      (peer.address.normalize ≠ a.normalize →
        verdict (before ++ s :: after) = verdict (before ++ after))) ∧
    (∀ a : IpAddress, a.normalize.normalize = a.normalize ∧
      ∀ x, a.normalize = .v6 x → x.mapped? = none) ∧
    (∀ (x : Ipv4) (port port' : UInt16) (scope scope' : UInt32) (r : Requirement),
      let native : SocketAddress := ⟨.v4 x, port, scope⟩
      let mapped : SocketAddress := ⟨.v6 x.mapped, port', scope'⟩
      Id.run (authorize k { ctx with peer := IpAddress.ofSocket? native.text } r) =
        Id.run (authorize k { ctx with peer := IpAddress.ofSocket? mapped.text } r)) ∧
    ∀ a b : IpAddress, a.normalize.text.toLower = b.normalize.text.toLower →
      a.normalize = b.normalize := by
  have known : ctx.peer = some peer.address := by rw [arrives, peer.ofSocket_text]
  refine ⟨fun a s before after recorded => ?_, fun a => ⟨a.normalize_normalize, fun x => ?_⟩,
    fun x port port' scope scope' r => ?_, fun a b => IpAddress.text_toLower_inj.mp⟩
  · simp only [authorize_withSessions _ rejected known]
    refine ⟨⟨fun trusted => ?_, fun same => matchAddress_found [] [] recorded same rfl⟩,
      matchAddress_found before after recorded, matchAddress_skip before after recorded⟩
    by_contra other
    have passed := matchAddress_skip [] [] recorded other
    simp only [List.nil_append] at passed
    rw [passed] at trusted
    cases trusted
  · exact IpAddress.mapped?_of_normalize
  · intro native mapped
    rw [native.ofSocket_text, mapped.ofSocket_text]
    have address : native.address.normalize = mapped.address.normalize :=
      (IpAddress.normalize_mapped x).symm
    exact authorize_congr address r

/-- A guest from abroad. -/
def guestAbroad : SocketAddress := ⟨.v6 ⟨#v[0x2001, 0xdb8, 0, 0, 0, 0, 0, 0xa]⟩, 443, 2⟩

/-- The guest is trusted for the session that has his address in capitals, which stands behind one of an
IPv4 address. -/
theorem authorize_matches_addresses_capitals :
    let k : Collaborators Id := ⟨true, fun _ => true, []⟩
    let ctx : RequestContext := { peer := IpAddress.ofSocket? "[2001:db8::a%2]:443" }
    let near : Session := { id := "near", endpoint := "10.0.0.7" }
    let abroad : Session := { id := "abroad", endpoint := "2001:DB8::A" }
    guestAbroad.text = "[2001:db8::a%2]:443" ∧
    (Id.run (authorize (k.withSessions [near, abroad]) ctx .unsafeAddress)).verdict =
      .accepted (.trustedSessionAddress "abroad") := by
  intro k ctx near abroad
  have text : guestAbroad.text = "[2001:db8::a%2]:443" := by decide +kernel
  obtain ⟨matching, -⟩ := authorize_matches_addresses k ctx guestAbroad
    (congrArg IpAddress.ofSocket? text).symm ⟨.noIdentity, by decide +kernel⟩
  refine ⟨text, ?_⟩
  have ⟨_, _, passed⟩ := matching (.v4 ⟨10, 0, 0, 7⟩) near [] [abroad]
    (sameIgnoringCase_iff.mp (by decide +kernel))
  have ⟨found, _⟩ := matching guestAbroad.address abroad [] []
    (sameIgnoringCase_iff.mp (by decide +kernel))
  have passed := passed (by decide +kernel)
  have found := found.mpr rfl
  simp only [List.nil_append] at passed
  exact passed.trans found

end TunerBroker
