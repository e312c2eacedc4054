import TunerBroker.Address.Printer
import TunerBroker.Address.Reader
import TunerBroker.Proofs.Access.Numerals

/-! The text of an address determines it: what is printed is read back, off the front of a longer text,
as the same address. So no two addresses have one text, and since all texts are lower-case, no two have
texts that differ in case alone. -/

namespace TunerBroker

open Text

namespace Reading

variable {base width bound n : Nat} {zeros : Bool} {rest : List Char}

/-! ### Numerals -/

theorem short_numeral (pos : 0 < base) (small : base ≤ 16) (wide : 0 < width) (fits : n < base ^ width)
    (ends : Ends base rest) : short base width zeros (numeral base width n ++ rest) = some (n, rest) := by
  have some : trimZeros (digits base width n) ≠ [] := trimmed_ne_nil wide
  have few : (trimZeros (digits base width n)).length ≤ width := trimmed_length
  simp only [short, takeDigits_numeral pos small ends, ofDigits_trimmed fits]
  rw [if_neg (by simp [some, few]), if_neg]
  rintro ⟨-, leading, long⟩
  rw [trimZeros_head leading] at long
  exact absurd long (lt_irrefl 1)

theorem below_numeral (wide : 0 < width) (fits : n < 10 ^ width) (least : n < bound)
    (ends : Ends 10 rest) : below bound (numeral 10 width n ++ rest) = some (n, rest) := by
  have some : trimZeros (digits 10 width n) ≠ [] := trimmed_ne_nil wide
  simp only [below, takeDigits_numeral (by decide) (by decide) ends, ofDigits_trimmed fits]
  rw [if_neg (by simp [some, least])]

theorem octet_numeral (o : UInt8) (ends : Ends 10 rest) :
    octet (numeral 10 3 o.toNat ++ rest) = some (o, rest) := by
  have fits : o.toNat < 10 ^ 3 := o.toNat_lt.trans (by decide)
  simp [octet, short_numeral _ _ _ fits ends, o.toNat_lt]

theorem group_numeral (g : UInt16) (ends : Ends 16 rest) :
    group (numeral 16 4 g.toNat ++ rest) = some (g, rest) := by
  have fits : g.toNat < 16 ^ 4 := g.toNat_lt
  simp [group, short_numeral _ _ _ fits ends]

/-! ### Dotted addresses -/

theorem ipv4_text (x : Ipv4) (ends : Ends 10 rest) : ipv4 (x.text ++ rest) = some (x, rest) := by
  have point (tail : List Char) : Ends 10 ('.' :: tail) := by simp [Ends, digitValue?]
  simp [ipv4, Ipv4.text, Ipv4.octets, joinWith, char, octet_numeral, point, ends]

theorem short_rest {cs : List Char} (h : short base width zeros cs = some (n, rest)) :
    (takeDigits base cs).2 = rest := by
  simp only [short] at h
  split_ifs at h
  exact (Prod.mk.inj (Option.some.inj h)).2

theorem group_of_ends (ends : Ends 16 rest) : group rest = none := by
  simp [group, short, takeDigits_of_ends ends]

/-- Without a point behind its first digits no text is a dotted address. -/
theorem ipv4_eq_none {cs : List Char} (h : (takeDigits 10 cs).2.head? ≠ some '.') :
    ipv4 cs = none := by
  cases first : octet cs with
  | none => simp [ipv4, first]
  | some o =>
    obtain ⟨a, rest⟩ := o
    have rest_eq : (takeDigits 10 cs).2 = rest := by
      simp only [octet, Option.bind_eq_bind, Option.bind_eq_some_iff] at first
      obtain ⟨⟨n, rest'⟩, read, small⟩ := first
      split_ifs at small
      obtain ⟨-, rfl⟩ := Prod.mk.inj (Option.some.inj small)
      exact short_rest read
    have noPoint : char '.' rest = none := by
      rw [rest_eq] at h
      cases rest with
      | nil => rfl
      | cons c rest => simpa [char] using h
    simp [ipv4, first, noPoint]

theorem ipv4_of_ends (ends : Ends 10 rest) (point : rest.head? ≠ some '.') : ipv4 rest = none :=
  ipv4_eq_none (by rwa [takeDigits_of_ends ends])

/-! ### Groups of an address in hexadecimal -/

/-- Reading groups stops here: there is no colon with a group or a dotted address behind it. -/
structure Stops (rest : List Char) : Prop where
  ends : Ends 16 rest
  point : rest.head? ≠ some '.'
  dotted : separated false ipv4 rest = none
  group : separated false group rest = none

section Groups
variable {limit : Nat} {cs : List Char} {x : Ipv4} {g : UInt16} (first : Bool)

@[simp] theorem separated_colon {α : Type} (item : Reading α) (cs : List Char) :
    separated false item (':' :: cs) = item cs := rfl

theorem groups_of_ipv4 (dotted : separated first ipv4 cs = some (x, rest)) :
    groups (limit + 2) first cs = ([x.groups.1, x.groups.2], true, rest) := by
  simp [groups, dotted]

theorem groups_of_group (noDotted : separated first ipv4 cs = none)
    (plain : separated first group cs = some (g, rest)) :
    groups (limit + 1) first cs = (g :: (groups limit false rest).1, (groups limit false rest).2) := by
  simp [groups, noDotted, plain]

theorem groups_of_none (noDotted : separated first ipv4 cs = none)
    (noPlain : separated first group cs = none) : groups limit first cs = ([], false, cs) := by
  cases limit with
  | zero => rfl
  | succ limit => simp [groups, noDotted, noPlain]

end Groups

/-- A group is no beginning of a dotted address. -/
theorem ipv4_numeral (g : UInt16) (ends : Ends 16 rest) (point : rest.head? ≠ some '.') :
    ipv4 (numeral 16 4 g.toNat ++ rest) = none := by
  refine ipv4_eq_none ?_
  have noPoint : ∀ c ∈ numeral 16 4 g.toNat, c ≠ '.' := by
    rintro _ h rfl
    exact absurd (mem_numeral (by decide) (by decide) h).1 (by decide)
  generalize numeral 16 4 g.toNat = t at noPoint
  induction t with
  | nil => simpa [takeDigits_of_ends ends.decimal] using point
  | cons c t ih =>
    obtain ⟨hc, ht⟩ := List.forall_mem_cons.mp noPoint
    simp only [List.cons_append, takeDigits]
    split
    · exact ih ht
    · simpa using hc

/-- Groups with a colon before each. -/
def trailing (gs : List UInt16) : List Char := gs.flatMap fun g => ':' :: numeral 16 4 g.toNat

theorem trailing_ends (gs : List UInt16) (stops : Stops rest) :
    Ends 16 (trailing gs ++ rest) ∧ (trailing gs ++ rest).head? ≠ some '.' := by
  cases gs with
  | nil => exact ⟨stops.ends, stops.point⟩
  | cons g gs => simp [trailing, Ends, digitValue?]

theorem groups_trailing (gs : List UInt16) (limit : Nat) (few : gs.length ≤ limit) (stops : Stops rest) :
    groups limit false (trailing gs ++ rest) = (gs, false, rest) := by
  induction gs generalizing limit with
  | nil => exact groups_of_none false stops.dotted stops.group
  | cons g gs ih =>
    obtain ⟨limit, rfl⟩ : ∃ l, limit = l + 1 := ⟨limit - 1, by simp at few; omega⟩
    obtain ⟨ends, point⟩ := trailing_ends gs stops
    have split : trailing (g :: gs) ++ rest = ':' :: (numeral 16 4 g.toNat ++ (trailing gs ++ rest)) := by
      simp [trailing]
    have noDotted := ipv4_numeral g ends point
    have plain := group_numeral g ends
    rw [split, groups_of_group false (by simpa using noDotted) (by simpa using plain),
      ih limit (by simpa using few)]

theorem joinGroups_cons (g : UInt16) (gs : List UInt16) :
    Ipv6.joinGroups (g :: gs) = numeral 16 4 g.toNat ++ trailing gs := by
  induction gs generalizing g with
  | nil => simp [Ipv6.joinGroups, joinWith, trailing]
  | cons h gs ih =>
    have := ih h
    simp only [Ipv6.joinGroups, List.map_cons, joinWith] at this ⊢
    rw [this]
    simp [trailing]

theorem groups_joinGroups (gs : List UInt16) (limit : Nat) (few : gs.length ≤ limit)
    (stops : Stops rest) : groups limit true (Ipv6.joinGroups gs ++ rest) = (gs, false, rest) := by
  cases gs with
  | nil =>
    exact groups_of_none true (ipv4_of_ends stops.ends.decimal stops.point)
      (group_of_ends stops.ends)
  | cons g gs =>
    obtain ⟨limit, rfl⟩ : ∃ l, limit = l + 1 := ⟨limit - 1, by simp at few; omega⟩
    obtain ⟨ends, point⟩ := trailing_ends gs stops
    rw [joinGroups_cons, List.append_assoc,
      groups_of_group true (ipv4_numeral g ends point) (group_numeral g ends),
      groups_trailing gs limit (by simpa using few) stops]

theorem stops_nil : Stops [] := ⟨ends_nil, nofun, rfl, rfl⟩

theorem stops_cons {c : Char} (digit : digitValue? 16 c = none) (point : c ≠ '.') (colon : c ≠ ':') :
    Stops (c :: rest) where
  ends := by simp [Ends, digit]
  point := by simpa using point
  dotted := by simp [separated, char, colon]
  group := by simp [separated, char, colon]

theorem stops_colons (rest : List Char) : Stops (':' :: ':' :: rest) := by
  have ends : Ends 16 (':' :: rest) := by simp [Ends, digitValue?]
  have noDotted : ipv4 (':' :: rest) = none := ipv4_of_ends ends.decimal (by simp)
  exact {
    ends := by simp [Ends, digitValue?]
    point := by simp
    dotted := by simp [noDotted]
    group := by simp [group_of_ends ends] }

/-- Groups on both sides of two colons are an address with zeros between them. -/
theorem ipv6_of_colons {cs behind : List Char} {head tail : List UInt16} {dotted : Bool} {x : Ipv6}
    (readHead : groups 8 true cs = (head, false, ':' :: ':' :: behind))
    (readTail : groups (7 - head.length) true behind = (tail, dotted, rest))
    (all : x.groups.toList = head ++ List.replicate (8 - head.length - tail.length) 0 ++ tail)
    (few : head.length ≠ 8) : ipv6 cs = some (x, rest) := by
  have size : head.length + (8 - head.length - tail.length + tail.length) = 8 := by
    simpa using (congrArg List.length all).symm
  obtain ⟨⟨⟨groups⟩, _⟩⟩ := x
  obtain rfl : groups = _ := all
  simp only [ipv6, readHead, few, dite_false, char, if_true]
  simp [readTail, size]

end Reading

/-! ### The run of zeros left out -/

namespace Ipv6

open Reading

variable {gs : List UInt16} {rest : List Char}

/-- At each place there are as many zeros as noted. -/
theorem zeroRuns_spec {i n : Nat} (h : (zeroRuns gs)[i]? = some n) :
    gs.drop i = List.replicate n 0 ++ gs.drop (i + n) := by
  induction gs generalizing i n with
  | nil => cases h
  | cons g gs ih =>
    cases i with
    | succ i => simpa [Nat.add_right_comm] using ih (by simpa [zeroRuns] using h)
    | zero =>
      obtain rfl : (if g = 0 then (zeroRuns gs).headD 0 + 1 else 0) = n := by simpa [zeroRuns] using h
      split
      case isFalse => simp
      case isTrue zero =>
        subst zero
        cases runs : (zeroRuns gs) with
        | nil => simp
        | cons m ms =>
          have := ih (i := 0) (n := m) (by simp [runs])
          simp only [List.drop_zero, Nat.zero_add] at this
          simp [List.replicate_succ, ← this]

theorem foldl_max_mem (l : List Nat) (a : Nat) : l.foldl max a = a ∨ l.foldl max a ∈ l := by
  induction l generalizing a with
  | nil => exact .inl rfl
  | cons b l ih =>
    rcases ih (max a b) with h | h
    · rw [List.foldl_cons, h]
      exact (max_choice a b).imp_right fun larger => by simp [larger]
    · exact .inr (List.mem_cons_of_mem _ h)

/-- The text of groups: all of them, or what is before and behind a run of zeros. -/
theorem compress_cases (gs : List UInt16) : compress gs = joinGroups gs ∨
    ∃ head len tail, 2 ≤ len ∧ gs = head ++ List.replicate len 0 ++ tail ∧
      compress gs = joinGroups head ++ [':', ':'] ++ joinGroups tail := by
  simp only [compress]
  generalize longest : (zeroRuns gs).foldl max 0 = len
  split
  case isFalse => exact .inl rfl
  case isTrue long =>
    have found : len ∈ zeroRuns gs := by
      rcases foldl_max_mem (zeroRuns gs) 0 with h | h
      · omega
      · rwa [longest] at h
    have lt := List.findIdx_lt_length_of_exists (p := (decide <| · = len)) ⟨len, found, by simp⟩
    have at_start := List.findIdx_getElem (w := lt)
    refine .inr ⟨_, len, _, long, ?_, rfl⟩
    rw [List.append_assoc, ← zeroRuns_spec, List.take_append_drop]
    rw [List.getElem?_eq_getElem lt]
    simpa using at_start

/-- An address is read back from its text. -/
theorem ipv6_text (x : Ipv6) (stops : Stops rest) : ipv6 (x.text ++ rest) = some (x, rest) := by
  obtain ⟨⟨⟨gs⟩, size⟩⟩ := x
  replace size : gs.length = 8 := size
  rcases compress_cases gs with all | ⟨head, len, tail, long, rfl, short⟩
  · simp [text, all, ipv6, groups_joinGroups gs 8 size.le stops, size]
  · simp only [List.length_append, List.length_replicate] at size
    have readHead := groups_joinGroups head 8 (by omega) (stops_colons (joinGroups tail ++ rest))
    have readTail := groups_joinGroups tail (7 - head.length) (by omega) stops
    have text_eq : compress (head ++ List.replicate len 0 ++ tail) ++ rest =
        joinGroups head ++ ':' :: ':' :: (joinGroups tail ++ rest) := by
      rw [short]
      simp
    obtain rfl : len = 8 - head.length - tail.length := by omega
    rw [text, Vector.toList_mk, text_eq]
    exact ipv6_of_colons readHead readTail rfl (by omega)

end Ipv6

/-! ### Texts are lower-case and distinct -/

theorem mem_joinWith {sep c : Char} {ts : List (List Char)} (h : c ∈ joinWith sep ts) :
    c = sep ∨ ∃ t ∈ ts, c ∈ t := by
  fun_induction joinWith sep ts with
  | case1 => cases h
  | case2 t => exact .inr ⟨t, by simp, h⟩
  | case3 t ts _ ih =>
    rcases List.mem_append.mp h with h | h
    · exact .inr ⟨t, by simp, h⟩
    rcases List.mem_cons.mp h with rfl | h
    · exact .inl rfl
    · exact (ih h).imp_right fun ⟨t, ht, hc⟩ => ⟨t, by simp [ht], hc⟩

/-- What the texts of addresses are made of. -/
def IsDigitOr (base : Nat) (sep c : Char) : Prop :=
  c = sep ∨ (digitValue? base c).isSome ∧ c.toLower = c

theorem Ipv4.mem_text {x : Ipv4} {c : Char} (h : c ∈ x.text) : IsDigitOr 10 '.' c := by
  refine (mem_joinWith h).imp_right ?_
  rintro ⟨t, ht, hc⟩
  obtain ⟨o, -, rfl⟩ := List.mem_map.mp ht
  exact mem_numeral (by decide) (by decide) hc

theorem Ipv6.mem_joinGroups {gs : List UInt16} {c : Char} (h : c ∈ joinGroups gs) :
    IsDigitOr 16 ':' c := by
  refine (mem_joinWith h).imp_right ?_
  rintro ⟨t, ht, hc⟩
  obtain ⟨g, -, rfl⟩ := List.mem_map.mp ht
  exact mem_numeral (by decide) (by decide) hc

theorem Ipv6.mem_text {x : Ipv6} {c : Char} (h : c ∈ x.text) : IsDigitOr 16 ':' c := by
  rcases compress_cases x.groups.toList with all | ⟨head, len, tail, -, -, short⟩
  · rw [text, all] at h
    exact mem_joinGroups h
  · rw [text, short] at h
    simp only [List.mem_append, List.mem_cons, List.not_mem_nil, or_false, or_self] at h
    rcases h with (h | h) | h
    · exact mem_joinGroups h
    · exact .inl h
    · exact mem_joinGroups h

namespace IpAddress

variable {a b : IpAddress}

/-- No letter in the text of an address is a capital. -/
theorem text_toLower (a : IpAddress) : a.text.toLower = a.text := by
  have lower : ∀ c ∈ a.chars, c.toLower = c := by
    intro c hc
    cases a with
    | v4 x => exact (Ipv4.mem_text hc).elim (by rintro rfl; rfl) And.right
    | v6 x => exact (Ipv6.mem_text hc).elim (by rintro rfl; rfl) And.right
  have map_eq : a.text.toLower = a.text.map Char.toLower := rfl
  rw [map_eq, ← String.toList_inj]
  simpa [text] using (List.map_congr_left lower).trans (List.map_id _)

/-- Only dotted addresses have points in them. -/
theorem point_mem_chars : '.' ∈ a.chars ↔ a.isV4 = true := by
  cases a with
  | v4 x => simp [chars, isV4, Ipv4.text, Ipv4.octets, joinWith]
  | v6 x =>
    refine iff_of_false (fun h => ?_) (by simp [isV4])
    rcases Ipv6.mem_text h with h | ⟨h, -⟩ <;> exact absurd h (by decide)

theorem chars_injective (h : a.chars = b.chars) : a = b := by
  have family : a.isV4 = b.isV4 := by
    rw [Bool.eq_iff_iff, ← point_mem_chars, ← point_mem_chars, h]
  cases a with
  | v4 x =>
    cases b with
    | v6 y => cases family
    | v4 y =>
      have readX := Reading.ipv4_text x ends_nil
      rw [show x.text = y.text from h, Reading.ipv4_text y ends_nil] at readX
      rw [(Prod.mk.inj (Option.some.inj readX)).1]
  | v6 x =>
    cases b with
    | v4 y => cases family
    | v6 y =>
      have readX := Ipv6.ipv6_text x Reading.stops_nil
      rw [show x.text = y.text from h, Ipv6.ipv6_text y Reading.stops_nil] at readX
      rw [(Prod.mk.inj (Option.some.inj readX)).1]

/-- Addresses with texts that differ at most in case are equal. -/
theorem text_toLower_inj : a.text.toLower = b.text.toLower ↔ a = b := by
  refine ⟨fun h => ?_, by rintro rfl; rfl⟩
  rw [text_toLower, text_toLower] at h
  exact chars_injective (String.ofList_injective h)

end IpAddress

/-! ### Addresses within addresses -/

/-- The IPv6 address that holds an IPv4 one. -/
def Ipv4.mapped (x : Ipv4) : Ipv6 := ⟨#v[0, 0, 0, 0, 0, 0xffff, x.groups.1, x.groups.2]⟩

theorem Ipv4.ofGroups_groups (x : Ipv4) : Ipv4.ofGroups x.groups.1 x.groups.2 = x := by
  have high (a b : UInt8) : ((a.toUInt16 * 256 + b.toUInt16) / 256).toUInt8 = a := by
    apply UInt8.toNat_inj.mp
    simp
    have := a.toNat_lt
    have := b.toNat_lt
    omega
  have low (a b : UInt8) : (a.toUInt16 * 256 + b.toUInt16).toUInt8 = b := by
    apply UInt8.toNat_inj.mp
    simp
  simp [Ipv4.groups, Ipv4.ofGroups, high, low]

theorem Ipv4.groups_ofGroups (hi lo : UInt16) : (Ipv4.ofGroups hi lo).groups = (hi, lo) := by
  have joined (g : UInt16) : (g / 256).toUInt8.toUInt16 * 256 + g.toUInt8.toUInt16 = g := by
    apply UInt16.toNat_inj.mp
    simp
    have := g.toNat_lt
    omega
  simp only [Ipv4.groups, Ipv4.ofGroups, joined]

theorem Ipv6.mapped?_eq_some {x : Ipv6} {y : Ipv4} : x.mapped? = some y ↔ x = y.mapped := by
  constructor
  · intro h
    simp only [mapped?] at h
    split_ifs at h with zeros
    obtain rfl := Option.some.inj h
    obtain ⟨groups⟩ := x
    congr 1
    ext i hi
    simp only [Ipv4.groups_ofGroups]
    interval_cases i <;> simp_all
  · rintro rfl
    simp [mapped?, Ipv4.mapped, Ipv4.ofGroups_groups]

/-! ### Socket addresses -/

/-- The remote end of a connection. -/
structure SocketAddress where
  address : IpAddress
  port : UInt16
  /-- The zone of an IPv6 address, zero for none. -/
  scope : UInt32 := 0

/-- An IPv6 address as it stands in a socket address: one that holds an IPv4 address shows it. -/
def Ipv6.socketChars (x : Ipv6) : List Char :=
  match x.mapped? with
  | some y => "::ffff:".toList ++ y.text
  | none => x.text

namespace SocketAddress

/-- A colon and the port. -/
def portChars (s : SocketAddress) : List Char := ':' :: numeral 10 5 s.port.toNat

/-- A percent sign and the zone, if there is one. -/
def scopeChars (s : SocketAddress) : List Char :=
  if s.scope = 0 then [] else '%' :: numeral 10 10 s.scope.toNat

/-- The text of a socket address. -/
def text (s : SocketAddress) : String :=
  match s.address with
  | .v4 x => String.ofList (x.text ++ s.portChars)
  | .v6 x => String.ofList ('[' :: (x.socketChars ++ (s.scopeChars ++ ']' :: s.portChars)))

end SocketAddress

namespace Reading

variable {rest : List Char}

theorem ipv6_socketChars (x : Ipv6) (stops : Stops rest) :
    ipv6 (x.socketChars ++ rest) = some (x, rest) := by
  cases inner : x.mapped? with
  | none => simpa [Ipv6.socketChars, inner] using Ipv6.ipv6_text x stops
  | some y =>
    obtain rfl := Ipv6.mapped?_eq_some.mp inner
    have dotted := ipv4_text y stops.ends.decimal
    have colon : Ends 16 (':' :: (y.text ++ rest)) := by simp [Ends, digitValue?]
    have mark := group_numeral 0xffff colon
    have noMark := ipv4_numeral 0xffff colon (by simp)
    have head := groups_joinGroups [] 8 (by simp)
      (stops_colons (numeral 16 4 (0xffff : UInt16).toNat ++ ':' :: (y.text ++ rest)))
    have tail : groups 7 true (numeral 16 4 (0xffff : UInt16).toNat ++ ':' :: (y.text ++ rest)) =
        ([0xffff, y.groups.1, y.groups.2], true, rest) := by
      rw [groups_of_group true noMark mark, groups_of_ipv4 false (by simpa using dotted)]
    have text_eq : y.mapped.socketChars ++ rest = Ipv6.joinGroups [] ++
        ':' :: ':' :: (numeral 16 4 (0xffff : UInt16).toNat ++ ':' :: (y.text ++ rest)) := by
      simp only [Ipv6.socketChars, inner]
      rfl
    rw [text_eq]
    exact ipv6_of_colons head tail rfl (by simp)

theorem port_portChars (s : SocketAddress) : port s.portChars = some (s.port.toNat, []) := by
  have fits : s.port.toNat < 65536 := s.port.toNat_lt
  have : below 65536 (numeral 10 5 s.port.toNat ++ []) = some (s.port.toNat, []) :=
    below_numeral (by decide) (fits.trans (by decide)) fits ends_nil
  simpa [port, SocketAddress.portChars, char] using this

theorem scope_scopeChars (s : SocketAddress) (rest : List Char) :
    scope (s.scopeChars ++ ']' :: rest) = ']' :: rest := by
  have ends : Ends 10 (']' :: rest) := by simp [Ends, digitValue?]
  have fits : s.scope.toNat < 4294967296 := s.scope.toNat_lt
  have : below 4294967296 (numeral 10 10 s.scope.toNat ++ ']' :: rest) =
      some (s.scope.toNat, ']' :: rest) :=
    below_numeral (by decide) (fits.trans (by decide)) fits ends
  by_cases none : s.scope = 0
  · simp [SocketAddress.scopeChars, none, scope, char]
  · simp [SocketAddress.scopeChars, none, scope, char, this]

end Reading

/-- A socket address is read back from its text, whatever its port and its zone. -/
theorem SocketAddress.ofSocket_text (s : SocketAddress) :
    IpAddress.ofSocket? s.text = some s.address := by
  have port := Reading.port_portChars s
  have portEnds : Ends 10 s.portChars := by simp [Ends, portChars, digitValue?]
  cases address : s.address with
  | v4 x =>
    have dotted := Reading.ipv4_text x portEnds
    simp [IpAddress.ofSocket?, text, address, Reading.whole, Reading.socketV4, dotted, port]
  | v6 x =>
    have stops : Reading.Stops (s.scopeChars ++ ']' :: s.portChars) := by
      by_cases none : s.scope = 0
      · simpa [scopeChars, none] using Reading.stops_cons (by decide) (by decide) (by decide)
      · simpa [scopeChars, none] using Reading.stops_cons (by decide) (by decide) (by decide)
    have bracket (cs : List Char) : Reading.ipv4 ('[' :: cs) = none :=
      Reading.ipv4_of_ends (by simp [Ends, digitValue?]) (by simp)
    have groups := Reading.ipv6_socketChars x stops
    simp [IpAddress.ofSocket?, text, address, Reading.whole, Reading.socketV4, Reading.socketV6, bracket,
      Reading.char, groups, Reading.scope_scopeChars, port]

end TunerBroker
