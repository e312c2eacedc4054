/-! Network addresses of both families. An IPv4 address may arrive wrapped in an IPv6 one;
unwrapping gives each caller one form. -/

namespace TunerBroker

structure Ipv4 where
  a : UInt8
  b : UInt8
  c : UInt8
  d : UInt8
  deriving DecidableEq

structure Ipv6 where
  groups : Vector UInt16 8
  deriving DecidableEq

inductive IpAddress where
  | v4 (address : Ipv4)
  | v6 (address : Ipv6)
  deriving DecidableEq

namespace Ipv4

/-- The two groups that hold the address at the end of an IPv6 one. -/
def groups (x : Ipv4) : UInt16 × UInt16 :=
  (x.a.toUInt16 * 256 + x.b.toUInt16, x.c.toUInt16 * 256 + x.d.toUInt16)

def ofGroups (hi lo : UInt16) : Ipv4 :=
  ⟨(hi / 256).toUInt8, hi.toUInt8, (lo / 256).toUInt8, lo.toUInt8⟩

end Ipv4

namespace Ipv6

/-- The IPv4 address behind `::ffff:0:0/96`. -/
def mapped? (x : Ipv6) : Option Ipv4 :=
  if x.groups[0] = 0 ∧ x.groups[1] = 0 ∧ x.groups[2] = 0 ∧ x.groups[3] = 0 ∧ x.groups[4] = 0 ∧
      x.groups[5] = 0xffff then
    some (Ipv4.ofGroups x.groups[6] x.groups[7])
  else none

end Ipv6

namespace IpAddress

/-- A mapped address becomes the IPv4 address it holds; any other stays. -/
def normalize : IpAddress → IpAddress
  | .v4 x => .v4 x
  | .v6 x =>
    match x.mapped? with
    | some y => .v4 y
    | none => .v6 x

def isV4 : IpAddress → Bool
  | .v4 _ => true
  | .v6 _ => false

end IpAddress

end TunerBroker
