import Mathlib.Data.Vector.Basic

/-!
# GameNet.HostSource

IP addresses as the standard library has them, and the `HostSource` an address is counted under
by the relay's admission limits: an IPv4 address, or the first 64 bits of an IPv6 address. An
IPv4-mapped IPv6 address counts as the IPv4 address it maps.
-/

namespace GameNet

structure Ipv4Addr where
  octets : List.Vector UInt8 4
deriving DecidableEq

structure Ipv6Addr where
  octets : List.Vector UInt8 16
deriving DecidableEq

inductive IpAddr where
  | v4 (ip : Ipv4Addr)
  | v6 (ip : Ipv6Addr)
deriving DecidableEq

/-- `Ipv6Addr::to_ipv4_mapped`: addresses `::ffff:a.b.c.d`. -/
def Ipv6Addr.toIpv4Mapped (ip : Ipv6Addr) : Option Ipv4Addr :=
  if ip.octets.toList.take 12 = [0, 0, 0, 0, 0, 0, 0, 0, 0, 0, 0xff, 0xff] then
    some ⟨ip.octets.drop 12⟩
  else none

/-! ## Display -/

def Ipv4Addr.toText (ip : Ipv4Addr) : String :=
  String.intercalate "." (ip.octets.toList.map fun octet => toString octet.toNat)

def Ipv6Addr.segments (ip : Ipv6Addr) : List Nat :=
  (List.range 8).map fun i =>
    (ip.octets.toList.getD (2 * i) 0).toNat * 256 + (ip.octets.toList.getD (2 * i + 1) 0).toNat

/-- Start and length of the first longest run of zero segments; `current` is the run that ends
just before index `i`. -/
def longestZeroes : Nat → Nat × Nat → Nat × Nat → List Nat → Nat × Nat
  | _, _, longest, [] => longest
  | i, current, longest, segment :: rest =>
    if segment = 0 then
      let current := if current.2 = 0 then (i, 1) else (current.1, current.2 + 1)
      longestZeroes (i + 1) current (if longest.2 < current.2 then current else longest) rest
    else longestZeroes (i + 1) (0, 0) longest rest

def hexSegments (segments : List Nat) : String :=
  String.intercalate ":" (segments.map fun segment => String.ofList (Nat.toDigits 16 segment))

def Ipv6Addr.toText (ip : Ipv6Addr) : String :=
  match ip.toIpv4Mapped with
  | some mapped => "::ffff:" ++ mapped.toText
  | none =>
    let zeroes := longestZeroes 0 (0, 0) (0, 0) ip.segments
    if 1 < zeroes.2 then
      hexSegments (ip.segments.take zeroes.1) ++ "::" ++
        hexSegments (ip.segments.drop (zeroes.1 + zeroes.2))
    else hexSegments ip.segments

def IpAddr.toText : IpAddr → String
  | .v4 ip => ip.toText
  | .v6 ip => ip.toText

/-! ## Host sources -/

inductive HostSource where
  | v4 (ip : Ipv4Addr)
  | v6 (network : List.Vector UInt8 8)
deriving DecidableEq

/-- `HostSource::from` -/
def HostSource.ofIp : IpAddr → HostSource
  | .v4 ip => .v4 ip
  | .v6 ip =>
    match ip.toIpv4Mapped with
    | some mapped => .v4 mapped
    | none => .v6 (ip.octets.take 8)

end GameNet
