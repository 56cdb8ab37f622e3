import VpnCore.Lib.Block
import VpnCore.Lib.Ordered
import VpnCore.Lib.Runs
import VpnCore.Route.Cidr

/-!
# VpnCore.Route.NetworkSpace — `NetworkSpace`

The set of included and excluded networks from which the routes of the VPN interface are
computed.  `generateIPList` cuts the networks into pieces that do not overlap, in one sweep over a
priority queue.  `VPNLog.log` is false, so that the assertions of the source are not evaluated.
-/

namespace VpnCore.Route

open VpnCore.Lib VpnCore.Config

/-- The bytes of an `Inet6Address`. -/
abbrev Inet6Address := Vector UInt8 16

/-- A network, included or excluded. -/
structure IpAddress where
  netAddress : ℤ
  networkMask : ℤ
  included : Bool
  isV4 : Bool
  deriving DecidableEq, Repr

namespace IpAddress

/-- The constructor from a `CIDRIP`. -/
def ofCIDRIP (ip : CIDRIP) (included : Bool) : Except Thrown IpAddress := do
  return ⟨← ip.getInt, ip.len, included, true⟩

/-- The constructor from an `Inet6Address`; `isV4` keeps its default. -/
def ofInet6Address (address : Inet6Address) (mask : ℤ) (included : Bool) : IpAddress where
  netAddress := (address.toList.zipIdx.map fun (b, i) => (b.toNat : ℤ) * 2 ^ (120 - 8 * i)).sum
  networkMask := mask
  included := included
  isV4 := false

/-- The number of bits that `getMaskedAddress` changes. -/
def numBits (n : IpAddress) : ℕ := ((if n.isV4 then 32 else 128) - n.networkMask).toNat

def getMaskedAddress (n : IpAddress) (one : Bool) : ℤ :=
  (List.range n.numBits).foldl (if one then setBit else clearBit) n.netAddress

def getFirstAddress (n : IpAddress) : ℤ := n.getMaskedAddress false

def getLastAddress (n : IpAddress) : ℤ := n.getMaskedAddress true

/-- By the first address; of two networks with the same one the smaller comes first. -/
def compareTo (n another : IpAddress) : Ordering :=
  if n.getFirstAddress < another.getFirstAddress then .lt
  else if n.getFirstAddress > another.getFirstAddress then .gt
  else if n.networkMask > another.networkMask then .lt
  else if another.networkMask = n.networkMask then .eq
  else .gt

/-- `equals` ignores `included`. -/
def equals (n on : IpAddress) : Bool :=
  n.networkMask == on.networkMask && on.getFirstAddress == n.getFirstAddress

/-- The two halves. -/
def split (n : IpAddress) : IpAddress × IpAddress :=
  let firstHalf : IpAddress := ⟨n.getFirstAddress, n.networkMask + 1, n.included, n.isV4⟩
  let secondHalf : IpAddress :=
    ⟨firstHalf.getLastAddress + 1, n.networkMask + 1, n.included, n.isV4⟩
  (firstHalf, secondHalf)

def containsNet (n network : IpAddress) : Bool :=
  n.getFirstAddress ≤ network.getFirstAddress && network.getLastAddress ≤ n.getLastAddress

/-- `netAddress.longValue()`, printed part by part; `%` has the sign of the dividend. -/
def getIPv4Address (n : IpAddress) : Text :=
  let ip := wrap 64 n.netAddress
  dotted ((ip / 2 ^ 24).tmod 256) ((ip / 2 ^ 16).tmod 256) ((ip / 2 ^ 8).tmod 256) (ip.tmod 256)

/-- The loop of `getIPv6Address`: `r` loses 16 bits a round, `none` is the text not yet set. -/
def ipv6Parts : ℕ → ℤ → Option Text → Bool → Option Text
  | 0, _, ipv6str, _ => ipv6str
  | fuel + 1, r, ipv6str, lastPart =>
    if r ≤ 0 then ipv6str
    else
      let part := r % 0x10000
      let ipv6str :=
        if ipv6str.isSome || part ≠ 0 then
          let tail := if ipv6str.isNone && !lastPart then [':'] else ipv6str.getD []
          some (if lastPart then hexadecimal part else hexadecimal part ++ ':' :: tail)
        else ipv6str
      ipv6Parts fuel (r / 2 ^ 16) ipv6str false

def getIPv6Address (n : IpAddress) : Text :=
  (ipv6Parts (n.netAddress.natAbs.size + 1) n.netAddress none true).getD "::".toList

/-- `toString` -/
def text (n : IpAddress) : Text :=
  (if n.isV4 then n.getIPv4Address else n.getIPv6Address) ++ '/' :: decimal n.networkMask

end IpAddress

/-! ## The set of networks -/

/-- The set of networks. -/
structure NetworkSpace where
  mIpAddresses : List IpAddress := []
  deriving DecidableEq, Repr

namespace NetworkSpace

def getNetworks (s : NetworkSpace) (included : Bool) : List IpAddress :=
  s.mIpAddresses.filter fun ip => ip.included == included

def add (s : NetworkSpace) (ip : IpAddress) : NetworkSpace :=
  ⟨treeAdd IpAddress.compareTo s.mIpAddresses ip⟩

def addIP (s : NetworkSpace) (cidrIp : CIDRIP) (included : Bool) : Except Thrown NetworkSpace := do
  return s.add (← IpAddress.ofCIDRIP cidrIp included)

def addIPSplit (s : NetworkSpace) (cidrIp : CIDRIP) (included : Bool) :
    Except Thrown NetworkSpace := do
  let splitIps := (← IpAddress.ofCIDRIP cidrIp included).split
  return (s.add splitIps.1).add splitIps.2

def addIPv6 (s : NetworkSpace) (address : Inet6Address) (mask : ℤ) (included : Bool) :
    NetworkSpace :=
  s.add (IpAddress.ofInet6Address address mask included)

end NetworkSpace

/-! ## The sweep -/

/-- The variables of the loop of `generateIPList`. -/
structure Sweep where
  networks : List IpAddress
  ipsDone : List IpAddress := []
  currentNet : Option IpAddress
  deriving DecidableEq, Repr

namespace Sweep

/-- `if (!networks.contains(n)) networks.add(n)` -/
def offerNew (networks : List IpAddress) (n : IpAddress) : List IpAddress :=
  if networks.any n.equals then networks else networks ++ [n]

/-- The queue after `nextNet`, which contains `currentNet` and differs in kind, was split. -/
def splitNext (currentNet nextNet : IpAddress) (networks : List IpAddress) : List IpAddress :=
  let newNets := nextNet.split
  let networks := offerNew networks newNets.2
  if newNets.1.getLastAddress = currentNet.getLastAddress then networks
  else offerNew networks newNets.1

/-- The queue after `currentNet`, which contains `nextNet` and differs in kind, was split. -/
def splitCurrent (currentNet nextNet : IpAddress) (networks : List IpAddress) : List IpAddress :=
  let newNets := currentNet.split
  if newNets.2.networkMask = nextNet.networkMask then networks ++ [nextNet]
  else networks ++ [newNets.2] ++ [nextNet]

/-- The body of the loop once `nextNet` was taken from the queue. -/
def merge (ipsDone : List IpAddress) (currentNet nextNet : IpAddress)
    (networks : List IpAddress) : Sweep :=
  if currentNet.getLastAddress < nextNet.getFirstAddress then
    -- no overlap
    ⟨networks, treeAdd IpAddress.compareTo ipsDone currentNet, some nextNet⟩
  else if currentNet.getFirstAddress = nextNet.getFirstAddress ∧
      currentNet.networkMask ≥ nextNet.networkMask then
    if currentNet.included = nextNet.included then
      -- forget the current network
      ⟨networks, ipsDone, some nextNet⟩
    else ⟨splitNext currentNet nextNet networks, ipsDone, some currentNet⟩
  else if currentNet.included = nextNet.included then
    -- ignore the next network
    ⟨networks, ipsDone, some currentNet⟩
  else ⟨splitCurrent currentNet nextNet networks, ipsDone, some currentNet.split.1⟩

/-- One round of the loop.  `t` decides which of several least networks the queue returns. -/
def step (s : Sweep) (t : ℕ) : Sweep :=
  match s.currentNet with
  | none => s
  | some currentNet =>
    match poll IpAddress.compareTo t s.networks with
    | none => ⟨s.networks, treeAdd IpAddress.compareTo s.ipsDone currentNet, none⟩
    | some (nextNet, networks) => merge s.ipsDone currentNet nextNet networks

/-- The variables before the loop. -/
def start (t : ℕ) (mIpAddresses : List IpAddress) : Sweep :=
  match poll IpAddress.compareTo t mIpAddresses with
  | none => ⟨mIpAddresses, [], none⟩
  | some (currentNet, networks) => ⟨networks, [], some currentNet⟩

end Sweep

namespace NetworkSpace

/-- `generateIPList`, run for as many rounds as there are choices in `ts`; `none` when the loop has
not ended by then. -/
def generateIPList (s : NetworkSpace) (t : ℕ) (ts : List ℕ) : Option (List IpAddress) :=
  let sweep := run Sweep.step (Sweep.start t s.mIpAddresses) ts
  match sweep.currentNet with
  | none => some sweep.ipsDone
  | some _ => none

/-- `getPositiveIPList`: below Android 4.4 (API level 19) also the included networks of the set that
are no network of the result and contain no excluded one of it. -/
def getPositiveIPList (s : NetworkSpace) (sdk : ℕ) (t : ℕ) (ts : List ℕ) :
    Option (List IpAddress) := do
  let ipsSorted ← s.generateIPList t ts
  let ips := ipsSorted.filter fun ia => ia.included
  if sdk < 19 then
    return ips ++ s.mIpAddresses.filter fun origIp =>
      origIp.included && !(ipsSorted.any fun ip => origIp.compareTo ip == .eq) &&
        !(ipsSorted.any fun calculatedIp => !calculatedIp.included && origIp.containsNet calculatedIp)
  else return ips

end NetworkSpace

end VpnCore.Route
