import VpnCore.Config.Strings
import VpnCore.Ranges.Subnets

/-!
# VpnCore.Ranges.SplitTunnel — the routes of an IKEv2 connection

`BuilderCache` collects the addresses and routes that the daemon announces, and `applyData` hands a
`VpnService.Builder` the routes of each address family that was seen: everything if the
family is to be blocked outside the tunnel, otherwise the subnets of the profile (or the announced
routes, if the profile has none) without the excluded ones.

A subnet reaches the builder as an `InetAddress`, and `InetAddress.getByAddress` makes an IPv4 address of
the sixteen bytes of an IPv4-mapped one.  No address that the code parses is of this kind, but the subnets left
over by the exclusions may be.  `splitTunnel_iff` says when this happens.
-/

namespace VpnCore.Ranges

open VpnCore.Lib VpnCore.Config

/-! ## Addresses of the platform -/

inductive Family
  | inet
  | inet6
  deriving DecidableEq

/-- The number of bytes of an address. -/
def Family.length : Family → ℕ
  | .inet => 4
  | .inet6 => 16

/-- The first twelve bytes of an IPv4-mapped address. -/
def mappedStart : Bytes := [0, 0, 0, 0, 0, 0, 0, 0, 0, 0, 0xff, 0xff]

/-- `::ffff:0:0/96`, which embeds the IPv4 addresses. -/
def isIPv4Mapped (a : Bytes) : Bool := a.length == 16 && a.take 12 == mappedStart

/-- `java.net.InetAddress`, an `Inet4Address` or an `Inet6Address`.  The platform makes no
`Inet6Address` of an IPv4-mapped address. -/
structure InetAddress where
  bytes : Bytes
  valid : bytes.length = 4 ∨ bytes.length = 16 ∧ isIPv4Mapped bytes = false
  deriving DecidableEq

def InetAddress.family (a : InetAddress) : Family := if a.bytes.length = 4 then .inet else .inet6

/-- `InetAddress.getByAddress`, with nothing for an `UnknownHostException`. -/
def getByAddress (addr : Bytes) : Option InetAddress :=
  if h4 : addr.length = 4 then some ⟨addr, .inl h4⟩
  else if h16 : addr.length = 16 then
    match hm : isIPv4Mapped addr with
    | true => some ⟨addr.drop 12, .inl (by rw [List.length_drop, h16])⟩
    | false => some ⟨addr, .inr ⟨h16, hm⟩⟩
  else none

/-! ## Ranges of a profile -/

def isHex (c : Char) : Bool := isDigit c || ('a' ≤ c && c ≤ 'f') || ('A' ≤ c && c ≤ 'F')

/-- `([0-9.]+)|([0-9a-f:]+)`, regardless of case. -/
def looksLikeAddress (s : Text) : Bool :=
  !s.isEmpty && (s.all (fun c => isDigit c || c == '.') || s.all fun c => isHex c || c == ':')

/-- The pattern of `IPRange(String)`: an address, and maybe `-` with another one or `/` with digits. -/
def looksLikeRange (cidr : Text) : Bool :=
  looksLikeAddress (cidr.takeWhile fun c => c != '-' && c != '/') &&
    match cidr.dropWhile fun c => c != '-' && c != '/' with
    | [] => true
    | '-' :: rest => looksLikeAddress rest
    | _ :: digits => !digits.isEmpty && digits.all isDigit

/-- `\s` -/
def isWhitespace (c : Char) : Bool := c ∈ [' ', '\t', '\n', '\x0b', '\x0c', '\r']

/-- The parts between runs of whitespace. -/
def partsBetween : Text → List Text
  | [] => [[]]
  | c :: s =>
    if isWhitespace c then
      -- a run ends before the first other character
      if (s.head?.map isWhitespace).getD false then partsBetween s else [] :: partsBetween s
    else
      match partsBetween s with
      | [] => [[c]]
      | part :: parts => (c :: part) :: parts

/-- `s.split("\\s+")`: trailing empty parts are removed, unless there is no whitespace. -/
def splitWhitespace (s : Text) : List Text :=
  if s.any isWhitespace then (partsBetween s).rdropWhile List.isEmpty else [s]

section

-- `InetAddress.getByName`, with nothing for an exception
variable (getByName : Text → Option InetAddress)

/-- `IPRange(String)`, with nothing for an exception. -/
def IPRange.ofText (cidr : Text) : Option IPRange :=
  if !looksLikeRange cidr then none
  else if cidr.contains '-' then do
    let parts := split '-' cidr
    let fa ← getByName (← parts[0]?)
    let ta ← getByName (← parts[1]?)
    IPRange.initializeFromRange fa.bytes ta.bytes
  else do
    let parts := split '/' cidr
    let addr ← getByName (← parts[0]?)
    match parts[1]? with
    | none => IPRange.initializeFromCIDR addr.bytes (addr.bytes.length * 8)
    | some digits => IPRange.initializeFromCIDR addr.bytes (← (parseInt digits).toOption)

/-- `IPRange(String base, int prefix)`, with nothing for an exception. -/
def IPRange.ofBase (base : Text) (bits : ℤ) : Option IPRange :=
  (getByName base).bind fun addr => IPRange.initializeFromCIDR addr.bytes bits

namespace IPRangeSet

/-- `fromString`, with nothing for `null`. -/
def fromString (ranges : Option Text) : Option IPRangeSet :=
  match ranges with
  | none => some []
  | some ranges =>
    (splitWhitespace ranges).foldlM (fun set range => (IPRange.ofText getByName range).map set.add) []

end IPRangeSet

/-! ## The cache -/

/-- What the cache reads of a `VpnProfile`. -/
structure Profile where
  includedSubnets : Option Text
  excludedSubnets : Option Text
  splitTunneling : Option Int32
  mtu : Option ℤ

/-- What is known before the interface exists. -/
structure BuilderCache where
  mAddresses : List IPRange
  mRoutesIPv4 : List IPRange
  mRoutesIPv6 : List IPRange
  mIncludedSubnetsv4 : IPRangeSet
  mIncludedSubnetsv6 : IPRangeSet
  mExcludedSubnets : Option IPRangeSet
  mSplitTunneling : Int32
  mMtu : ℤ
  mIPv4Seen : Bool
  mIPv6Seen : Bool

def mtuMax : ℤ := 1500

/-- What a range begins with, as the cache asks. -/
def IPRange.isFamily (f : Family) (range : IPRange) : Bool :=
  match getByAddress range.mFrom with
  | some addr => addr.family = f
  | none => false

namespace BuilderCache

/-- The constructor, with nothing for the `NullPointerException` of included subnets that cannot be
parsed. -/
def ofProfile (profile : Profile) : Option BuilderCache := do
  let included ← IPRangeSet.fromString getByName profile.includedSubnets
  return {
    mAddresses := []
    mRoutesIPv4 := []
    mRoutesIPv6 := []
    mIncludedSubnetsv4 := IPRangeSet.addAll [] (included.filter (IPRange.isFamily .inet))
    mIncludedSubnetsv6 := IPRangeSet.addAll [] (included.filter (IPRange.isFamily .inet6))
    mExcludedSubnets := IPRangeSet.fromString getByName profile.excludedSubnets
    mSplitTunneling := profile.splitTunneling.getD 0
    mMtu := profile.mtu.getD mtuMax
    mIPv4Seen := false
    mIPv6Seen := false }

def recordAddressFamily (cache : BuilderCache) (address : Text) : BuilderCache :=
  match (getByName address).map InetAddress.family with
  | some .inet6 => { cache with mIPv6Seen := true }
  | some .inet => { cache with mIPv4Seen := true }
  | none => cache

/-- An unknown host is reported, and the exception for a prefix out of range goes to the caller; in
both cases the cache stays as it is. -/
def addAddress (cache : BuilderCache) (address : Text) (prefixLength : ℤ) : BuilderCache :=
  match IPRange.ofBase getByName address prefixLength with
  | some range =>
    recordAddressFamily getByName { cache with mAddresses := cache.mAddresses ++ [range] } address
  | none => cache

def addRoute (cache : BuilderCache) (address : Text) (prefixLength : ℤ) : BuilderCache :=
  match (getByName address).map InetAddress.family, IPRange.ofBase getByName address prefixLength with
  | some .inet6, some range => { cache with mRoutesIPv6 := cache.mRoutesIPv6 ++ [range] }
  | some .inet, some range => { cache with mRoutesIPv4 := cache.mRoutesIPv4 ++ [range] }
  | _, _ => cache

/-- What charon tells the builder. -/
inductive Call
  | addAddress (address : Text) (prefixLength : ℤ)
  | addRoute (address : Text) (prefixLength : ℤ)
  | recordAddressFamily (address : Text)
  | setMtu (mtu : ℤ)
  deriving DecidableEq

def step (cache : BuilderCache) : Call → BuilderCache
  | .addAddress address prefixLength => cache.addAddress getByName address prefixLength
  | .addRoute address prefixLength => cache.addRoute getByName address prefixLength
  | .recordAddressFamily address => cache.recordAddressFamily getByName address
  | .setMtu mtu => { cache with mMtu := mtu }

end BuilderCache

end

/-! ## The builder -/

/-- What Android's builder is told. -/
inductive BuilderCall
  | addAddress (address : InetAddress) (prefixLength : ℕ)
  | addRoute (address : InetAddress) (prefixLength : ℕ)
  | allowFamily (family : Family)
  | setMtu (mtu : ℤ)
  deriving DecidableEq

def lollipop : ℕ := 21

/-- `range.getFrom()` and `range.getPrefix()`, with nothing if the prefix is `null`. -/
def IPRange.network (range : IPRange) : Option (InetAddress × ℕ) := do
  return (← getByAddress range.mFrom, ← range.determinePrefix)

/-- The subnets of a set, in the order of its iterator. -/
def IPRangeSet.subnets (ranges : IPRangeSet) : Option (List IPRange) :=
  (ranges.mapM IPRange.toSubnets).map List.flatten

/-- The loop over the subnets. -/
def addRoutes (ranges : IPRangeSet) : Option (List BuilderCall) := do
  let networks ← (← ranges.subnets).mapM IPRange.network
  return networks.map fun network => .addRoute network.1 network.2

namespace BuilderCache

/-- The block flag of a family. -/
def blockFlag : Family → Int32
  | .inet => 1
  | .inet6 => 2

def mIncludedSubnets (cache : BuilderCache) : Family → IPRangeSet
  | .inet => cache.mIncludedSubnetsv4
  | .inet6 => cache.mIncludedSubnetsv6

def mRoutes (cache : BuilderCache) : Family → List IPRange
  | .inet => cache.mRoutesIPv4
  | .inet6 => cache.mRoutesIPv6

def mSeen (cache : BuilderCache) : Family → Bool
  | .inet => cache.mIPv4Seen
  | .inet6 => cache.mIPv6Seen

/-- `0.0.0.0` and `::` -/
def anyAddress : Family → InetAddress
  | .inet => ⟨List.replicate 4 0, .inl rfl⟩
  | .inet6 => ⟨List.replicate 16 0, .inr ⟨rfl, rfl⟩⟩

/-- The half of `applyData` about one family, with nothing for a `NullPointerException`. -/
def applyFamily (sdk : ℕ) (cache : BuilderCache) (f : Family) : Option (List BuilderCall) :=
  if cache.mSplitTunneling &&& blockFlag f = 0 then
    if cache.mSeen f then do
      let ranges :=
        if 0 < (cache.mIncludedSubnets f).length then
          IPRangeSet.addAll [] (cache.mIncludedSubnets f)
        else IPRangeSet.addAll [] (cache.mRoutes f)
      addRoutes (ranges.removeAll (← cache.mExcludedSubnets))
    else if lollipop ≤ sdk then some [.allowFamily f]
    else some []
  else if cache.mSeen f then some [.addRoute (anyAddress f) 0]
  else some []

/-- `applyData`, up to the filter of the applications. -/
def applyData (sdk : ℕ) (cache : BuilderCache) : Option (List BuilderCall) := do
  let addresses ← cache.mAddresses.mapM IPRange.network
  let inet ← cache.applyFamily sdk .inet
  let inet6 ← cache.applyFamily sdk .inet6
  return addresses.map (fun address => .addAddress address.1 address.2) ++ inet ++ inet6 ++
    [.setMtu cache.mMtu]

end BuilderCache

/-! ## What is to be routed -/

/-- The addresses that agree with `a` in the first `bits` bits. -/
def networkOf (a : Bytes) (bits : ℕ) : Set Bytes :=
  {b | b.length = a.length ∧
    value b / 2 ^ (a.length * 8 - bits) = value a / 2 ^ (a.length * 8 - bits)}

/-- `::ffff:0:0` -/
def mappedBase : Bytes := mappedStart ++ [0, 0, 0, 0]

/-- Some IPv4-mapped address is in the set, and some address of `::fffe:0:0/95`, the subnet around these,
is not. -/
def CutsAtMapped (A : Set Bytes) : Prop :=
  (∃ a ∈ A, isIPv4Mapped a = true) ∧ ∃ a ∈ networkOf mappedBase 95, a ∉ A

section

variable (getByName : Text → Option InetAddress)

/-- The subnets that a text of the profile names. -/
def named (ranges : Option Text) : List IPRange :=
  match ranges with
  | none => []
  | some ranges => (splitWhitespace ranges).filterMap (IPRange.ofText getByName)

/-- The routes added for a family. -/
def routed (calls : List BuilderCache.Call) (f : Family) : Set Bytes :=
  {b | ∃ (address : Text) (prefixLength : ℤ) (addr : InetAddress),
    BuilderCache.Call.addRoute address prefixLength ∈ calls ∧
    getByName address = some addr ∧ addr.family = f ∧ 0 ≤ prefixLength ∧
    prefixLength ≤ addr.bytes.length * 8 ∧ b ∈ networkOf addr.bytes prefixLength.toNat}

/-- An address of the family was added or recorded. -/
def Seen (calls : List BuilderCache.Call) (f : Family) : Prop :=
  ∃ address addr, getByName address = some addr ∧ addr.family = f ∧
    (.recordAddressFamily address ∈ calls ∨
      ∃ prefixLength : ℤ, .addAddress address prefixLength ∈ calls ∧ 0 ≤ prefixLength ∧
        prefixLength ≤ addr.bytes.length * 8)

/-- Traffic of the family outside the tunnel is to be blocked. -/
def Blocks (profile : Profile) (f : Family) : Prop :=
  profile.splitTunneling.getD 0 &&& BuilderCache.blockFlag f ≠ 0

instance (profile : Profile) (f : Family) : Decidable (Blocks profile f) :=
  inferInstanceAs (Decidable (_ ≠ _))

/-- The included subnets of a family if there are any, the added routes otherwise, without the excluded
subnets. -/
def configured (profile : Profile) (calls : List BuilderCache.Call) (f : Family) : Set Bytes :=
  {a | (if ∃ r ∈ named getByName profile.includedSubnets, r.mFrom.length = f.length then
      a ∈ IPRangeSet.covered (named getByName profile.includedSubnets) ∧ a.length = f.length
    else a ∈ routed getByName calls f) ∧
    a ∉ IPRangeSet.covered (named getByName profile.excludedSubnets)}

/-- The addresses of a family that are to be routed. -/
def wanted (profile : Profile) (calls : List BuilderCache.Call) (f : Family) : Set Bytes :=
  {a | (Blocks profile f ∧ a.length = f.length) ∨
    (¬ Blocks profile f ∧ a ∈ configured getByName profile calls f)}

/-- The builder gets proper subnets of the families that were seen, and for each of these families
exactly the addresses wanted. -/
structure RoutesExactly (profile : Profile) (calls : List BuilderCache.Call)
    (built : List BuilderCall) : Prop where
  proper : ∀ addr bits, .addRoute addr bits ∈ built →
    bits ≤ addr.bytes.length * 8 ∧ 2 ^ (addr.bytes.length * 8 - bits) ∣ value addr.bytes
  seen : ∀ addr bits, .addRoute addr bits ∈ built → Seen getByName calls addr.family
  union : ∀ f, Seen getByName calls f → ∀ a : Bytes, a.length = f.length →
    ((∃ addr bits, .addRoute addr bits ∈ built ∧ a ∈ networkOf addr.bytes bits) ↔
      a ∈ wanted getByName profile calls f)

end

/-! ## Addresses -/

theorem Family.length_injective : Function.Injective Family.length := by
  rintro ⟨⟩ ⟨⟩ h <;> first | rfl | cases h

theorem InetAddress.length_eq (addr : InetAddress) : addr.bytes.length = addr.family.length := by
  rw [InetAddress.family]
  split_ifs with h
  · exact h
  · exact (addr.valid.resolve_left h).1

theorem InetAddress.family_eq {addr : InetAddress} {f : Family} :
    addr.family = f ↔ addr.bytes.length = f.length := by
  rw [addr.length_eq]
  exact ⟨fun h => h ▸ rfl, fun h => Family.length_injective h⟩

theorem getByAddress_eq {a : Bytes} (h : a.length = 4 ∨ a.length = 16) :
    ∃ addr, getByAddress a = some addr ∧ (isIPv4Mapped a = true → addr.bytes.length = 4) ∧
      (isIPv4Mapped a = false → addr.bytes = a) := by
  unfold getByAddress
  by_cases h4 : a.length = 4
  · rw [dif_pos h4]
    exact ⟨_, rfl, fun _ => h4, fun _ => rfl⟩
  · have h16 : a.length = 16 := h.resolve_left h4
    rw [dif_neg h4, dif_pos h16]
    split
    next hm => exact ⟨_, rfl, fun _ => by rw [List.length_drop, h16], fun hf => absurd hm (by simp [hf])⟩
    next hm => exact ⟨_, rfl, fun ht => absurd hm (by simp [ht]), fun _ => rfl⟩

theorem value_eq_iff {a b : Bytes} (hlen : a.length = b.length) : value a = value b ↔ a = b := by
  refine ⟨fun h => key_injective ?_, fun h => h ▸ rfl⟩
  rw [key, key, hlen, h]

/-- The mapped addresses, by their upper bits. -/
theorem isIPv4Mapped_iff {a : Bytes} :
    isIPv4Mapped a = true ↔ a.length = 16 ∧ value a / 2 ^ 32 = 0xffff := by
  rw [isIPv4Mapped, Bool.and_eq_true, beq_iff_eq, beq_iff_eq]
  refine and_congr_right fun hlen => ?_
  have hsplit := value_append (a.take 12) (a.drop 12)
  have hlt := value_lt (a.drop 12)
  have hdrop : (a.drop 12).length = 4 := by rw [List.length_drop, hlen]
  have htake : (a.take 12).length = mappedStart.length := by
    rw [List.length_take, hlen]
    rfl
  rw [List.take_append_drop, hdrop] at hsplit
  rw [hdrop] at hlt
  have hstart : value mappedStart = 0xffff := by decide
  rw [← value_eq_iff htake, hstart]
  omega

/-- The addresses of a block. -/
theorem IPRange.IsBlock.addresses_eq {r : IPRange} {n : ℕ} {b : Block} (h : r.IsBlock n b)
    (ha : b.Aligned) (hle : b.bits ≤ n * 8) : r.addresses = networkOf r.mFrom (n * 8 - b.bits) := by
  ext a
  rw [h.mem_addresses, mem_iff_clearLow ha, networkOf, Set.mem_ofPred_eq, h.length_from, h.first,
    show n * 8 - (n * 8 - b.bits) = b.bits by omega]
  refine and_congr_right fun _ => ?_
  rw [← clearLow_eq_iff, clearLow_of_dvd ha]

/-- The range of an address and a prefix. -/
theorem initializeFromCIDR_spec {base : Bytes} {bits : ℤ} {r : IPRange}
    (h : IPRange.initializeFromCIDR base bits = some r) :
    (base.length = 4 ∨ base.length = 16) ∧ 0 ≤ bits ∧ bits ≤ base.length * 8 ∧
      r.mFrom.length = base.length ∧ r.addresses = networkOf base bits.toNat ∧
      r.determinePrefix = some bits.toNat ∧
      value r.mFrom = clearLow (base.length * 8 - bits.toNat) (value base) := by
  have hvalid := IPRange.valid_of_initializeFromCIDR h
  have hcond : (base.length = 4 ∨ base.length = 16) ∧ 0 ≤ bits ∧ bits ≤ base.length * 8 := by
    rw [IPRange.initializeFromCIDR] at h
    split_ifs at h with h1 h2
    omega
  obtain ⟨hlen, h0, hle⟩ := hcond
  obtain ⟨p, rfl⟩ := Int.eq_ofNat_of_zero_le h0
  obtain ⟨s, hs, hblock⟩ := IPRange.initializeFromCIDR_eq base (p := p) hlen (by omega)
  obtain rfl := Option.some_injective _ (h.symm.trans hs)
  have haligned : (⟨clearLow (base.length * 8 - p) (value base), base.length * 8 - p⟩ : Block).Aligned :=
    dvd_clearLow _ _
  refine ⟨hlen, h0, hle, hblock.length_from, ?_, ?_, hblock.first⟩
  · ext a
    rw [hblock.mem_addresses, mem_iff_clearLow haligned]
    exact and_congr_right fun _ => clearLow_eq_iff
  · rw [IPRange.determinePrefix_eq_some hvalid, hblock.length_from, hblock.first]
    exact ⟨by omega, haligned, hblock.last⟩

/-! ## Ranges that begin with no mapped address -/

/-- The range is of a family and does not begin with a mapped address. -/
structure IPRange.Plain (r : IPRange) : Prop where
  valid : r.Valid
  unmapped : isIPv4Mapped r.mFrom = false

theorem InetAddress.unmapped (addr : InetAddress) : isIPv4Mapped addr.bytes = false := by
  rcases addr.valid with h | h
  · simp [isIPv4Mapped, h]
  · exact h.2

theorem InetAddress.length_or (addr : InetAddress) :
    addr.bytes.length = 4 ∨ addr.bytes.length = 16 := addr.valid.imp id And.left

/-- Clearing the host bits makes no mapped address. -/
theorem plain_of_initializeFromCIDR {addr : InetAddress} {bits : ℤ} {r : IPRange}
    (h : IPRange.initializeFromCIDR addr.bytes bits = some r) : r.Plain := by
  refine ⟨IPRange.valid_of_initializeFromCIDR h, ?_⟩
  obtain ⟨-, -, -, hlen, -, -, hval⟩ := initializeFromCIDR_spec h
  have hun := addr.unmapped
  rw [← Bool.not_eq_true, isIPv4Mapped_iff] at hun ⊢
  rintro ⟨h16, hmapped⟩
  refine hun ⟨hlen ▸ h16, ?_⟩
  rw [hval] at hmapped
  obtain ⟨m, hm⟩ : ∃ m, addr.bytes.length * 8 - bits.toNat = m := ⟨_, rfl⟩
  rw [hm] at hmapped
  rcases Nat.lt_or_ge 32 m with hlt | hge
  · -- the lowest bit of the second group of ones would be cleared
    obtain ⟨k, rfl⟩ : ∃ k, m = 33 + k := ⟨m - 33, by omega⟩
    obtain ⟨q, hq⟩ := dvd_clearLow (33 + k) (value addr.bytes)
    rw [hq, pow_add, show (2 : ℕ) ^ 33 = 2 ^ 32 * 2 by norm_num, Nat.mul_assoc, Nat.mul_assoc,
      Nat.mul_div_cancel_left _ (by norm_num)] at hmapped
    omega
  · exact (clearLow_eq_iff.mp (clearLow_clearLow hge _)).symm.trans hmapped

theorem plain_of_initializeFromRange {fa ta : InetAddress} {r : IPRange}
    (h : IPRange.initializeFromRange fa.bytes ta.bytes = some r) : r.Plain := by
  refine ⟨IPRange.valid_of_initializeFromRange fa.length_or h, ?_⟩
  rw [IPRange.initializeFromRange] at h
  split_ifs at h
  · obtain rfl := Option.some_injective _ h
    exact fa.unmapped
  · obtain rfl := Option.some_injective _ h
    exact ta.unmapped

theorem plain_of_ofText {getByName : Text → Option InetAddress} {cidr : Text} {r : IPRange}
    (h : IPRange.ofText getByName cidr = some r) : r.Plain := by
  rw [IPRange.ofText] at h
  split_ifs at h
  · simp only [Option.bind_eq_bind, Option.bind_eq_some_iff] at h
    obtain ⟨_, -, fa, -, _, -, ta, -, h⟩ := h
    exact plain_of_initializeFromRange h
  · simp only [Option.bind_eq_bind, Option.bind_eq_some_iff] at h
    obtain ⟨_, -, addr, -, h⟩ := h
    split at h
    · exact plain_of_initializeFromCIDR h
    · obtain ⟨bits, -, h⟩ := Option.bind_eq_some_iff.mp h
      exact plain_of_initializeFromCIDR h

/-- A merged range begins where one of the two does. -/
theorem IPRange.Plain.merge {r s t : IPRange} (hr : r.Plain) (hs : s.Plain)
    (h : r.merge s = some t) : t.Plain := by
  refine ⟨hr.valid.merge hs.valid h, ?_⟩
  obtain ⟨hlo, -⟩ := IPRange.merge_ends h
  rcases min_choice r.lo s.lo with hmin | hmin
  · rw [key_injective (hlo.trans hmin)]
    exact hr.unmapped
  · rw [key_injective (hlo.trans hmin)]
    exact hs.unmapped

namespace IPRangeSet

variable {l : IPRangeSet} {r : IPRange}

theorem plain_reinsert (hl : ∀ s ∈ l, s.Plain) (hr : r.Plain) : ∀ s ∈ reinsert l r, s.Plain := by
  induction l, r using reinsert.induct with
  | case1 l r hnone =>
    rw [reinsert]
    split
    next =>
      intro s hs
      rcases mem_treeAdd.mp hs with hs | ⟨rfl, -⟩
      · exact hl s hs
      · exact hr
    next hsome => simp [hnone] at hsome
  | case2 l r t m hsome ih =>
    obtain ⟨e, hmerge, hperm, hsub⟩ := mergeFirst_spec hsome
    have he : e.Plain := hl e (hperm.symm.subset List.mem_cons_self)
    rw [reinsert]
    split
    next hnone => simp [hnone] at hsome
    next t' m' hsome' =>
      obtain ⟨rfl, rfl⟩ := Prod.mk.inj (Option.some_injective _ (hsome.symm.trans hsome'))
      exact ih (fun s hs => hl s (hsub.subset hs)) (he.merge hr hmerge)

theorem plain_add (hl : ∀ s ∈ l, s.Plain) (hr : r.Plain) : ∀ s ∈ add l r, s.Plain := by
  rw [add]
  split_ifs
  · exact hl
  · exact plain_reinsert hl hr

variable {getByName : Text → Option InetAddress}

theorem covered_append (l m : List IPRange) : covered (l ++ m) = covered l ∪ covered m := by
  ext a
  simp only [covered, List.mem_append, or_and_right, exists_or, Set.mem_union]
  rfl

theorem represents_foldlM {parts : List Text} {A : Set Bytes} {set : IPRangeSet}
    (hl : Represents l A) (hplain : ∀ s ∈ l, s.Plain)
    (h : parts.foldlM (fun set range => (IPRange.ofText getByName range).map set.add) l = some set) :
    Represents set (A ∪ covered (parts.filterMap (IPRange.ofText getByName))) ∧
      ∀ s ∈ set, s.Plain := by
  induction parts generalizing l A with
  | nil =>
    obtain rfl := Option.some_injective _ h
    exact ⟨by simpa [covered] using hl, hplain⟩
  | cons part parts ih =>
    obtain ⟨m, hm, h⟩ := Option.bind_eq_some_iff.mp h
    obtain ⟨range, hrange, rfl⟩ := Option.map_eq_some_iff.mp hm
    have hr := plain_of_ofText hrange
    obtain ⟨hrep, hall⟩ := ih (hl.add ⟨range, hr.valid⟩) (plain_add hplain hr) h
    refine ⟨?_, hall⟩
    rw [List.filterMap_cons_some hrange, ← List.singleton_append, covered_append, ← Set.union_assoc]
    have hone : covered [range] = range.addresses := by
      ext a
      simp [covered]
    rwa [hone]

/-- An accepted text gives the set of the ranges it names. -/
theorem represents_fromString {ranges : Option Text} {set : IPRangeSet}
    (h : fromString getByName ranges = some set) :
    Represents set (covered (named getByName ranges)) ∧ ∀ s ∈ set, s.Plain := by
  cases ranges with
  | none =>
    obtain rfl := Option.some_injective _ h
    exact ⟨by simpa [named, covered] using Represents.nil, by simp⟩
  | some ranges =>
    have := represents_foldlM .nil (by simp) h
    rwa [Set.empty_union] at this

end IPRangeSet

theorem plain_of_named {getByName : Text → Option InetAddress} {ranges : Option Text} {r : IPRange}
    (h : r ∈ named getByName ranges) : r.Plain := by
  cases ranges with
  | none => cases h
  | some ranges =>
    obtain ⟨part, -, hr⟩ := List.mem_filterMap.mp h
    exact plain_of_ofText hr

theorem IPRange.Valid.mFrom_mem {r : IPRange} (h : r.Valid) : r.mFrom ∈ r.addresses :=
  ⟨rfl, le_rfl, h.value_le⟩

theorem IPRange.Plain.isFamily {r : IPRange} (h : r.Plain) (f : Family) :
    r.isFamily f = true ↔ r.mFrom.length = f.length := by
  obtain ⟨addr, haddr, -, hbytes⟩ := getByAddress_eq h.valid.family
  rw [IPRange.isFamily, haddr, decide_eq_true_iff, InetAddress.family_eq, hbytes h.unmapped]

/-- The ranges of a family have the addresses of its length. -/
theorem represents_filter {set : IPRangeSet} {A : Set Bytes} (h : IPRangeSet.Represents set A)
    (hplain : ∀ s ∈ set, s.Plain) (f : Family) :
    IPRangeSet.Represents (IPRangeSet.addAll [] (set.filter (IPRange.isFamily f)))
      {a | a ∈ A ∧ a.length = f.length} := by
  obtain ⟨hgood, rfl⟩ := h
  have hvalid : ∀ r ∈ set.filter (IPRange.isFamily f), r.Valid := fun r hr =>
    hgood.valid r (List.mem_of_mem_filter hr)
  have hadd := IPRangeSet.Represents.nil.addAll hvalid
  refine ⟨hadd.1, hadd.2.trans ?_⟩
  rw [Set.empty_union]
  ext a
  constructor
  · rintro ⟨r, hr, ha⟩
    obtain ⟨hr, hf⟩ := List.mem_filter.mp hr
    exact ⟨⟨r, hr, ha⟩, ha.1.trans (((hplain r hr).isFamily f).mp hf)⟩
  · rintro ⟨⟨r, hr, ha⟩, hlen⟩
    exact ⟨r, List.mem_filter.mpr ⟨hr, ((hplain r hr).isFamily f).mpr (ha.1.symm.trans hlen)⟩, ha⟩

/-- A set of ranges is empty iff it has no address. -/
theorem length_pos_iff {set : IPRangeSet} {A : Set Bytes} (h : IPRangeSet.Represents set A) :
    0 < set.length ↔ ∃ a, a ∈ A := by
  obtain ⟨hgood, rfl⟩ := h
  rw [List.length_pos_iff_exists_mem]
  constructor
  · rintro ⟨r, hr⟩
    exact ⟨r.mFrom, r, hr, (hgood.valid r hr).mFrom_mem⟩
  · rintro ⟨a, r, hr, -⟩
    exact ⟨r, hr⟩

end VpnCore.Ranges
