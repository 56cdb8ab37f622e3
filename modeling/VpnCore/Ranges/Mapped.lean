import VpnCore.Ranges.SplitTunnel

/-!
# VpnCore.Ranges.Mapped — which routes reach the builder

The fields of the cache follow the calls (`Collected`), and the subnets of a canonical set of ranges cover its
addresses.  They reach the builder as they are unless one begins with an IPv4-mapped address.  A subnet of
this kind is inside `::ffff:0:0/96`; as the subnets are as large as they can be, there is one
iff some mapped address is to be routed and `::fffe:0:0/95` is not to be routed as a whole.
-/

namespace VpnCore.Ranges

open VpnCore.Lib VpnCore.Config

/-! ## The fields of the cache -/

section

variable {getByName : Text → Option InetAddress} {profile : Profile}
  {calls : List BuilderCache.Call} {cache : BuilderCache}

theorem routed_append (calls calls' : List BuilderCache.Call) (f : Family) :
    routed getByName (calls ++ calls') f = routed getByName calls f ∪ routed getByName calls' f := by
  ext a
  simp only [routed, List.mem_append, or_and_right, exists_or, Set.mem_union]
  rfl

theorem seen_append (calls calls' : List BuilderCache.Call) (f : Family) :
    Seen getByName (calls ++ calls') f ↔ Seen getByName calls f ∨ Seen getByName calls' f := by
  constructor
  · rintro ⟨address, addr, h1, h2, h | ⟨p, h, h3⟩⟩
    · exact (List.mem_append.mp h).imp (fun h => ⟨address, addr, h1, h2, .inl h⟩)
        (fun h => ⟨address, addr, h1, h2, .inl h⟩)
    · exact (List.mem_append.mp h).imp (fun h => ⟨address, addr, h1, h2, .inr ⟨p, h, h3⟩⟩)
        (fun h => ⟨address, addr, h1, h2, .inr ⟨p, h, h3⟩⟩)
  · rintro (⟨address, addr, h1, h2, h⟩ | ⟨address, addr, h1, h2, h⟩)
    · exact ⟨address, addr, h1, h2, h.imp (List.mem_append_left _)
        fun ⟨p, h, h3⟩ => ⟨p, List.mem_append_left _ h, h3⟩⟩
    · exact ⟨address, addr, h1, h2, h.imp (List.mem_append_right _)
        fun ⟨p, h, h3⟩ => ⟨p, List.mem_append_right _ h, h3⟩⟩

/-- What the fields hold after the calls. -/
structure Collected (getByName : Text → Option InetAddress) (profile : Profile)
    (calls : List BuilderCache.Call) (cache : BuilderCache) : Prop where
  included : ∀ f, IPRangeSet.Represents (cache.mIncludedSubnets f)
    {a | a ∈ IPRangeSet.covered (named getByName profile.includedSubnets) ∧ a.length = f.length}
  excluded : ∃ set, cache.mExcludedSubnets = some set ∧
    IPRangeSet.Represents set (IPRangeSet.covered (named getByName profile.excludedSubnets))
  flag : cache.mSplitTunneling = profile.splitTunneling.getD 0
  valid : ∀ f, ∀ r ∈ cache.mRoutes f, r.Valid
  routes : ∀ f, IPRangeSet.covered (cache.mRoutes f) = routed getByName calls f
  seen : ∀ f, cache.mSeen f = true ↔ Seen getByName calls f
  addresses : ∀ r ∈ cache.mAddresses, ∃ network, r.network = some network

theorem collected_ofProfile (hinc : IPRangeSet.fromString getByName profile.includedSubnets ≠ none)
    (hexc : IPRangeSet.fromString getByName profile.excludedSubnets ≠ none) :
    ∃ cache, BuilderCache.ofProfile getByName profile = some cache ∧
      Collected getByName profile [] cache := by
  obtain ⟨included, hinc⟩ := Option.ne_none_iff_exists'.mp hinc
  obtain ⟨excluded, hexc⟩ := Option.ne_none_iff_exists'.mp hexc
  obtain ⟨hrep, hplain⟩ := IPRangeSet.represents_fromString hinc
  refine ⟨_, by rw [BuilderCache.ofProfile, hinc]; rfl, ?_⟩
  exact
    { included := fun f => by cases f <;> exact represents_filter hrep hplain _
      excluded := ⟨excluded, hexc, (IPRangeSet.represents_fromString hexc).1⟩
      flag := rfl
      valid := fun f r hr => by cases f <;> cases hr
      routes := fun f => by cases f <;> simp [BuilderCache.mRoutes, IPRangeSet.covered, routed]
      seen := fun f => by cases f <;> simp [BuilderCache.mSeen, Seen]
      addresses := fun r hr => by cases hr }

/-- The range of an address and a prefix, if it can be built. -/
theorem ofBase_cases (getByName : Text → Option InetAddress) (address : Text) (bits : ℤ) :
    (∃ addr r network, getByName address = some addr ∧ 0 ≤ bits ∧ bits ≤ addr.bytes.length * 8 ∧
      IPRange.ofBase getByName address bits = some r ∧ r.Valid ∧
      r.addresses = networkOf addr.bytes bits.toNat ∧ r.network = some network) ∨
    (IPRange.ofBase getByName address bits = none ∧
      ∀ addr, getByName address = some addr → ¬ (0 ≤ bits ∧ bits ≤ addr.bytes.length * 8)) := by
  rw [IPRange.ofBase]
  cases hname : getByName address with
  | none => exact .inr ⟨rfl, by simp⟩
  | some addr =>
    rw [Option.bind_some]
    cases hr : IPRange.initializeFromCIDR addr.bytes bits with
    | some r =>
      obtain ⟨hlen, h0, hle, hfrom, haddresses, hp, -⟩ := initializeFromCIDR_spec hr
      obtain ⟨from', hfrom', -⟩ := getByAddress_eq (hfrom ▸ hlen : r.mFrom.length = 4 ∨ _)
      refine .inl ⟨addr, r, (from', bits.toNat), rfl, h0, hle, rfl,
        IPRange.valid_of_initializeFromCIDR hr, haddresses, ?_⟩
      rw [IPRange.network, hfrom', hp]
      rfl
    | none =>
      refine .inr ⟨rfl, ?_⟩
      intro addr' heq ⟨h0, hle⟩
      obtain rfl := Option.some_injective _ heq
      obtain ⟨p, rfl⟩ := Int.eq_ofNat_of_zero_le h0
      obtain ⟨r, hsome, -⟩ :=
        IPRange.initializeFromCIDR_eq addr.bytes (p := p) addr.length_or (by omega)
      rw [hr] at hsome
      cases hsome

/-! ### One call -/

/-- The fields from the profile stay as they are. -/
theorem step_frame (getByName : Text → Option InetAddress) (cache : BuilderCache) (call : BuilderCache.Call) :
    (cache.step getByName call).mIncludedSubnets = cache.mIncludedSubnets ∧
      (cache.step getByName call).mExcludedSubnets = cache.mExcludedSubnets ∧
      (cache.step getByName call).mSplitTunneling = cache.mSplitTunneling := by
  have hrecord : ∀ (cache : BuilderCache) (address : Text),
      (cache.recordAddressFamily getByName address).mIncludedSubnets = cache.mIncludedSubnets ∧
        (cache.recordAddressFamily getByName address).mExcludedSubnets = cache.mExcludedSubnets ∧
        (cache.recordAddressFamily getByName address).mSplitTunneling = cache.mSplitTunneling := by
    intro cache address
    rw [BuilderCache.recordAddressFamily]
    split <;> exact ⟨funext fun f => by cases f <;> rfl, rfl, rfl⟩
  cases call with
  | addAddress address p =>
    rw [BuilderCache.step, BuilderCache.addAddress]
    split
    · obtain ⟨h1, h2, h3⟩ := hrecord { cache with mAddresses := cache.mAddresses ++ [_] } address
      exact ⟨h1.trans (funext fun f => by cases f <;> rfl), h2, h3⟩
    · exact ⟨rfl, rfl, rfl⟩
  | addRoute address p =>
    rw [BuilderCache.step, BuilderCache.addRoute]
    split <;> exact ⟨funext fun f => by cases f <;> rfl, rfl, rfl⟩
  | recordAddressFamily address => exact hrecord cache address
  | setMtu mtu => exact ⟨funext fun f => by cases f <;> rfl, rfl, rfl⟩

theorem mRoutes_recordAddressFamily (cache : BuilderCache) (address : Text) (f : Family) :
    (cache.recordAddressFamily getByName address).mRoutes f = cache.mRoutes f := by
  rw [BuilderCache.recordAddressFamily]
  split <;> cases f <;> rfl

/-- A call that adds no route. -/
theorem routed_singleton_eq_empty {call : BuilderCache.Call}
    (h : ∀ address p, call ≠ .addRoute address p) (f : Family) :
    routed getByName [call] f = ∅ := by
  refine Set.eq_empty_of_forall_notMem ?_
  rintro a ⟨address, p, addr, hcall, -⟩
  exact h address p (List.mem_singleton.mp hcall).symm

/-- The route of a call is put to those of its family. -/
theorem mRoutes_step (getByName : Text → Option InetAddress) (cache : BuilderCache)
    (call : BuilderCache.Call) (f : Family) :
    ∃ added : List IPRange, (cache.step getByName call).mRoutes f = cache.mRoutes f ++ added ∧
      (∀ r ∈ added, r.Valid) ∧ IPRangeSet.covered added = routed getByName [call] f := by
  have hnone : ∀ {call : BuilderCache.Call}, (∀ address p, call ≠ .addRoute address p) →
      ∀ {l : List IPRange}, l = cache.mRoutes f →
        ∃ added : List IPRange, l = cache.mRoutes f ++ added ∧ (∀ r ∈ added, r.Valid) ∧
          IPRangeSet.covered added = routed getByName [call] f := by
    rintro call hcall _ rfl
    refine ⟨[], by simp, by simp, ?_⟩
    rw [routed_singleton_eq_empty hcall]
    simp [IPRangeSet.covered]
  cases call with
  | addAddress address p =>
    refine hnone (by simp) ?_
    rw [BuilderCache.step, BuilderCache.addAddress]
    split
    · rw [mRoutes_recordAddressFamily]
      cases f <;> rfl
    · rfl
  | recordAddressFamily address => exact hnone (by simp) (mRoutes_recordAddressFamily _ _ _)
  | setMtu mtu => exact hnone (by simp) (by cases f <;> rfl)
  | addRoute address p =>
    rw [BuilderCache.step, BuilderCache.addRoute]
    rcases ofBase_cases getByName address p with
      ⟨addr, r, -, hname, h0, hle, hr, hvalid, haddresses, -⟩ | ⟨hr, hbad⟩
    · rw [hname, hr, Option.map_some]
      have hrouted : ∀ g, routed getByName [.addRoute address p] g =
          if addr.family = g then r.addresses else ∅ := by
        intro g
        ext a
        constructor
        · rintro ⟨address', p', addr', hcall, hname', hfam, -, -, ha⟩
          cases List.mem_singleton.mp hcall
          obtain rfl := Option.some_injective _ (hname.symm.trans hname')
          rwa [if_pos hfam, haddresses]
        · intro ha
          split_ifs at ha with hfam
          · exact ⟨address, p, addr, by simp, hname, hfam, h0, hle, haddresses ▸ ha⟩
          · cases ha
      have hone : IPRangeSet.covered [r] = r.addresses := by
        ext a
        simp [IPRangeSet.covered]
      rw [hrouted]
      cases hfam : addr.family <;> cases f
      · exact ⟨[r], rfl, by simpa using hvalid, by rw [hone, if_pos rfl]⟩
      · exact ⟨[], (List.append_nil _).symm, by simp, by simp [IPRangeSet.covered]⟩
      · exact ⟨[], (List.append_nil _).symm, by simp, by simp [IPRangeSet.covered]⟩
      · exact ⟨[r], rfl, by simpa using hvalid, by rw [hone, if_pos rfl]⟩
    · rw [hr]
      refine ⟨[], by split <;> simp_all, by simp, ?_⟩
      have hempty : routed getByName [.addRoute address p] f = ∅ := by
        refine Set.eq_empty_of_forall_notMem ?_
        rintro a ⟨address', p', addr', hcall, hname', -, h0, hle, -⟩
        cases List.mem_singleton.mp hcall
        exact hbad addr' hname' ⟨h0, hle⟩
      rw [hempty]
      simp [IPRangeSet.covered]

theorem mSeen_recordAddressFamily (cache : BuilderCache) (address : Text) (f : Family) :
    (cache.recordAddressFamily getByName address).mSeen f = true ↔
      cache.mSeen f = true ∨ ∃ addr, getByName address = some addr ∧ addr.family = f := by
  rw [BuilderCache.recordAddressFamily]
  cases hname : getByName address with
  | none => simp
  | some addr =>
    rw [Option.map_some]
    cases hfam : addr.family <;> cases f <;> simp [BuilderCache.mSeen, hfam]

theorem mSeen_step (cache : BuilderCache) (call : BuilderCache.Call) (f : Family) :
    (cache.step getByName call).mSeen f = true ↔
      cache.mSeen f = true ∨ Seen getByName [call] f := by
  cases call with
  | addAddress address p =>
    rw [BuilderCache.step, BuilderCache.addAddress]
    rcases ofBase_cases getByName address p with
      ⟨addr, r, -, hname, h0, hle, hr, -⟩ | ⟨hr, hbad⟩
    · rw [hr]
      refine (mSeen_recordAddressFamily _ _ _).trans (or_congr (by cases f <;> rfl) ⟨?_, ?_⟩)
      · rintro ⟨addr', hname', hfam⟩
        obtain rfl := Option.some_injective _ (hname.symm.trans hname')
        exact ⟨address, addr, hname, hfam, .inr ⟨p, by simp, h0, hle⟩⟩
      · rintro ⟨address', addr', hname', hfam, hcall | ⟨p', hcall, -⟩⟩
        · cases List.mem_singleton.mp hcall
        · cases List.mem_singleton.mp hcall
          exact ⟨addr', hname', hfam⟩
    · rw [hr]
      refine (or_iff_left ?_).symm
      rintro ⟨address', addr', hname', hfam, hcall | ⟨p', hcall, h0, hle⟩⟩
      · cases List.mem_singleton.mp hcall
      · cases List.mem_singleton.mp hcall
        exact hbad addr' hname' ⟨h0, hle⟩
  | addRoute address p =>
    have hsame : (cache.addRoute getByName address p).mSeen f = cache.mSeen f := by
      rw [BuilderCache.addRoute]
      split <;> cases f <;> rfl
    rw [BuilderCache.step, hsame]
    refine (or_iff_left ?_).symm
    rintro ⟨address', addr', -, -, hcall | ⟨p', hcall, -⟩⟩ <;> cases List.mem_singleton.mp hcall
  | recordAddressFamily address =>
    refine (mSeen_recordAddressFamily _ _ _).trans (or_congr Iff.rfl ⟨?_, ?_⟩)
    · rintro ⟨addr, h1, h2⟩
      exact ⟨address, addr, h1, h2, .inl (by simp)⟩
    · rintro ⟨address', addr, h1, h2, hcall | ⟨p, hcall, -⟩⟩
      · cases List.mem_singleton.mp hcall
        exact ⟨addr, h1, h2⟩
      · cases List.mem_singleton.mp hcall
  | setMtu mtu =>
    have hsame : (cache.step getByName (.setMtu mtu)).mSeen f = cache.mSeen f := by
      cases f <;> rfl
    rw [hsame]
    refine (or_iff_left ?_).symm
    rintro ⟨address', addr', -, -, hcall | ⟨p', hcall, -⟩⟩ <;> cases List.mem_singleton.mp hcall

theorem mAddresses_step (cache : BuilderCache) (call : BuilderCache.Call)
    (h : ∀ r ∈ cache.mAddresses, ∃ network, r.network = some network) :
    ∀ r ∈ (cache.step getByName call).mAddresses, ∃ network, r.network = some network := by
  have hrecord : ∀ (cache : BuilderCache) (address : Text),
      (cache.recordAddressFamily getByName address).mAddresses = cache.mAddresses := by
    intro cache address
    rw [BuilderCache.recordAddressFamily]
    split <;> rfl
  cases call with
  | addAddress address p =>
    rw [BuilderCache.step, BuilderCache.addAddress]
    rcases ofBase_cases getByName address p with
      ⟨addr, r, network, -, -, -, hr, -, -, hnetwork⟩ | ⟨hr, -⟩
    · rw [hr]
      dsimp only
      rw [hrecord]
      intro s hs
      rcases List.mem_append.mp hs with hs | hs
      · exact h s hs
      · exact ⟨network, List.mem_singleton.mp hs ▸ hnetwork⟩
    · rw [hr]
      exact h
  | addRoute address p =>
    rw [BuilderCache.step, BuilderCache.addRoute]
    split <;> exact h
  | recordAddressFamily address =>
    rw [BuilderCache.step, hrecord]
    exact h
  | setMtu mtu => exact h

theorem Collected.step (h : Collected getByName profile calls cache) (call : BuilderCache.Call) :
    Collected getByName profile (calls ++ [call]) (cache.step getByName call) := by
  obtain ⟨h1, h2, h3⟩ := step_frame getByName cache call
  refine ⟨h1 ▸ h.included, h2 ▸ h.excluded, h3.trans h.flag, fun f => ?_, fun f => ?_, fun f => ?_,
    mAddresses_step cache call h.addresses⟩
  · obtain ⟨added, heq, hvalid, -⟩ := mRoutes_step getByName cache call f
    rw [heq]
    intro r hr
    exact (List.mem_append.mp hr).elim (h.valid f r) (hvalid r)
  · obtain ⟨added, heq, -, hcov⟩ := mRoutes_step getByName cache call f
    rw [heq, IPRangeSet.covered_append, h.routes, hcov, routed_append]
  · rw [mSeen_step, h.seen, seen_append]

/-- **Every sequence of calls.** -/
theorem Collected.run (h : Collected getByName profile [] cache) (calls : List BuilderCache.Call) :
    Collected getByName profile calls (run (BuilderCache.step getByName) cache calls) := by
  induction calls using List.reverseRecOn with
  | nil => exact h
  | append_singleton calls call ih =>
    rw [run_append, run_cons, run_nil]
    exact ih.step call

end

/-! ## The subnets of a set -/

theorem exists_mapM {α β : Type*} {f : α → Option β} : ∀ {l : List α},
    (∀ x ∈ l, ∃ y, f x = some y) →
      ∃ ys, l.mapM f = some ys ∧ ∀ y, y ∈ ys ↔ ∃ x ∈ l, f x = some y
  | [], _ => ⟨[], rfl, by simp⟩
  | x :: l, h => by
    obtain ⟨y, hy⟩ := h x List.mem_cons_self
    obtain ⟨ys, hys, hmem⟩ := exists_mapM fun z hz => h z (List.mem_cons_of_mem x hz)
    refine ⟨y :: ys, by rw [List.mapM_cons, hy, hys]; rfl, fun z => ?_⟩
    rw [List.mem_cons, hmem]
    simp [hy, eq_comm]

/-- The subnets of the ranges of a set, with all its addresses. -/
structure SplitInto (ranges : IPRangeSet) (subnets : List IPRange) : Prop where
  subnet : ∀ s ∈ subnets, ∃ r ∈ ranges, ∃ b, IPRange.Subnet r s b
  covered : IPRangeSet.covered subnets = IPRangeSet.covered ranges

variable {ranges : IPRangeSet} {subnets : List IPRange}

theorem splitInto_subnets (h : ranges.Good) :
    ∃ subnets, ranges.subnets = some subnets ∧ SplitInto ranges subnets := by
  have hspec := fun r hr => IPRange.toSubnets_spec (h.valid r hr)
  obtain ⟨lists, hlists, hmem⟩ := exists_mapM (f := IPRange.toSubnets) (l := ranges) fun r hr =>
    (hspec r hr).imp fun _ h => h.1
  refine ⟨lists.flatten, by rw [IPRangeSet.subnets, hlists]; rfl, ?_, ?_⟩
  · intro s hs
    obtain ⟨l, hl, hs⟩ := List.mem_flatten.mp hs
    obtain ⟨r, hr, heq⟩ := (hmem l).mp hl
    obtain ⟨l', heq', hsub, -⟩ := hspec r hr
    obtain rfl := Option.some_injective _ (heq.symm.trans heq')
    exact ⟨r, hr, hsub s hs⟩
  · ext a
    constructor
    · rintro ⟨s, hs, ha⟩
      obtain ⟨l, hl, hs⟩ := List.mem_flatten.mp hs
      obtain ⟨r, hr, heq⟩ := (hmem l).mp hl
      obtain ⟨l', heq', -, hcov⟩ := hspec r hr
      obtain rfl := Option.some_injective _ (heq.symm.trans heq')
      exact ⟨r, hr, (hcov a).mp ⟨s, hs, ha⟩⟩
    · rintro ⟨r, hr, ha⟩
      obtain ⟨l, heq, -, hcov⟩ := hspec r hr
      obtain ⟨s, hs, ha⟩ := (hcov a).mpr ha
      exact ⟨s, List.mem_flatten.mpr ⟨l, (hmem l).mpr ⟨r, hr, heq⟩, hs⟩, ha⟩

/-- The route of a subnet: its first address, as the platform has it, and its prefix. -/
theorem exists_network (h : ranges.Good) (hs : SplitInto ranges subnets) {s : IPRange}
    (hmem : s ∈ subnets) :
    ∃ addr b, ∃ r ∈ ranges, IPRange.Subnet r s b ∧
      s.network = some (addr, r.mFrom.length * 8 - b.bits) ∧
      (isIPv4Mapped s.mFrom = true → addr.bytes.length = 4) ∧
      (isIPv4Mapped s.mFrom = false → addr.bytes = s.mFrom) := by
  obtain ⟨r, hr, b, hsub⟩ := hs.subnet s hmem
  have hvalid := h.valid r hr
  obtain ⟨addr, haddr, h1, h2⟩ := getByAddress_eq (a := s.mFrom)
    (hsub.block.length_from ▸ hvalid.family)
  refine ⟨addr, b, r, hr, hsub, ?_, h1, h2⟩
  rw [IPRange.network, haddr, hsub.determinePrefix hvalid]
  rfl

theorem addRoutes_eq (h : ranges.Good) :
    ∃ subnets built, SplitInto ranges subnets ∧ addRoutes ranges = some built ∧
      ∀ call, call ∈ built ↔
        ∃ s ∈ subnets, ∃ network, s.network = some network ∧ call = .addRoute network.1 network.2 := by
  obtain ⟨subnets, hsubnets, hs⟩ := splitInto_subnets h
  obtain ⟨networks, hnetworks, hmem⟩ := exists_mapM (f := IPRange.network) (l := subnets)
    fun s hmem => by
      obtain ⟨addr, b, r, -, -, heq, -⟩ := exists_network h hs hmem
      exact ⟨_, heq⟩
  refine ⟨subnets, _, hs, by rw [addRoutes, hsubnets]; simp [hnetworks]; rfl, fun call => ?_⟩
  rw [List.mem_map]
  constructor
  · rintro ⟨network, hn, rfl⟩
    obtain ⟨s, hs, heq⟩ := (hmem network).mp hn
    exact ⟨s, hs, network, heq, rfl⟩
  · rintro ⟨s, hs, network, heq, rfl⟩
    exact ⟨network, (hmem network).mpr ⟨s, hs, heq⟩, rfl⟩

/-! ## Subnets that begin with a mapped address -/

theorem mem_networkOf_mappedBase {a : Bytes} :
    a ∈ networkOf mappedBase 95 ↔ a.length = 16 ∧ value a / 2 ^ 33 = 0x7fff := by
  have hbase : value mappedBase / 2 ^ 33 = 0x7fff := by decide
  rw [← hbase]
  rfl

/-- A block that begins with a mapped address is inside `::ffff:0:0/96`. -/
theorem bits_le_of_mapped {s : IPRange} {n : ℕ} {b : Block} (h : s.IsBlock n b) (ha : b.Aligned)
    (hm : isIPv4Mapped s.mFrom = true) : b.bits ≤ 32 := by
  obtain ⟨-, hvalue⟩ := isIPv4Mapped_iff.mp hm
  by_contra hgt
  obtain ⟨k, hk⟩ : ∃ k, b.bits = 33 + k := ⟨b.bits - 33, by omega⟩
  obtain ⟨q, hq⟩ := ha
  rw [h.first, hq, hk, pow_add, show (2 : ℕ) ^ 33 = 2 ^ 32 * 2 by norm_num, Nat.mul_assoc,
    Nat.mul_assoc, Nat.mul_div_cancel_left _ (by norm_num)] at hvalue
  omega

/-- A range of the set ends before an address that is not in it, if the next address is in no other
range. -/
theorem next_mem_of_covered (h : ranges.Good) {r : IPRange} (hr : r ∈ ranges) {a : Bytes}
    (ha : a ∈ IPRangeSet.covered ranges) (hlen : a.length = r.mFrom.length)
    (hval : value a = value r.mTo + 1 ∨ value a + 1 = value r.mFrom) : False := by
  obtain ⟨t, ht, halen, h1, h2⟩ := ha
  have hrv := h.valid r hr
  have htv := h.valid t ht
  have hrle := hrv.value_le
  have htlen := htv.length
  have hrlen := hrv.length
  have hne : r ≠ t := by
    rintro rfl
    omega
  -- the two ranges neither share an address nor touch each other
  have : Std.Symm fun u v : IPRange =>
      u.addresses ∩ v.addresses = ∅ ∧ ¬ u.Touches v ∧ ¬ v.Touches u :=
    ⟨fun _ _ ⟨h1, h2, h3⟩ => ⟨Set.inter_comm _ _ ▸ h1, h3, h2⟩⟩
  obtain ⟨hdisj, htouch, htouch'⟩ := h.isCanonical.2.forall hr ht hne
  have hshare : ∀ x : Bytes, x ∈ r.addresses → x ∈ t.addresses → False := fun x hx hx' =>
    (Set.eq_empty_iff_forall_notMem.mp hdisj x) ⟨hx, hx'⟩
  rcases hval with hval | hval
  · rcases Nat.lt_or_ge (value r.mTo) (value t.mFrom) with hlt | hge
    · exact htouch ⟨by omega, by omega⟩
    · exact hshare r.mTo ⟨hrlen.symm, hrle, le_rfl⟩ ⟨by omega, hge, by omega⟩
  · rcases Nat.lt_or_ge (value t.mTo) (value r.mFrom) with hlt | hge
    · exact htouch' ⟨by omega, by omega⟩
    · exact hshare r.mFrom ⟨rfl, le_rfl, hrle⟩ ⟨by omega, by omega, hge⟩

/-- Addresses next to each other that are all in the set are in one range. -/
theorem mem_range_of_between (h : ranges.Good) {r : IPRange} (hr : r ∈ ranges) {x y : ℕ} (lo hi : ℕ)
    (hcov : ∀ a : Bytes, a.length = r.mFrom.length → lo ≤ value a → value a ≤ hi →
      a ∈ IPRangeSet.covered ranges)
    (hbound : hi < 256 ^ r.mFrom.length) (hx : value r.mFrom ≤ x ∧ x ≤ value r.mTo)
    (hxb : lo ≤ x ∧ x ≤ hi) (hyb : lo ≤ y ∧ y ≤ hi) : value r.mFrom ≤ y ∧ y ≤ value r.mTo := by
  by_contra hout
  rcases Nat.lt_or_ge (value r.mTo) y with hlt | hge
  · obtain ⟨a, hlen, hval⟩ := exists_value r.mFrom.length (value r.mTo + 1) (by omega)
    exact next_mem_of_covered h hr (hcov a hlen (by omega) (by omega)) hlen (.inl hval)
  · obtain ⟨a, hlen, hval⟩ := exists_value r.mFrom.length (value r.mFrom - 1) (by omega)
    exact next_mem_of_covered h hr (hcov a hlen (by omega) (by omega)) hlen (.inr (by omega))

/-- **A subnet begins with a mapped address** iff the set is cut there. -/
theorem exists_mapped_iff (h : ranges.Good) (hs : SplitInto ranges subnets) :
    (∃ s ∈ subnets, isIPv4Mapped s.mFrom = true) ↔ CutsAtMapped (IPRangeSet.covered ranges) := by
  constructor
  · rintro ⟨s, hmem, hm⟩
    obtain ⟨r, hr, b, hsub⟩ := hs.subnet s hmem
    have hvalid := h.valid r hr
    obtain ⟨h16, hvalue⟩ := isIPv4Mapped_iff.mp hm
    have hlen : r.mFrom.length = 16 := hsub.block.length_from.symm.trans h16
    have hbits := bits_le_of_mapped hsub.block hsub.aligned hm
    have hfirst := hsub.block.first
    have hfrom : s.mFrom ∈ s.addresses := by
      rw [hsub.block.mem_addresses, hfirst]
      exact ⟨hsub.block.length_from, le_rfl, Nat.lt_add_of_pos_right (Nat.two_pow_pos _)⟩
    have hcovered : s.mFrom ∈ IPRangeSet.covered ranges := hs.covered ▸ ⟨s, hmem, hfrom⟩
    refine ⟨⟨s.mFrom, hcovered, hm⟩, ?_⟩
    by_contra hall
    push Not at hall
    -- the subnet around `s` is inside the larger block, so it is inside `r`
    obtain ⟨x, hx, hout⟩ := hsub.maximal
    have hupper : x / 2 ^ 33 = b.base / 2 ^ 33 := by
      have hparent := (mem_iff_clearLow (b := b.parent) (dvd_clearLow _ _)).mp hx
      exact clearLow_eq_iff.mp (clearLow_mono (show b.bits + 1 ≤ 33 by omega) hparent)
    rw [hfirst] at hvalue
    refine hout (mem_range_of_between h hr (x := b.base) (0x7fff * 2 ^ 33)
      (0x7fff * 2 ^ 33 + 2 ^ 33 - 1) ?_ ?_ (hsub.inside b.base ?_) ?_ ?_)
    · intro a halen h1 h2
      exact hall a (mem_networkOf_mappedBase.mpr ⟨halen.trans hlen, by omega⟩)
    · rw [hlen]
      norm_num
    · exact ⟨le_rfl, Nat.lt_add_of_pos_right (Nat.two_pow_pos _)⟩
    · omega
    · omega
  · rintro ⟨⟨a, ha, hm⟩, c, hc, hout⟩
    rw [← hs.covered] at ha
    obtain ⟨s, hmem, ha⟩ := ha
    obtain ⟨r, hr, b, hsub⟩ := hs.subnet s hmem
    refine ⟨s, hmem, ?_⟩
    obtain ⟨h16, hvalue⟩ := isIPv4Mapped_iff.mp hm
    obtain ⟨hlen, hblock⟩ := hsub.block.mem_addresses.mp ha
    rw [isIPv4Mapped_iff, hsub.block.first, hsub.block.length_from]
    rw [mem_iff_clearLow hsub.aligned] at hblock
    rcases Nat.lt_or_ge 32 b.bits with hlt | hge
    · -- a block this large has all of `::fffe:0:0/95`
      obtain ⟨hclen, hcvalue⟩ := mem_networkOf_mappedBase.mp hc
      refine absurd (hs.covered ▸ ⟨s, hmem, hsub.block.mem_addresses.mpr ⟨?_, ?_⟩⟩) hout
      · omega
      · rw [mem_iff_clearLow hsub.aligned, ← hblock]
        exact clearLow_mono (show 33 ≤ b.bits from hlt) (clearLow_eq_iff.mpr (by omega))
    · refine ⟨by omega, ?_⟩
      rw [← hblock, ← hvalue]
      exact clearLow_eq_iff.mp (clearLow_clearLow hge _)

/-- Without a cut the routes are the subnets. -/
theorem addRoutes_of_not_cuts (h : ranges.Good)
    (hcut : ¬ CutsAtMapped (IPRangeSet.covered ranges)) :
    ∃ built, addRoutes ranges = some built ∧
      (∀ addr bits, .addRoute addr bits ∈ built →
        bits ≤ addr.bytes.length * 8 ∧ 2 ^ (addr.bytes.length * 8 - bits) ∣ value addr.bytes ∧
          addr.bytes ∈ IPRangeSet.covered ranges) ∧
      ∀ a, (∃ addr bits, .addRoute addr bits ∈ built ∧ a ∈ networkOf addr.bytes bits) ↔
        a ∈ IPRangeSet.covered ranges := by
  obtain ⟨subnets, built, hs, hbuilt, hmem⟩ := addRoutes_eq h
  have hplain : ∀ s ∈ subnets, isIPv4Mapped s.mFrom = false := fun s hs' =>
    Bool.eq_false_of_not_eq_true fun hm => hcut ((exists_mapped_iff h hs).mp ⟨s, hs', hm⟩)
  -- the route of a subnet has the addresses of the subnet
  have hroute : ∀ s ∈ subnets, ∃ addr bits, s.network = some (addr, bits) ∧
      bits ≤ addr.bytes.length * 8 ∧ 2 ^ (addr.bytes.length * 8 - bits) ∣ value addr.bytes ∧
        addr.bytes ∈ s.addresses ∧ s.addresses = networkOf addr.bytes bits := by
    intro s hs'
    obtain ⟨addr, b, r, -, hsub, hnetwork, -, hbytes⟩ := exists_network h hs hs'
    obtain hbytes := hbytes (hplain s hs')
    have hlen := hsub.block.length_from
    have hle := hsub.bits_le
    refine ⟨addr, _, hnetwork, ?_, ?_, ?_, ?_⟩ <;> rw [hbytes]
    · omega
    · rw [hlen, show r.mFrom.length * 8 - (r.mFrom.length * 8 - b.bits) = b.bits by omega,
        hsub.block.first]
      exact hsub.aligned
    · rw [hsub.block.mem_addresses, hsub.block.first]
      exact ⟨hlen, le_rfl, Nat.lt_add_of_pos_right (Nat.two_pow_pos _)⟩
    · exact hsub.block.addresses_eq hsub.aligned hle
  refine ⟨built, hbuilt, fun addr bits hcall => ?_, fun a => ?_⟩
  · obtain ⟨s, hs', network, hnetwork, heq⟩ := (hmem _).mp hcall
    obtain ⟨rfl, rfl⟩ := BuilderCall.addRoute.inj heq
    obtain ⟨addr', bits', hnetwork', h1, h2, h3, -⟩ := hroute s hs'
    obtain rfl := Option.some_injective _ (hnetwork.symm.trans hnetwork')
    exact ⟨h1, h2, hs.covered ▸ ⟨s, hs', h3⟩⟩
  · rw [← hs.covered]
    constructor
    · rintro ⟨addr, bits, hcall, ha⟩
      obtain ⟨s, hs', network, hnetwork, heq⟩ := (hmem _).mp hcall
      obtain ⟨rfl, rfl⟩ := BuilderCall.addRoute.inj heq
      obtain ⟨addr', bits', hnetwork', -, -, -, haddresses⟩ := hroute s hs'
      obtain rfl := Option.some_injective _ (hnetwork.symm.trans hnetwork')
      exact ⟨s, hs', haddresses ▸ ha⟩
    · rintro ⟨s, hs', ha⟩
      obtain ⟨addr, bits, hnetwork, -, -, -, haddresses⟩ := hroute s hs'
      exact ⟨addr, bits, (hmem _).mpr ⟨s, hs', _, hnetwork, rfl⟩, haddresses ▸ ha⟩

/-- With a cut some route is an IPv4 address with a prefix of an IPv6 one. -/
theorem addRoutes_of_cuts (h : ranges.Good) (hcut : CutsAtMapped (IPRangeSet.covered ranges)) :
    ∃ built, addRoutes ranges = some built ∧
      ∃ addr bits, .addRoute addr bits ∈ built ∧ addr.bytes.length * 8 < bits := by
  obtain ⟨subnets, built, hs, hbuilt, hmem⟩ := addRoutes_eq h
  obtain ⟨s, hs', hm⟩ := (exists_mapped_iff h hs).mpr hcut
  obtain ⟨addr, b, r, -, hsub, hnetwork, hbytes, -⟩ := exists_network h hs hs'
  refine ⟨built, hbuilt, addr, _, (hmem _).mpr ⟨s, hs', _, hnetwork, rfl⟩, ?_⟩
  have hbits := bits_le_of_mapped hsub.block hsub.aligned hm
  have hlen := hsub.block.length_from
  rw [(isIPv4Mapped_iff.mp hm).1] at hlen
  rw [hbytes hm]
  dsimp only
  omega

/-! ## The routes of a family -/

section

variable {getByName : Text → Option InetAddress} {profile : Profile}
  {calls : List BuilderCache.Call} {cache : BuilderCache} {f : Family} {a : Bytes}

theorem length_of_mem_configured (h : a ∈ configured getByName profile calls f) :
    a.length = f.length := by
  obtain ⟨h, -⟩ := h
  split_ifs at h
  · exact h.2
  · obtain ⟨address, p, addr, -, -, hfam, -, -, ha⟩ := h
    exact ha.1.trans (InetAddress.family_eq.mp hfam)

/-- IPv4 subnets are not cut. -/
theorem not_cutsAtMapped_inet : ¬ CutsAtMapped (configured getByName profile calls .inet) := by
  rintro ⟨⟨a, ha, hm⟩, -⟩
  have h4 := length_of_mem_configured ha
  have h16 := (isIPv4Mapped_iff.mp hm).1
  rw [h4] at h16
  cases h16

/-- The ranges of a family that was seen and is not blocked. -/
theorem Collected.applyFamily (h : Collected getByName profile calls cache) (sdk : ℕ)
    (hseen : Seen getByName calls f) (hblock : ¬ Blocks profile f) :
    ∃ ranges : IPRangeSet, ranges.Good ∧
      IPRangeSet.covered ranges = configured getByName profile calls f ∧
        cache.applyFamily sdk f = addRoutes ranges := by
  obtain ⟨excluded, hexc, hrep⟩ := h.excluded
  rw [Blocks, not_not, ← h.flag] at hblock
  have hinc := h.included f
  have hpos : 0 < (cache.mIncludedSubnets f).length ↔
      ∃ r ∈ named getByName profile.includedSubnets, r.mFrom.length = f.length := by
    rw [length_pos_iff hinc]
    constructor
    · rintro ⟨a, ⟨r, hr, ha⟩, hlen⟩
      exact ⟨r, hr, ha.1.symm.trans hlen⟩
    · rintro ⟨r, hr, hlen⟩
      exact ⟨r.mFrom, ⟨r, hr, (plain_of_named hr).valid.mFrom_mem⟩, hlen⟩
  rw [BuilderCache.applyFamily, if_pos hblock, if_pos ((h.seen f).mpr hseen), hexc]
  obtain ⟨base, hbase, hgood, hcov⟩ : ∃ base : IPRangeSet,
      (if 0 < (cache.mIncludedSubnets f).length then
          IPRangeSet.addAll [] (cache.mIncludedSubnets f)
        else IPRangeSet.addAll [] (cache.mRoutes f)) = base ∧ base.Good ∧
      ∀ a, a ∈ IPRangeSet.covered base ↔
        if ∃ r ∈ named getByName profile.includedSubnets, r.mFrom.length = f.length then
          a ∈ IPRangeSet.covered (named getByName profile.includedSubnets) ∧ a.length = f.length
        else a ∈ routed getByName calls f := by
    by_cases hany : 0 < (cache.mIncludedSubnets f).length
    · obtain ⟨hgood, hcov⟩ := IPRangeSet.Represents.nil.addAll hinc.1.valid
      refine ⟨_, if_pos hany, hgood, fun a => ?_⟩
      rw [hcov, Set.empty_union, hinc.2, if_pos (hpos.mp hany)]
      rfl
    · obtain ⟨hgood, hcov⟩ := IPRangeSet.Represents.nil.addAll (h.valid f)
      refine ⟨_, if_neg hany, hgood, fun a => ?_⟩
      rw [hcov, Set.empty_union, h.routes, if_neg (mt hpos.mpr hany)]
  obtain ⟨hgood', hcov'⟩ := IPRangeSet.Represents.removeAll ⟨hgood, rfl⟩ hrep
  refine ⟨base.removeAll excluded, hgood', ?_, ?_⟩
  · rw [hcov']
    ext a
    exact and_congr_left fun _ => hcov a
  · rw [← hbase]
    rfl

/-- The builder gets proper subnets of the family, and exactly the addresses wanted. -/
structure FamilyExactly (getByName : Text → Option InetAddress) (profile : Profile)
    (calls : List BuilderCache.Call) (f : Family) (built : List BuilderCall) : Prop where
  proper : ∀ addr bits, .addRoute addr bits ∈ built →
    bits ≤ addr.bytes.length * 8 ∧ 2 ^ (addr.bytes.length * 8 - bits) ∣ value addr.bytes
  family : ∀ addr bits, .addRoute addr bits ∈ built → addr.family = f ∧ Seen getByName calls f
  union : Seen getByName calls f → ∀ a : Bytes,
    (∃ addr bits, .addRoute addr bits ∈ built ∧ a ∈ networkOf addr.bytes bits) ↔
      a ∈ wanted getByName profile calls f

/-- A family whose set is cut, so that a route is lost. -/
def Cut (getByName : Text → Option InetAddress) (profile : Profile)
    (calls : List BuilderCache.Call) (f : Family) : Prop :=
  Seen getByName calls f ∧ ¬ Blocks profile f ∧
    CutsAtMapped (configured getByName profile calls f)

theorem anyAddress_spec (f : Family) : (BuilderCache.anyAddress f).family = f ∧
    value (BuilderCache.anyAddress f).bytes = 0 ∧
      ∀ a : Bytes, a ∈ networkOf (BuilderCache.anyAddress f).bytes 0 ↔ a.length = f.length := by
  have hlen : (BuilderCache.anyAddress f).bytes.length = f.length := by cases f <;> rfl
  have hzero : value (BuilderCache.anyAddress f).bytes = 0 := by
    cases f <;> exact value_replicate_zero _
  refine ⟨InetAddress.family_eq.mpr hlen, hzero, fun a => ?_⟩
  rw [networkOf, Set.mem_ofPred_eq, hlen, hzero, Nat.sub_zero, Nat.zero_div]
  refine and_iff_left_of_imp fun ha => Nat.div_eq_of_lt ?_
  rw [two_pow_mul_eight, ← ha]
  exact value_lt a

theorem Collected.familyExactly (h : Collected getByName profile calls cache) (sdk : ℕ)
    (hcut : ¬ Cut getByName profile calls f) :
    ∃ built, cache.applyFamily sdk f = some built ∧
      FamilyExactly getByName profile calls f built := by
  by_cases hseen : Seen getByName calls f
  · by_cases hblock : Blocks profile f
    · obtain ⟨hfam, hzero, hall⟩ := anyAddress_spec f
      refine ⟨[.addRoute (BuilderCache.anyAddress f) 0], ?_, ?_, ?_, ?_⟩
      · rw [BuilderCache.applyFamily, h.flag, if_neg hblock, if_pos ((h.seen f).mpr hseen)]
      · intro addr bits hcall
        obtain ⟨rfl, rfl⟩ := BuilderCall.addRoute.inj (List.mem_singleton.mp hcall)
        exact ⟨Nat.zero_le _, by rw [hzero]; exact dvd_zero _⟩
      · intro addr bits hcall
        obtain ⟨rfl, rfl⟩ := BuilderCall.addRoute.inj (List.mem_singleton.mp hcall)
        exact ⟨hfam, hseen⟩
      · intro _ a
        constructor
        · rintro ⟨addr, bits, hcall, ha⟩
          obtain ⟨rfl, rfl⟩ := BuilderCall.addRoute.inj (List.mem_singleton.mp hcall)
          exact .inl ⟨hblock, (hall a).mp ha⟩
        · rintro (⟨-, ha⟩ | ⟨hno, -⟩)
          · exact ⟨_, 0, by simp, (hall a).mpr ha⟩
          · exact absurd hblock hno
    · obtain ⟨ranges, hgood, hcov, heq⟩ := h.applyFamily sdk hseen hblock
      obtain ⟨built, hbuilt, hproper, hunion⟩ := addRoutes_of_not_cuts hgood fun hc =>
        hcut ⟨hseen, hblock, hcov ▸ hc⟩
      refine ⟨built, heq.trans hbuilt, ?_, ?_, ?_⟩
      · exact fun addr bits hcall => ⟨(hproper addr bits hcall).1, (hproper addr bits hcall).2.1⟩
      · intro addr bits hcall
        have := (hproper addr bits hcall).2.2
        rw [hcov] at this
        exact ⟨InetAddress.family_eq.mpr (length_of_mem_configured this), hseen⟩
      · intro _ a
        rw [hunion, hcov]
        exact ⟨fun ha => .inr ⟨hblock, ha⟩, fun ha => ha.elim (fun hb => absurd hb.1 hblock) And.right⟩
  · have hno : cache.mSeen f = false := Bool.eq_false_of_not_eq_true (mt (h.seen f).mp hseen)
    -- nothing is routed for a family that was not seen
    have hempty : ∃ built, cache.applyFamily sdk f = some built ∧
        ∀ addr bits, .addRoute addr bits ∉ built := by
      rw [BuilderCache.applyFamily, hno]
      simp only [Bool.false_eq_true, if_false]
      split_ifs
      · exact ⟨_, rfl, by simp⟩
      · exact ⟨_, rfl, by simp⟩
      · exact ⟨_, rfl, by simp⟩
    obtain ⟨built, hbuilt, hnone⟩ := hempty
    exact ⟨built, hbuilt, fun addr bits hcall => absurd hcall (hnone addr bits),
      fun addr bits hcall => absurd hcall (hnone addr bits), fun hs => absurd hs hseen⟩

theorem Collected.exists_improper (h : Collected getByName profile calls cache) (sdk : ℕ)
    (hcut : Cut getByName profile calls f) :
    ∃ built, cache.applyFamily sdk f = some built ∧
      ∃ addr bits, .addRoute addr bits ∈ built ∧ addr.bytes.length * 8 < bits := by
  obtain ⟨hseen, hblock, hcut⟩ := hcut
  obtain ⟨ranges, hgood, hcov, heq⟩ := h.applyFamily sdk hseen hblock
  obtain ⟨built, hbuilt, himproper⟩ := addRoutes_of_cuts hgood (hcov ▸ hcut)
  exact ⟨built, heq.trans hbuilt, himproper⟩

/-! ## The routes of the cache -/

/-- The routes of `applyData` are those of the two families. -/
theorem Collected.applyData (h : Collected getByName profile calls cache) {sdk : ℕ}
    {inet inet6 : List BuilderCall} (h4 : cache.applyFamily sdk .inet = some inet)
    (h6 : cache.applyFamily sdk .inet6 = some inet6) :
    ∃ built, cache.applyData sdk = some built ∧ ∀ addr bits,
      .addRoute addr bits ∈ built ↔ .addRoute addr bits ∈ inet ∨ .addRoute addr bits ∈ inet6 := by
  obtain ⟨addresses, haddresses, -⟩ := exists_mapM h.addresses
  refine ⟨_, by rw [BuilderCache.applyData, haddresses, h4, h6]; rfl, fun addr bits => ?_⟩
  simp

variable {sdk : ℕ}

/-- What the two families get is what the builder gets. -/
theorem routesExactly_of_families {built inet inet6 : List BuilderCall}
    (h4 : FamilyExactly getByName profile calls .inet inet)
    (h6 : FamilyExactly getByName profile calls .inet6 inet6)
    (hmem : ∀ addr bits, .addRoute addr bits ∈ built ↔
      .addRoute addr bits ∈ inet ∨ .addRoute addr bits ∈ inet6) :
    RoutesExactly getByName profile calls built := by
  refine ⟨fun addr bits hcall => ?_, fun addr bits hcall => ?_, fun f hseen a hlen => ?_⟩
  · exact ((hmem addr bits).mp hcall).elim (h4.proper addr bits) (h6.proper addr bits)
  · rcases (hmem addr bits).mp hcall with hcall | hcall
    · obtain ⟨hfam, hseen⟩ := h4.family addr bits hcall
      rwa [hfam]
    · obtain ⟨hfam, hseen⟩ := h6.family addr bits hcall
      rwa [hfam]
  · -- a subnet of the other family has addresses of another length
    have hother : ∀ {g : Family} {addr : InetAddress} {bits : ℕ}, addr.family = g →
        a ∈ networkOf addr.bytes bits → g = f := fun hfam ha =>
      Family.length_injective ((InetAddress.family_eq.mp hfam).symm.trans (ha.1.symm.trans hlen))
    have hpick : (∃ addr bits, .addRoute addr bits ∈ built ∧ a ∈ networkOf addr.bytes bits) ↔
        ∃ addr bits, .addRoute addr bits ∈ (if f = .inet then inet else inet6) ∧
          a ∈ networkOf addr.bytes bits := by
      constructor
      · rintro ⟨addr, bits, hcall, ha⟩
        refine ⟨addr, bits, ?_, ha⟩
        rcases (hmem addr bits).mp hcall with hcall | hcall
        · obtain rfl := hother (h4.family addr bits hcall).1 ha
          exact hcall
        · obtain rfl := hother (h6.family addr bits hcall).1 ha
          exact hcall
      · rintro ⟨addr, bits, hcall, ha⟩
        refine ⟨addr, bits, (hmem addr bits).mpr ?_, ha⟩
        cases f
        · exact .inl hcall
        · exact .inr hcall
    rw [hpick]
    cases f
    · exact h4.union hseen a
    · exact h6.union hseen a

theorem not_routesExactly_of_cut (h : Collected getByName profile calls cache)
    (hcut : Cut getByName profile calls .inet6) {built : List BuilderCall}
    (hbuilt : cache.applyData sdk = some built) : ¬ RoutesExactly getByName profile calls built := by
  intro hexact
  obtain ⟨inet, h4, -⟩ := h.familyExactly (f := .inet) sdk fun hc => not_cutsAtMapped_inet hc.2.2
  obtain ⟨inet6, h6, addr, bits, hcall, hlt⟩ := h.exists_improper sdk hcut
  obtain ⟨built', hbuilt', hmem⟩ := h.applyData h4 h6
  obtain rfl := Option.some_injective _ (hbuilt.symm.trans hbuilt')
  have := (hexact.proper addr bits ((hmem addr bits).mpr (.inr hcall))).1
  omega

/-- **Split tunnelling.**  For subnets that `fromString` accepts and any calls, the builder gets
exactly the configured addresses of each family that was seen, as proper subnets, iff the IPv6 addresses that are
to be routed are not cut at the mapped ones. -/
theorem splitTunnel_iff (getByName : Text → Option InetAddress) (sdk : ℕ) (profile : Profile)
    (calls : List BuilderCache.Call)
    (hinc : IPRangeSet.fromString getByName profile.includedSubnets ≠ none)
    (hexc : IPRangeSet.fromString getByName profile.excludedSubnets ≠ none) :
    (∃ cache built, BuilderCache.ofProfile getByName profile = some cache ∧
      (run (BuilderCache.step getByName) cache calls).applyData sdk = some built ∧
        RoutesExactly getByName profile calls built) ↔
      ¬ (Seen getByName calls .inet6 ∧ ¬ Blocks profile .inet6 ∧
        CutsAtMapped (configured getByName profile calls .inet6)) := by
  obtain ⟨cache, hcache, hcollected⟩ := collected_ofProfile hinc hexc
  have hrun := hcollected.run calls
  constructor
  · rintro ⟨cache', built, hcache', hbuilt, hexact⟩ hcut
    obtain rfl := Option.some_injective _ (hcache.symm.trans hcache')
    exact not_routesExactly_of_cut hrun hcut hbuilt hexact
  · intro hcut
    obtain ⟨inet, h4, hexact4⟩ := hrun.familyExactly (f := .inet) sdk fun hc =>
      not_cutsAtMapped_inet hc.2.2
    obtain ⟨inet6, h6, hexact6⟩ := hrun.familyExactly (f := .inet6) sdk hcut
    obtain ⟨built, hbuilt, hmem⟩ := hrun.applyData h4 h6
    exact ⟨cache, built, hcache, hbuilt, routesExactly_of_families hexact4 hexact6 hmem⟩

/-! ## Two profiles -/

/-- An address as the resolver returns it. -/
def address4 (a b c d : UInt8) : InetAddress := ⟨[a, b, c, d], .inl rfl⟩

/-- The names of the two profiles below. -/
def sampleHosts (name : Text) : Option InetAddress :=
  if name = "10.0.0.1".toList then some (address4 10 0 0 1)
  else if name = "10.0.0.0".toList then some (address4 10 0 0 0)
  else if name = "::".toList then some (BuilderCache.anyAddress .inet6)
  else if name = "::fffe:ffff:ffff".toList then
    some ⟨[0, 0, 0, 0, 0, 0, 0, 0, 0, 0, 0xff, 0xfe, 0xff, 0xff, 0xff, 0xff], .inr ⟨rfl, rfl⟩⟩
  else none

theorem fromString_single {getByName : Text → Option InetAddress} {range : Text}
    (hsplit : splitWhitespace range = [range]) (h : (IPRange.ofText getByName range).isSome = true) :
    IPRangeSet.fromString getByName (some range) ≠ none := by
  obtain ⟨r, hr⟩ := Option.isSome_iff_exists.mp h
  rw [IPRangeSet.fromString, hsplit, List.foldlM_cons, hr]
  simp

/-- A network without one of its addresses. -/
def tenWithoutOne : Profile := ⟨some "10.0.0.0/8".toList, some "10.0.0.1/32".toList, none, none⟩

/-- The subnets of the profile, and the announcement of an IPv4 network. -/
theorem splitTunnel_announced :
    ∃ cache built, BuilderCache.ofProfile sampleHosts tenWithoutOne = some cache ∧
      (run (BuilderCache.step sampleHosts) cache
        [.addAddress "10.0.0.1".toList 32, .addRoute "10.0.0.0".toList 8]).applyData 30 = some built ∧
      RoutesExactly sampleHosts tenWithoutOne
        [.addAddress "10.0.0.1".toList 32, .addRoute "10.0.0.0".toList 8] built := by
  refine (splitTunnel_iff sampleHosts 30 tenWithoutOne _ (fromString_single (by decide +kernel) (by decide +kernel))
    (fromString_single (by decide +kernel) (by decide +kernel))).mpr ?_
  rintro ⟨⟨name, addr, hname, hfam, hcall⟩, -⟩
  have hten : name = "10.0.0.1".toList := by
    rcases hcall with hcall | ⟨p, hcall, -⟩
    · simp at hcall
    · simp only [List.mem_cons, BuilderCache.Call.addAddress.injEq, reduceCtorEq, List.not_mem_nil,
        or_false] at hcall
      exact hcall.1
  subst hten
  obtain rfl := Option.some_injective _ hname
  revert hfam
  decide

/-- `::fffe:ffff:ffff` -/
def lastExcluded : Bytes := [0, 0, 0, 0, 0, 0, 0, 0, 0, 0, 0xff, 0xfe, 0xff, 0xff, 0xff, 0xff]

/-- `::-::fffe:ffff:ffff` -/
theorem named_excluded : named sampleHosts (some "::-::fffe:ffff:ffff".toList) =
    [⟨List.replicate 16 0, lastExcluded⟩] := by decide +kernel

/-- The first address that `::-::fffe:ffff:ffff` leaves is mapped. -/
theorem splitTunnel_excluded :
    IPRangeSet.fromString sampleHosts none ≠ none ∧
      IPRangeSet.fromString sampleHosts (some "::-::fffe:ffff:ffff".toList) ≠ none ∧
      ¬ ∃ cache built,
        BuilderCache.ofProfile sampleHosts
          ⟨none, some "::-::fffe:ffff:ffff".toList, none, none⟩ = some cache ∧
        (run (BuilderCache.step sampleHosts) cache
          [.recordAddressFamily "::".toList, .addRoute "::".toList 0]).applyData 30 = some built ∧
        RoutesExactly sampleHosts ⟨none, some "::-::fffe:ffff:ffff".toList, none, none⟩
          [.recordAddressFamily "::".toList, .addRoute "::".toList 0] built := by
  have hnone : IPRangeSet.fromString sampleHosts none ≠ none := by simp [IPRangeSet.fromString]
  have hsome : IPRangeSet.fromString sampleHosts (some "::-::fffe:ffff:ffff".toList) ≠ none :=
    fromString_single (by decide +kernel) (by decide +kernel)
  refine ⟨hnone, hsome, ?_⟩
  rintro ⟨cache, built, hcache, hbuilt, hexact⟩
  obtain ⟨cache', hcache', hcollected⟩ := @collected_ofProfile _
    ⟨none, some "::-::fffe:ffff:ffff".toList, none, none⟩ hnone hsome
  obtain rfl := Option.some_injective _ (hcache.symm.trans hcache')
  refine not_routesExactly_of_cut (hcollected.run _) ⟨?_, ?_, ?_, ?_⟩ hbuilt hexact
  · exact ⟨"::".toList, BuilderCache.anyAddress .inet6, rfl, rfl, .inl (by simp)⟩
  · decide
  · -- `::ffff:0:0` is routed
    refine ⟨mappedBase, ⟨?_, ?_⟩, by decide⟩
    · rw [if_neg (by simp [named])]
      exact ⟨"::".toList, 0, BuilderCache.anyAddress .inet6, by simp, rfl, rfl, le_rfl, by decide,
        rfl, by decide +kernel⟩
    · rw [named_excluded]
      rintro ⟨r, hr, -, -, hle⟩
      obtain rfl := List.mem_singleton.mp hr
      revert hle
      decide +kernel
  · -- `::fffe:ffff:ffff` is not
    refine ⟨lastExcluded, ⟨rfl, by decide +kernel⟩, fun hmem => hmem.2 ?_⟩
    rw [named_excluded]
    exact ⟨_, List.mem_singleton_self _, rfl, by decide +kernel, le_rfl⟩

end

end VpnCore.Ranges
