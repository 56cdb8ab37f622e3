import VpnCore.Lib.Endings
import VpnCore.Route.Ipv6Address
import VpnCore.Route.Normalise
import VpnCore.Route.Rounds
import VpnCore.Tun.Isolation
import VpnCore.Tun.Reopen

/-!
# VpnCore.Tun.NetworkRoutes — the routes of the interface are network addresses

A route with bits after its prefix is rejected by the platform.  The IPv4 networks are normalised by the
requests, and the halves of a network begin at its first address; the networks that the
sweep leaves whole are handed over as they were entered.  `addRoutev6` does not normalise.
-/

namespace VpnCore.Tun

open VpnCore.Lib VpnCore.Config VpnCore.Route IpAddress

/-! ## The property -/

/-- The number of four octets. -/
def ipv4Number (t : Text) : ℕ := (t.splitOn '.').foldl (fun n part => 256 * n + digitsValue part) 0

/-- The address of a route has no bits after the prefix. -/
def BuilderCall.IsNetwork : BuilderCall → Prop
  | .addRoute address len =>
    (isIPv4Text address = true → 2 ^ (32 - len).toNat ∣ ipv4Number address) ∧
      ∀ a, Ipv6.Denotes address a → 2 ^ (128 - len).toNat ∣ a
  | _ => True

/-- Addresses and netmasks of four octets, IPv6 networks with a prefix of at most 128 bits. -/
def Request.WellFormed : Request → Prop
  | .setLocalIP localIP netmask _ _ => isIPv4Text localIP = true ∧ isIPv4Text netmask = true
  | .addRoute dest mask _ _ => isIPv4Text dest = true ∧ isIPv4Text mask = true
  | .addRoutev6 network _ _ =>
    ∃ address len, network = address ++ '/' :: decimal len ∧ '/' ∉ address ∧ 0 ≤ len ∧ len ≤ 128
  | _ => True

/-- An IPv6 network for the interface has no bits after its prefix. -/
def Request.Masked : Request → Prop
  | .addRoutev6 network device (.inet6 ip) =>
    isAndroidTunDevice device = true → ∀ address len, network = address ++ '/' :: decimal len →
      '/' ∉ address → 0 ≤ len → 2 ^ (128 - len).toNat ∣ (ofInet6Address ip len true).netAddress
  | _ => True

/-! ## Networks that begin at their address -/

/-- An included network begins at its address; it lies inside the address space, unless its prefix is too
long. -/
structure Sound (v : Bool) (n : IpAddress) : Prop where
  isV4 : n.isV4 = v
  whole : n.included = true → n.netAddress = n.getFirstAddress
  nonneg : n.included = true → 0 ≤ n.netAddress
  inside : n.included = true → n.networkMask ≤ n.width → n.getLastAddress < 2 ^ n.width.toNat

variable {v : Bool} {n m : IpAddress}

theorem sound_excluded (h : n.isV4 = v) (hn : n.included = false) : Sound v n := by
  refine ⟨h, fun hi => ?_, fun hi => ?_, fun hi => ?_⟩ <;> rw [hn] at hi <;> cases hi

theorem first_of_width_le (h : n.width ≤ n.networkMask) : n.getFirstAddress = n.netAddress := by
  have hbits : n.numBits = 0 := by
    rw [width] at h
    rw [numBits]
    omega
  rw [first_eq, block, hbits]
  simp

/-- The halves of a network begin at their addresses. -/
theorem split_netAddress (n : IpAddress) :
    ∀ m ∈ [n.split.1, n.split.2], m.netAddress = m.getFirstAddress := by
  by_cases hw : n.networkMask < n.width
  · obtain ⟨k, -, hl, hr⟩ := split_bits hw
    intro m hm
    rcases List.mem_pair.mp hm with rfl | rfl
    · exact (split_fst_first hw).symm
    · change n.split.1.getLastAddress + 1 = _
      rw [last_eq, first_eq, split_fst_block hw, split_snd_block hw, hl, hr]
      ring
  · intro m hm
    have hmask : m.width ≤ m.networkMask := by
      have hle := not_lt.mp hw
      rcases List.mem_pair.mp hm with rfl | rfl <;>
        exact hle.trans (Int.le_add_one le_rfl)
    exact (first_of_width_le hmask).symm

theorem Sound.split (h : Sound v n) : ∀ m ∈ [n.split.1, n.split.2], Sound v m := by
  intro m hm
  have hsame : m.isV4 = n.isV4 ∧ m.included = n.included ∧ m.networkMask = n.networkMask + 1 := by
    rcases List.mem_pair.mp hm with rfl | rfl <;> exact ⟨rfl, rfl, rfl⟩
  obtain ⟨hv, hi, hmask⟩ := hsame
  have hwidth : m.width = n.width := width_of_isV4 hv
  refine ⟨hv.trans h.isV4, fun _ => split_netAddress n m hm, fun hinc => ?_, fun hinc hle => ?_⟩
  · rw [hi] at hinc
    have hfirst : 0 ≤ n.getFirstAddress := h.whole hinc ▸ h.nonneg hinc
    have hhalf : n.split.1.getFirstAddress = n.getFirstAddress :=
      (split_netAddress n n.split.1 (by simp)).symm
    have hlast := n.split.1.first_le_last
    rcases List.mem_pair.mp hm with rfl | rfl
    · exact hfirst
    · change 0 ≤ n.split.1.getLastAddress + 1
      omega
  · rw [hi] at hinc
    have hw : n.networkMask < n.width := by omega
    have hcover : n.Covers m.getLastAddress := by
      rw [covers_split hw]
      rcases List.mem_pair.mp hm with rfl | rfl
      · exact .inl (covers_last _)
      · exact .inr (covers_last _)
    rw [hwidth]
    exact hcover.2.trans_lt (h.inside hinc hw.le)

/-- A network inside the address space that begins at its address. -/
theorem sound_of_dvd (h : n.isV4 = v) (h0 : 0 ≤ n.netAddress)
    (h1 : n.netAddress < 2 ^ n.width.toNat) (hmask : 0 ≤ n.networkMask)
    (hd : 2 ^ n.numBits ∣ n.netAddress) : Sound v n := by
  have hfirst : n.netAddress = n.getFirstAddress := by
    rw [first_eq, block, Int.ediv_mul_cancel hd]
  refine ⟨h, fun _ => hfirst, fun _ => h0, fun _ hle => ?_⟩
  have hlast : n.getLastAddress = n.netAddress + 2 ^ n.numBits - 1 := by
    rw [last_eq, block, Int.ediv_mul_cancel hd]
  -- the next multiple of the size is still in the address space
  have hbits : n.numBits ≤ n.width.toNat := by
    change (n.width - n.networkMask).toNat ≤ _
    omega
  obtain ⟨q, hq⟩ := hd
  obtain ⟨r, hr⟩ := pow_dvd_pow (2 : ℤ) hbits
  have hpos := pow_pos_two n.numBits
  rw [hq, hr] at h1
  have hqr : q + 1 ≤ r := Int.add_one_le_of_lt (lt_of_mul_lt_mul_left h1 hpos.le)
  have hmul := Int.mul_le_mul_of_nonneg_left hqr hpos.le
  rw [hlast, hq, hr]
  linarith

/-- All networks of a set are sound. -/
def SoundSpace (v : Bool) (s : NetworkSpace) : Prop := ∀ n ∈ s.mIpAddresses, Sound v n

theorem SoundSpace.add {s : NetworkSpace} (h : SoundSpace v s) (hn : Sound v n) :
    SoundSpace v (s.add n) := by
  intro m hm
  rcases mem_treeAdd.mp hm with hm | ⟨rfl, -⟩
  · exact h m hm
  · exact hn

theorem SoundSpace.getPositiveIPList {s : NetworkSpace} (h : SoundSpace v s) {sdk t : ℕ}
    (hsdk : 19 ≤ sdk) {ts : List ℕ} {out : List IpAddress}
    (hout : s.getPositiveIPList sdk t ts = some out) :
    ∀ n ∈ out, Sound v n ∧ n.included = true := by
  simp only [NetworkSpace.getPositiveIPList, if_neg (not_lt.mpr hsdk)] at hout
  obtain ⟨ips, hips, hout⟩ := Option.bind_eq_some_iff.mp hout
  obtain rfl := Option.some.inj hout
  intro n hn
  obtain ⟨hmem, hinc⟩ := List.mem_filter.mp hn
  refine ⟨?_, by simpa using hinc⟩
  simp only [NetworkSpace.generateIPList] at hips
  split at hips
  · obtain rfl := Option.some.inj hips
    exact Sweep.run_forall (fun n => Sound.split) ts _ (Sweep.forall_start h t) n
      (List.mem_append_right _ hmem)
  · cases hips

/-! ## The requests -/

theorem exists_getInt {t : Text} (h : isIPv4Text t = true) :
    ∃ k, getInt t = .ok k ∧ 0 ≤ k ∧ k < 2 ^ 32 := by
  simp only [isIPv4Text, Bool.and_eq_true, beq_iff_eq, List.all_eq_true, decide_eq_true_eq,
    Bool.not_eq_true'] at h
  obtain ⟨hlen, hall⟩ := h
  obtain ⟨p1, p2, p3, p4, hs⟩ : ∃ p1 p2 p3 p4, t.splitOn '.' = [p1, p2, p3, p4] := by
    rcases hs : t.splitOn '.' with _ | ⟨p1, _ | ⟨p2, _ | ⟨p3, _ | ⟨p4, _ | ⟨_, _⟩⟩⟩⟩⟩ <;>
      simp [hs] at hlen
    exact ⟨p1, p2, p3, p4, rfl⟩
  rw [hs] at hall
  have hoctet : ∀ p ∈ [p1, p2, p3, p4], IsOctet p := fun p hp =>
    ⟨List.isEmpty_eq_false_iff.mp (hall p hp).1.1, List.all_eq_true.mpr (hall p hp).1.2,
      (hall p hp).2⟩
  have hle : ∀ p ∈ [p1, p2, p3, p4], digitsValue p ≤ 255 := fun p hp => (hoctet p hp).le
  simp only [List.mem_cons, List.not_mem_nil, or_false, forall_eq_or_imp, forall_eq] at hle
  refine ⟨_, getInt_of_octets hs hoctet, ?_⟩
  rw [quad]
  omega

/-- A normalised network of four octets. -/
theorem SoundSpace.addNormalised {s s' : NetworkSpace} {ip : CIDRIP} {included : Bool}
    (hs : SoundSpace true s) (hip : isIPv4Text ip.mIp = true) (hlen : 0 ≤ ip.len ∧ ip.len ≤ 32)
    (h : (ip.normalise >>= fun r => s.addIP r.1 included) = .ok s') : SoundSpace true s' := by
  obtain ⟨k, hk, h0, h1⟩ := exists_getInt hip
  obtain ⟨ip', changed, hnorm, hlen', hint, -⟩ := normalise_spec hk hlen ⟨h0, h1⟩
  rw [hnorm] at h
  simp only [bind, Except.bind, NetworkSpace.addIP, ofCIDRIP, hint, hlen', pure, Except.pure,
    Except.ok.injEq] at h
  rw [← h]
  have hle := clearLow_le (32 - ip.len).toNat k.toNat
  refine hs.add (sound_of_dvd rfl (Int.natCast_nonneg _) ?_ hlen.1 ?_)
  · change ((clearLow (32 - ip.len).toNat k.toNat : ℕ) : ℤ) < 2 ^ 32
    omega
  · exact Int.natCast_dvd_natCast.mpr (dvd_clearLow (32 - ip.len).toNat k.toNat)

theorem ofMask_range {ip mask : Text} {c : CIDRIP} (hmask : isIPv4Text mask = true)
    (h : CIDRIP.ofMask ip mask = .ok c) : c.mIp = ip ∧ 0 ≤ c.len ∧ c.len ≤ 32 := by
  obtain ⟨k, hk, h0, h1⟩ := exists_getInt hmask
  obtain ⟨len, hlen, hrange⟩ := calculateLenFromMask_range hk h0 h1
  simp only [CIDRIP.ofMask, hlen, bind, Except.bind, pure, Except.pure, Except.ok.injEq] at h
  rw [← h]
  exact ⟨rfl, hrange⟩

variable {dev : Device} {env : Env} {s : Fields}

theorem sound_addRoute {dest mask gateway : Text} {device : Option Text} {s' : NetworkSpace}
    (hs : SoundSpace true s.mRoutes) (hdest : isIPv4Text dest = true)
    (hmask : isIPv4Text mask = true) (h : s.addRoute dest mask gateway device = .ok s') :
    SoundSpace true s' := by
  obtain ⟨route, hroute, h⟩ := bind_eq_ok.mp h
  obtain ⟨gatewayIP, -, h⟩ := bind_eq_ok.mp h
  obtain ⟨hip, hlen⟩ := ofMask_range hmask hroute
  cases hlocal : s.mLocalIP with
  | none =>
    rw [hlocal] at h
    exact Except.ok.inj h ▸ hs
  | some mLocalIP =>
    rw [hlocal] at h
    obtain ⟨localNet, -, h⟩ := bind_eq_ok.mp h
    exact hs.addNormalised (hip ▸ hdest) hlen h

theorem localLen_range {c : CIDRIP} {netmask mode : Text} {len : ℤ} (hc : 0 ≤ c.len ∧ c.len ≤ 32)
    (h : localLen c netmask mode = .ok len) : 0 ≤ len ∧ len ≤ 32 := by
  obtain ⟨k, -, h⟩ := bind_eq_ok.mp h
  by_cases hp2p : c.len = 32 ∧ netmask ≠ "255.255.255.255".toList
  · rw [if_pos hp2p] at h
    obtain ⟨i, -, h⟩ := bind_eq_ok.mp h
    have hpair : ∀ p : ℤ × ℤ, p = (if mode = "net30".toList then (30, 4) else (31, 2)) →
        0 ≤ p.1 ∧ p.1 ≤ 32 := by
      rintro p rfl
      split_ifs <;> decide
    have hsmall := hpair _ rfl
    simp only [pure, Except.pure] at h
    split_ifs at h
    · exact Except.ok.inj h ▸ hsmall
    · exact Except.ok.inj h ▸ ⟨by decide, by decide⟩
  · rw [if_neg hp2p] at h
    exact Except.ok.inj h ▸ hc

theorem sound_setLocalIP {localIP netmask mode : Text} {mtu : ℤ} (hs : SoundSpace true s.mRoutes)
    (hip : isIPv4Text localIP = true) (hmask : isIPv4Text netmask = true) :
    SoundSpace true (s.setLocalIP dev localIP netmask mtu mode).mRoutes := by
  rw [Fields.setLocalIP]
  cases hof : CIDRIP.ofMask localIP netmask with
  | error e => exact hs
  | ok c =>
    obtain ⟨hmIp, hlen⟩ := ofMask_range hmask hof
    dsimp only
    cases hlocal : localLen c netmask mode with
    | error e => exact hs
    | ok len =>
      have hrange := localLen_range hlen hlocal
      dsimp only
      cases hroute : addInterfaceRoute dev s.mRoutes { c with len := len } with
      | error e => exact hs
      | ok mRoutes =>
        rw [addInterfaceRoute] at hroute
        split_ifs at hroute
        · exact @SoundSpace.addNormalised _ _ { c with len := len } _ hs (hmIp ▸ hip) hrange hroute
        · exact Except.ok.inj hroute ▸ hs

/-- The bytes of an IPv6 address are a number of 128 bits. -/
theorem sum_bytes (l : List UInt8) : ∀ i, i + l.length ≤ 16 →
    0 ≤ ((l.zipIdx i).map fun (b, i) => (b.toNat : ℤ) * 2 ^ (120 - 8 * i)).sum ∧
      ((l.zipIdx i).map fun (b, i) => (b.toNat : ℤ) * 2 ^ (120 - 8 * i)).sum < 2 ^ (128 - 8 * i) := by
  induction l with
  | nil => exact fun i _ => ⟨le_rfl, pow_pos_two _⟩
  | cons b l ih =>
    intro i hi
    rw [List.length_cons] at hi
    obtain ⟨h0, h1⟩ := ih (i + 1) (by omega)
    have hb : (b.toNat : ℤ) + 1 ≤ 256 := by exact_mod_cast b.toNat_lt
    have hpos := pow_pos_two (120 - 8 * i)
    have hpow : (2 : ℤ) ^ (128 - 8 * i) = 256 * 2 ^ (120 - 8 * i) := by
      rw [show 128 - 8 * i = 8 + (120 - 8 * i) by omega, pow_add]
      norm_num
    have hmul := mul_le_mul_of_nonneg_right hb hpos.le
    rw [show 128 - 8 * (i + 1) = 120 - 8 * i by omega] at h1
    rw [List.zipIdx_cons, List.map_cons, List.sum_cons, hpow]
    dsimp only
    constructor
    · positivity
    · linarith

theorem ofInet6Address_range (ip : Inet6Address) (len : ℤ) (included : Bool) :
    0 ≤ (ofInet6Address ip len included).netAddress ∧
      (ofInet6Address ip len included).netAddress < 2 ^ 128 :=
  sum_bytes ip.toList 0 (by simp)

theorem split_network {address : Text} {len : ℤ} (h : '/' ∉ address) (hlen : 0 ≤ len) :
    Config.split '/' (address ++ '/' :: decimal len) = [address, decimal len] := by
  refine split_pair h (not_mem_decimal hlen (by decide)) ?_
  rw [decimal_of_nonneg hlen]
  exact Nat.toDigits_ne_nil

theorem sound_addRouteTo6 {s' s'' : NetworkSpace} {network : Text} {included : Bool}
    {resolve : Text → Resolved} (hs : SoundSpace false s')
    (hmasked : included = true → ∃ address len, network = address ++ '/' :: decimal len ∧
      '/' ∉ address ∧ (0 ≤ len ∧ len ≤ 128) ∧
      ∀ ip, resolve address = .inet6 ip →
        2 ^ (128 - len).toNat ∣ (ofInet6Address ip len true).netAddress)
    (h : addRouteTo6 s' network included resolve = .ok s'') : SoundSpace false s'' := by
  obtain ⟨first, hfirst, h⟩ := bind_eq_ok.mp h
  cases hres : resolve first with
  | unknownHost =>
    rw [hres] at h
    exact Except.ok.inj h ▸ hs
  | inet4 =>
    rw [hres] at h
    cases h
  | inet6 ip =>
    rw [hres] at h
    obtain ⟨second, hsecond, h⟩ := bind_eq_ok.mp h
    obtain ⟨mask, hmask, h⟩ := bind_eq_ok.mp h
    obtain rfl := Except.ok.inj h
    refine hs.add ?_
    cases hinc : included with
    | false => exact sound_excluded rfl rfl
    | true =>
      obtain ⟨address, len, rfl, hfree, hlen, hd⟩ := hmasked hinc
      rw [split_network hfree hlen.1] at hfirst hsecond
      obtain rfl := Except.ok.inj hfirst
      obtain rfl := Except.ok.inj hsecond
      rw [parseInt, parseNumber_decimal (by norm_num; omega) (by norm_num; omega)] at hmask
      obtain rfl := Except.ok.inj hmask
      obtain ⟨h0, h1⟩ := ofInet6Address_range ip len true
      exact sound_of_dvd rfl h0 h1 hlen.1 (hd ip hres)

/-- Both sets of routes are sound. -/
structure SoundFields (s : Fields) : Prop where
  routes : SoundSpace true s.mRoutes
  routes6 : SoundSpace false s.mRoutesv6

theorem SoundFields.apply (hs : SoundFields s) {r : Request} (hr : r.WellFormed) (hm : r.Masked) :
    SoundFields (r.apply dev s) := by
  cases r with
  | setLocalIP localIP netmask mtu mode =>
    refine ⟨sound_setLocalIP hs.routes hr.1 hr.2, ?_⟩
    have hsame : (s.setLocalIP dev localIP netmask mtu mode).mRoutesv6 = s.mRoutesv6 := by
      rw [Fields.setLocalIP]
      cases CIDRIP.ofMask localIP netmask with
      | error e => rfl
      | ok c =>
        dsimp only
        cases localLen c netmask mode with
        | error e => rfl
        | ok len =>
          dsimp only
          cases addInterfaceRoute dev s.mRoutes { c with len := len } <;> rfl
    exact hsame ▸ hs.routes6
  | setLocalIPv6 ipv6Addr => exact ⟨hs.routes, hs.routes6⟩
  | setMtu mtu => exact ⟨hs.routes, hs.routes6⟩
  | addRoute dest mask gateway device =>
    refine ⟨?_, hs.routes6⟩
    change SoundSpace true ((s.addRoute dest mask gateway device).toOption.getD s.mRoutes)
    cases hroute : s.addRoute dest mask gateway device with
    | error e => exact hs.routes
    | ok s' => exact sound_addRoute hs.routes hr.1 hr.2 hroute
  | addRoutev6 network device resolved =>
    refine ⟨hs.routes, ?_⟩
    change SoundSpace false ((addRouteTo6 s.mRoutesv6 network (isAndroidTunDevice device)
      fun _ => resolved).toOption.getD s.mRoutesv6)
    cases hroute : addRouteTo6 s.mRoutesv6 network (isAndroidTunDevice device) fun _ => resolved with
    | error e => exact hs.routes6
    | ok s' =>
      refine sound_addRouteTo6 hs.routes6 (fun hinc => ?_) hroute
      obtain ⟨address, len, hnetwork, hfree, hlen⟩ := hr
      refine ⟨address, len, hnetwork, hfree, hlen, fun ip hip => ?_⟩
      subst hip
      exact hm hinc address len hnetwork hfree hlen.1
  | addDNS dns => exact ⟨hs.routes, hs.routes6⟩
  | setDomain domain => exact ⟨hs.routes, hs.routes6⟩

theorem SoundFields.request (hs : SoundFields s) {requests : List Request}
    (hr : ∀ r ∈ requests, r.WellFormed ∧ r.Masked) : SoundFields (s.request dev requests) := by
  induction requests generalizing s with
  | nil => exact hs
  | cons r requests ih =>
    exact ih (hs.apply (hr r (by simp)).1 (hr r (by simp)).2)
      fun r' hr' => hr r' (List.mem_cons_of_mem r hr')

/-! ## Opening the interface -/

theorem tryAll_inv {σ α : Type*} {f : σ → α → Except Thrown σ} {I : σ → Prop}
    (hstep : ∀ s a s', I s → f s a = .ok s' → I s') :
    ∀ (l : List α) (s : σ), I s → I (tryAll f s l).1
  | [], _, hs => hs
  | a :: l, s, hs => by
    rw [tryAll]
    cases hf : f s a with
    | error e => exact hs
    | ok s' => exact tryAll_inv hstep l s' (hstep s a s' hs hf)

/-- From Android 4.4 on the local networks are excluded. -/
theorem sound_addLocalNetwork (hsdk : 19 ≤ dev.sdkInt) {ip : CIDRIP} {s s' : NetworkSpace} {net : Text}
    (hs : SoundSpace true s) (h : addLocalNetwork dev ip s net = .ok s') : SoundSpace true s' := by
  obtain ⟨ipAddr, -, h⟩ := bind_eq_ok.mp h
  obtain ⟨second, -, h⟩ := bind_eq_ok.mp h
  obtain ⟨netMask, -, h⟩ := bind_eq_ok.mp h
  have hnew : ¬ (decide (dev.sdkInt < 19) && !dev.mAllowLocalLAN) = true := by
    simp [not_lt.mpr hsdk]
  rw [if_neg hnew] at h
  split_ifs at h
  · exact Except.ok.inj h ▸ hs
  · obtain ⟨n, hn, h⟩ := bind_eq_ok.mp h
    obtain ⟨k, -, hn⟩ := bind_eq_ok.mp hn
    obtain rfl := Except.ok.inj hn
    exact Except.ok.inj h ▸ hs.add (sound_excluded rfl rfl)
  · exact Except.ok.inj h ▸ hs

theorem SoundFields.withLocalNetworks (hs : SoundFields s) (hsdk : 19 ≤ dev.sdkInt) :
    SoundFields (s.withLocalNetworks dev env).1 := by
  rw [Fields.withLocalNetworks]
  cases s.mLocalIP with
  | none => exact hs
  | some ip =>
    have h4 := tryAll_inv (f := addLocalNetwork dev ip)
      (fun _ _ _ hs' hok => sound_addLocalNetwork hsdk hs' hok) env.localNetworks s.mRoutes hs.routes
    have h6 := tryAll_inv (f := fun mRoutesv6 net => addRouteTo6 mRoutesv6 net false env.resolve)
      (fun _ _ _ hs' hok => sound_addRouteTo6 hs' (by simp) hok) env.localNetworks6 s.mRoutesv6
      hs.routes6
    simp only [addLocalNetworksToRoutes]
    rcases htry : tryAll (addLocalNetwork dev ip) s.mRoutes env.localNetworks with ⟨mRoutes, _ | e⟩
    · rw [htry] at h4
      dsimp only
      split_ifs
      · exact ⟨h4, h6⟩
      · exact ⟨h4, hs.routes6⟩
    · rw [htry] at h4
      exact ⟨h4, hs.routes6⟩

/-! ## The texts of the routes -/

theorem dot_mem_getIPv4Address (n : IpAddress) : '.' ∈ n.getIPv4Address := by
  simp [IpAddress.getIPv4Address, dotted]

theorem ipv4Number_dotted {a b c d : ℤ} (h : ∀ x ∈ [a, b, c, d], 0 ≤ x) :
    (ipv4Number (dotted a b c d) : ℤ) = quad a b c d := by
  have hvalue : ∀ x ∈ [a, b, c, d], ((digitsValue (decimal x) : ℕ) : ℤ) = x := by
    intro x hx
    rw [decimal_of_nonneg (h x hx), digitsValue_toDigits, Int.toNat_of_nonneg (h x hx)]
  rw [ipv4Number, splitOn_dotted h, quad]
  have ha := hvalue a (by simp)
  have hb := hvalue b (by simp)
  have hc := hvalue c (by simp)
  have hd := hvalue d (by simp)
  simp only [List.foldl_cons, List.foldl_nil]
  push_cast
  rw [ha, hb, hc, hd]
  ring

/-- The bits after the prefix of a sound network are zero. -/
theorem Sound.dvd (h : Sound v n) (hinc : n.included = true) : 2 ^ n.numBits ∣ n.netAddress := by
  rw [h.whole hinc, first_eq]
  exact dvd_mul_left _ _

theorem Sound.isNetwork4 (h : Sound true n) (hinc : n.included = true) :
    (BuilderCall.addRoute n.getIPv4Address n.networkMask).IsNetwork := by
  refine ⟨fun _ => ?_, fun a ha => absurd (dot_mem_getIPv4Address n) ha.dot_notMem⟩
  have hwidth : n.width = 32 := by rw [width, if_pos h.isV4]
  have hbits : (32 - n.networkMask).toNat = n.numBits := by rw [numBits, if_pos h.isV4]
  by_cases hle : n.networkMask < 32
  · have hlast := h.inside hinc (by omega)
    have hfirst := n.first_le_last
    have hwhole := h.whole hinc
    rw [hwidth] at hlast
    have h1 : n.netAddress < 2 ^ 32 := by
      rw [hwhole]
      exact hfirst.trans_lt hlast
    have h0 := h.nonneg hinc
    have hd := h.dvd hinc
    have hoctets : ∀ x ∈ [n.netAddress / 2 ^ 24, n.netAddress / 2 ^ 16 % 256,
        n.netAddress / 2 ^ 8 % 256, n.netAddress % 256], 0 ≤ x := by
      intro x hx
      simp only [List.mem_cons, List.not_mem_nil, or_false] at hx
      rcases hx with rfl | rfl | rfl | rfl <;> omega
    have hnumber := ipv4Number_dotted hoctets
    rw [← getIPv4Address_eq ⟨h0, h1⟩, show quad (n.netAddress / 2 ^ 24) (n.netAddress / 2 ^ 16 % 256)
      (n.netAddress / 2 ^ 8 % 256) (n.netAddress % 256) = n.netAddress by rw [quad]; omega] at hnumber
    rw [hbits]
    rw [← hnumber] at hd
    exact_mod_cast hd
  · rw [show (32 - n.networkMask).toNat = 0 by omega]
    exact one_dvd _

theorem Sound.isNetwork6 (h : Sound false n) (hinc : n.included = true) :
    (BuilderCall.addRoute n.getIPv6Address n.networkMask).IsNetwork := by
  obtain ⟨a, ha⟩ := Int.eq_ofNat_of_zero_le (h.nonneg hinc)
  have htext := getIPv6Address_eq ha
  refine ⟨fun hv4 => ?_, fun b hb => ?_⟩
  · -- an IPv6 text has no dot
    have hdot := dot_mem_of_isIPv4Text hv4
    rw [htext] at hdot
    obtain hdot | ⟨t, ht, hc⟩ := mem_intercalate hdot
    · exact absurd hdot (by decide)
    · obtain rfl | ⟨g, rfl⟩ := mem_groupTexts ht
      · cases hc
      · exact absurd hc (not_mem_hex (by decide))
  · have hbits : (128 - n.networkMask).toNat = n.numBits := by
      rw [numBits, if_neg (by rw [h.isV4]; decide)]
    have hwidth : n.width = 128 := by rw [width, if_neg (by rw [h.isV4]; decide)]
    by_cases hle : n.networkMask < 128
    · have hlast := h.inside hinc (by omega)
      have hfirst := n.first_le_last
      rw [← h.whole hinc, ha] at hfirst
      rw [hwidth] at hlast
      have h1 : a < 2 ^ 128 := by exact_mod_cast hfirst.trans_lt hlast
      have hd := h.dvd hinc
      rw [ha] at hd
      rw [htext] at hb
      rw [hbits]
      exact dvd_of_denotes_groupTexts h1 (by exact_mod_cast hd) hb
    · rw [show (128 - n.networkMask).toNat = 0 by omega]
      exact one_dvd _

/-! ## The calls of `openTun` -/

theorem Stage.mem_andThen {a b : Stage} {call : BuilderCall} (h : call ∈ (a.andThen b).1) :
    call ∈ a.1 ∨ call ∈ b.1 := by
  rw [Stage.andThen] at h
  cases ha : a.2 with
  | some e =>
    rw [ha] at h
    exact .inl h
  | none =>
    rw [ha] at h
    exact List.mem_append.mp h

/-- The route to a DNS server is a single address. -/
theorem mem_withDnsRoute {routes : List IpAddress} (h : n ∈ withDnsRoute dev s routes) :
    n ∈ routes ∨ n.networkMask = 32 := by
  rw [withDnsRoute] at h
  split at h
  · exact .inl h
  · split_ifs at h
    · split at h
      · exact .inl h
      · next dnsServer hserver =>
        obtain ⟨k, -, hserver⟩ := bind_eq_ok.mp hserver
        split_ifs at h
        · exact .inl h
        · rcases List.mem_append.mp h with h | h
          · exact .inl h
          · rw [List.mem_singleton.mp h, ← Except.ok.inj hserver]
            exact .inr rfl
    · exact .inl h

theorem isNetwork_routes (hs : SoundFields s) (hsdk : 19 ≤ dev.sdkInt) :
    ∀ call ∈ (routes dev env s).1, call.IsNetwork := by
  intro call hcall
  rw [routes] at hcall
  split at hcall
  · next positive4 positive6 h4 h6 =>
    rcases List.mem_append.mp hcall with hcall | hcall
    · obtain ⟨n, hn, rfl⟩ := List.mem_map.mp hcall
      rcases mem_withDnsRoute (List.mem_filter.mp hn).1 with hmem | hmask
      · have hsound := hs.routes.getPositiveIPList hsdk h4 n hmem
        exact hsound.1.isNetwork4 hsound.2
      · refine ⟨fun _ => ?_, fun a ha => absurd (dot_mem_getIPv4Address n) ha.dot_notMem⟩
        rw [hmask]
        exact one_dvd _
    · obtain ⟨n, hn, rfl⟩ := List.mem_map.mp hcall
      have hsound := hs.routes6.getPositiveIPList hsdk h6 n hn
      exact hsound.1.isNetwork6 hsound.2
  · cases hcall

theorem isNetwork_addAddress {address : Text} {len : ℤ} {call : BuilderCall}
    (h : call ∈ (addAddress env address len).1) : call.IsNetwork := by
  rw [List.mem_singleton.mp h]
  trivial

theorem isNetwork_addresses {call : BuilderCall} (h : call ∈ (addresses env s).1) :
    call.IsNetwork := by
  rcases Stage.mem_andThen h with h | h
  · cases hip : s.mLocalIP with
    | none =>
      rw [hip] at h
      cases h
    | some ip =>
      rw [hip] at h
      exact isNetwork_addAddress h
  · cases hip : s.mLocalIPv6 with
    | none =>
      rw [hip] at h
      cases h
    | some ip =>
      rw [hip] at h
      simp only [addAddress6] at h
      split at h
      · exact isNetwork_addAddress h
      · cases h

/-- The other stages add no routes. -/
theorem isNetwork_configure (hs : SoundFields s) (hsdk : 19 ≤ dev.sdkInt) :
    ∀ call ∈ (configure dev env s).1, call.IsNetwork := by
  intro call h
  rcases Stage.mem_andThen h with h | h
  · exact isNetwork_addresses h
  rcases Stage.mem_andThen h with h | h
  · obtain ⟨dns, -, rfl⟩ := List.mem_map.mp h
    trivial
  rcases Stage.mem_andThen h with h | h
  · rw [List.mem_singleton.mp h]
    trivial
  rcases Stage.mem_andThen h with h | h
  · exact isNetwork_routes hs hsdk call h
  rcases Stage.mem_andThen h with h | h
  · cases hdomain : s.mDomain with
    | none =>
      rw [searchDomain, hdomain] at h
      cases h
    | some domain =>
      rw [searchDomain, hdomain] at h
      rw [List.mem_singleton.mp h]
      trivial
  · cases h

/-- **Every route is a network address** if the IPv6 networks of the requests are. -/
theorem openTun_networks (dev : Device) (env : Env) (s : Fields) (requests : List Request)
    (hsdk : 19 ≤ dev.sdkInt) (hs : s.Clear) (hformed : ∀ r ∈ requests, r.WellFormed)
    (hmasked : ∀ r ∈ requests, r.Masked) :
    ∀ call ∈ ((s.request dev requests).openTun dev env).calls, call.IsNetwork := by
  have hclear : SoundFields s :=
    ⟨by rw [hs.routes]; simp [SoundSpace], by rw [hs.routes6]; simp [SoundSpace]⟩
  have hsound : SoundFields (s.request dev requests) :=
    hclear.request fun r hr => ⟨hformed r hr, hmasked r hr⟩
  have hallow : ∀ call ∈ allowAllAFFamilies dev, call.IsNetwork := by
    intro call hcall
    rw [allowAllAFFamilies] at hcall
    split_ifs at hcall
    · rcases List.mem_pair.mp hcall with rfl | rfl <;> trivial
    · cases hcall
  intro call hcall
  rw [openTun_calls_eq] at hcall
  split_ifs at hcall
  · cases hcall
  · exact hallow call hcall
  · exact hallow call hcall
  · rcases List.mem_append.mp hcall with hcall | hcall
    · exact hallow call hcall
    · exact isNetwork_configure (hsound.withLocalNetworks hsdk) hsdk call hcall

/-- 2001:db8:0:0:0:0:0:n -/
def documentationHost (n : UInt8) : Inet6Address :=
  #v[0x20, 1, 0x0d, 0xb8, 0, 0, 0, 0, 0, 0, 0, 0, 0, 0, 0, n]

/-- An interface with a route for either family. -/
def bothFamilies (network : Text) (n : UInt8) : List Request :=
  [.setLocalIP "10.8.0.2".toList "255.255.255.0".toList 1500 "subnet".toList,
    .addRoute "10.9.0.7".toList "255.255.0.0".toList "10.8.0.1".toList none,
    .addRoutev6 network (some "tun0".toList) (.inet6 (documentationHost n))]

theorem openTun_networks_documentation :
    .addRoute "2001:db8::".toList 64 ∈
        ((({} : Fields).request pie (bothFamilies "2001:db8::/64".toList 0)).openTun pie
          { choices := (0, [0, 0]), choices6 := (0, [0]) }).calls ∧
      (BuilderCall.addRoute "2001:db8::".toList 64).IsNetwork := by
  have hcall : .addRoute "2001:db8::".toList 64 ∈
      ((({} : Fields).request pie (bothFamilies "2001:db8::/64".toList 0)).openTun pie
        { choices := (0, [0, 0]), choices6 := (0, [0]) }).calls := by decide +kernel
  refine ⟨hcall, openTun_networks pie _ {} _ (by decide) ⟨rfl, rfl, rfl, rfl, rfl, rfl⟩ ?_ ?_ _ hcall⟩
  · simp only [bothFamilies, List.forall_mem_cons]
    refine ⟨⟨by decide, by decide⟩, ⟨by decide, by decide⟩, ?_, by simp⟩
    exact ⟨"2001:db8::".toList, 64, rfl, by decide, by decide, by decide⟩
  · simp only [bothFamilies, List.forall_mem_cons]
    refine ⟨trivial, trivial, fun _ address len heq hfree hlen => ?_, by simp⟩
    have hparts := split_network hfree hlen
    rw [← heq] at hparts
    have hdigits : decimal 64 = decimal len := by
      have hsplit : Config.split '/' "2001:db8::/64".toList = ["2001:db8::".toList, decimal 64] := rfl
      rw [hsplit] at hparts
      exact (List.cons.inj (List.cons.inj hparts).2).1
    rw [← decimal_inj hdigits]
    decide +kernel

/-- The bits after the prefix reach the builder. -/
theorem openTun_host_bits :
    ∃ call ∈ ((({} : Fields).request pie (bothFamilies "2001:db8::1/64".toList 1)).openTun pie
        { choices := (0, [0, 0]), choices6 := (0, [0]) }).calls,
      call = .addRoute "2001:db8:0:0:0:0:0:1".toList 64 ∧ ¬ call.IsNetwork := by
  refine ⟨.addRoute "2001:db8:0:0:0:0:0:1".toList 64, by decide +kernel, rfl, fun h => ?_⟩
  have hsmall : ∀ n ∈ [0x2001, 0xdb8, 0, 0, 0, 0, 0, 1], n < 65536 := by decide
  have hd := @Ipv6.Denotes.groups ([0x2001, 0xdb8, 0, 0, 0, 0, 0, 1].map (Nat.toDigits 16)) rfl
    (List.forall_mem_map.mpr fun n hn => Ipv6.isGroup_toDigits (hsmall n hn))
  exact absurd (h.2 _ hd) (by decide)

end VpnCore.Tun
