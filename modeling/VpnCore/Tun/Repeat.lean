import VpnCore.Lib.Endings
import VpnCore.Tun.Isolation
import VpnCore.Tun.Reopen

/-!
# VpnCore.Tun.Repeat — the same requests again

The fields are cleared by `openTun`, so that the same requests collect the same configuration once more.  But
`openTun` keeps its text after it added the local networks of the device, and `getTunReopenStatus` compares
before that: every network that `addLocalNetworksToRoutes` adds makes the kept text longer.
-/

namespace VpnCore.Tun

open VpnCore.Lib VpnCore.Config VpnCore.Route

variable {dev : Device} {env : Env} {s f : Fields}

/-! ## The text of a set of networks -/

section

variable {rs : NetworkSpace} {n : IpAddress}

/-- The set has a network with the address and the prefix of `n`, included or not. -/
def Has (rs : NetworkSpace) (n : IpAddress) : Prop := ∃ m ∈ rs.mIpAddresses, n.compareTo m = .eq

instance : Decidable (Has rs n) := inferInstanceAs (Decidable (∃ m ∈ _, _))

theorem add_of_has (h : Has rs n) : rs.add n = rs := by
  rw [NetworkSpace.add, treeAdd, if_pos (by simpa [Has] using h)]

/-- How much the networks of a kind take in the text of the configuration. -/
def joinLength (rs : NetworkSpace) (included : Bool) : ℕ :=
  (join "|".toList ((rs.getNetworks included).map IpAddress.text)).length

theorem length_join (ts : List Text) :
    (join "|".toList ts).length = (ts.map fun t => t.length + 1).sum - 1 := by
  induction ts with
  | nil => rfl
  | cons t ts ih =>
    cases ts with
    | nil => simp [join]
    | cons t' ts =>
      have hcons : join "|".toList (t :: t' :: ts) = t ++ '|' :: join "|".toList (t' :: ts) := by
        simp [join, List.intercalate_cons_cons]
      rw [hcons, List.length_append, List.length_cons, ih]
      simp only [List.map_cons, List.sum_cons]
      omega

theorem text_length_pos (n : IpAddress) : 0 < n.text.length := by
  rw [IpAddress.text, List.length_append, List.length_cons]
  omega

theorem joinLength_eq (rs : NetworkSpace) (included : Bool) :
    joinLength rs included = ((rs.getNetworks included).map fun n => n.text.length + 1).sum - 1 := by
  rw [joinLength, length_join, List.map_map]
  rfl

theorem joinLength_add_le (rs : NetworkSpace) (n : IpAddress) (included : Bool) :
    joinLength rs included ≤ joinLength (rs.add n) included := by
  by_cases h : Has rs n
  · rw [add_of_has h]
  · have hperm : (rs.add n).mIpAddresses.Perm (n :: rs.mIpAddresses) :=
      treeAdd_perm fun z hz heq => h ⟨z, hz, heq⟩
    rw [joinLength_eq, joinLength_eq]
    refine Nat.sub_le_sub_right ?_ 1
    rw [NetworkSpace.getNetworks, NetworkSpace.getNetworks,
      ((hperm.filter _).map _).sum_eq, List.filter_cons]
    split_ifs
    · rw [List.map_cons, List.sum_cons]
      exact Nat.le_add_left _ _
    · exact le_rfl

theorem joinLength_lt_add (h : ¬ Has rs n) :
    joinLength rs n.included < joinLength (rs.add n) n.included := by
  have hperm : (rs.add n).mIpAddresses.Perm (n :: rs.mIpAddresses) :=
    treeAdd_perm fun z hz heq => h ⟨z, hz, heq⟩
  rw [joinLength_eq, joinLength_eq, NetworkSpace.getNetworks, NetworkSpace.getNetworks,
    ((hperm.filter _).map _).sum_eq, List.filter_cons_of_pos (by simp), List.map_cons, List.sum_cons]
  have hpos := text_length_pos n
  omega

def textLength (rs : NetworkSpace) : ℕ := joinLength rs true + joinLength rs false

theorem textLength_le_add (rs : NetworkSpace) (n : IpAddress) : textLength rs ≤ textLength (rs.add n) :=
  Nat.add_le_add (joinLength_add_le rs n true) (joinLength_add_le rs n false)

theorem textLength_lt_add (h : ¬ Has rs n) : textLength rs < textLength (rs.add n) := by
  have hlt := joinLength_lt_add h
  have ht := joinLength_add_le rs n true
  have hf := joinLength_add_le rs n false
  rw [textLength, textLength]
  cases hn : n.included <;> rw [hn] at hlt <;> omega

theorem textLength_le_foldl (ns : List IpAddress) :
    ∀ rs : NetworkSpace, textLength rs ≤ textLength (ns.foldl NetworkSpace.add rs) := by
  induction ns with
  | nil => exact fun _ => le_rfl
  | cons n ns ih => exact fun rs => (textLength_le_add rs n).trans (ih _)

theorem foldl_add_of_has (ns : List IpAddress) (h : ∀ n ∈ ns, Has rs n) :
    ns.foldl NetworkSpace.add rs = rs := by
  induction ns with
  | nil => rfl
  | cons n ns ih =>
    rw [List.forall_mem_cons] at h
    rw [List.foldl_cons, add_of_has h.1]
    exact ih h.2

/-- The text stays as long as it is iff nothing is added. -/
theorem has_of_textLength (ns : List IpAddress) :
    ∀ {rs : NetworkSpace}, textLength (ns.foldl NetworkSpace.add rs) ≤ textLength rs →
      ∀ n ∈ ns, Has rs n := by
  induction ns with
  | nil => simp
  | cons n ns ih =>
    intro rs hle
    rw [List.foldl_cons] at hle
    have hn : Has rs n := by
      by_contra hno
      have hgrow := textLength_le_foldl ns (rs.add n)
      have hlt := textLength_lt_add hno
      omega
    rw [add_of_has hn] at hle
    exact List.forall_mem_cons.mpr ⟨hn, ih hle⟩

end

/-! ## The local networks -/

/-- The networks that a local IPv4 network adds: its halves before Android 4.4 if the LAN is not to be
reached directly, the excluded network from then on if it is. -/
def localNetwork (dev : Device) (mLocalIP : CIDRIP) (net : Text) : Except Thrown (List IpAddress) := do
  let netparts := split '/' net
  let ipAddr ← elementAt netparts 0
  let netMask ← parseInt (← elementAt netparts 1)
  if ipAddr = mLocalIP.mIp then return []
  else if dev.sdkInt < 19 && !dev.mAllowLocalLAN then
    let n ← IpAddress.ofCIDRIP ⟨ipAddr, netMask⟩ true
    return [n.split.1, n.split.2]
  else if 19 ≤ dev.sdkInt && dev.mAllowLocalLAN then
    return [← IpAddress.ofCIDRIP ⟨ipAddr, netMask⟩ false]
  else return []

/-- The networks that a local IPv6 network adds. -/
def localNetwork6 (env : Env) (net : Text) : Except Thrown (List IpAddress) := do
  let v6parts := split '/' net
  match env.resolve (← elementAt v6parts 0) with
  | .unknownHost => return []
  | .inet4 => throw (.runtimeException "ClassCastException".toList)
  | .inet6 ip => return [IpAddress.ofInet6Address ip (← parseInt (← elementAt v6parts 1)) false]

/-- Every network that the local ones add is there. -/
def LanKnown (dev : Device) (env : Env) (s : Fields) : Prop :=
  ∀ ip, s.mLocalIP = some ip →
    (∀ net ∈ env.localNetworks, ∀ ns, localNetwork dev ip net = .ok ns → ∀ n ∈ ns, Has s.mRoutes n) ∧
      (dev.mAllowLocalLAN = true →
        ∀ net ∈ env.localNetworks6, ∀ ns, localNetwork6 env net = .ok ns → ∀ n ∈ ns, Has s.mRoutesv6 n)

theorem addLocalNetwork_eq (mLocalIP : CIDRIP) (rs : NetworkSpace) (net : Text) :
    addLocalNetwork dev mLocalIP rs net =
      localNetwork dev mLocalIP net >>= fun ns => .ok (ns.foldl NetworkSpace.add rs) := by
  rw [addLocalNetwork, localNetwork]
  cases elementAt (split '/' net) 0 with
  | error e => rfl
  | ok ipAddr =>
    cases elementAt (split '/' net) 1 with
    | error e => rfl
    | ok part =>
      simp only [bind, Except.bind, pure, Except.pure]
      cases parseInt part with
      | error e => rfl
      | ok netMask =>
        dsimp only
        split_ifs
        · rfl
        · rw [NetworkSpace.addIPSplit]
          cases IpAddress.ofCIDRIP ⟨ipAddr, netMask⟩ true <;> rfl
        · rw [NetworkSpace.addIP]
          cases IpAddress.ofCIDRIP ⟨ipAddr, netMask⟩ false <;> rfl
        · rfl

theorem addRouteTo6_eq (rs : NetworkSpace) (net : Text) :
    addRouteTo6 rs net false env.resolve =
      localNetwork6 env net >>= fun ns => .ok (ns.foldl NetworkSpace.add rs) := by
  rw [addRouteTo6, localNetwork6]
  cases elementAt (split '/' net) 0 with
  | error e => rfl
  | ok address =>
    simp only [bind, Except.bind, pure, Except.pure]
    cases env.resolve address with
    | unknownHost => rfl
    | inet4 => rfl
    | inet6 ip =>
      cases elementAt (split '/' net) 1 with
      | error e => rfl
      | ok part =>
        dsimp only
        cases parseInt part <;> rfl

/-- A loop that adds what `g` gives for each element adds all of it. -/
theorem tryAll_added {add : NetworkSpace → Text → Except Thrown NetworkSpace}
    {g : Text → Except Thrown (List IpAddress)}
    (hadd : ∀ rs net, add rs net = g net >>= fun ns => .ok (ns.foldl NetworkSpace.add rs)) :
    ∀ (nets : List Text) {rs rs' : NetworkSpace}, tryAll add rs nets = (rs', none) →
      ∃ all : List IpAddress, rs' = all.foldl NetworkSpace.add rs ∧
        ∀ n, n ∈ all ↔ ∃ net ∈ nets, ∃ ns, g net = .ok ns ∧ n ∈ ns
  | [], rs, rs', h => ⟨[], (Prod.mk.inj h).1.symm, by simp⟩
  | net :: nets, rs, rs', h => by
    rw [tryAll, hadd] at h
    cases hg : g net with
    | error e =>
      rw [hg] at h
      cases (Prod.mk.inj h).2
    | ok ns =>
      rw [hg] at h
      obtain ⟨all, hall, hmem⟩ := tryAll_added hadd nets h
      refine ⟨ns ++ all, by rw [List.foldl_append, hall], fun n => ?_⟩
      rw [List.mem_append, hmem, List.exists_mem_cons_iff]
      simp [hg]

/-- What was added to the fields. -/
theorem withLocalNetworks_added {ip : CIDRIP} (hip : s.mLocalIP = some ip)
    (h : (s.withLocalNetworks dev env).2 = none) :
    ∃ all all6 : List IpAddress,
      (s.withLocalNetworks dev env).1 =
        { s with
          mRoutes := all.foldl NetworkSpace.add s.mRoutes
          mRoutesv6 := all6.foldl NetworkSpace.add s.mRoutesv6 } ∧
      (∀ n, n ∈ all ↔ ∃ net ∈ env.localNetworks, ∃ ns, localNetwork dev ip net = .ok ns ∧ n ∈ ns) ∧
      ∀ n, n ∈ all6 ↔ dev.mAllowLocalLAN = true ∧
        ∃ net ∈ env.localNetworks6, ∃ ns, localNetwork6 env net = .ok ns ∧ n ∈ ns := by
  rw [Fields.withLocalNetworks, hip] at h ⊢
  dsimp only [addLocalNetworksToRoutes] at h ⊢
  rcases htry : tryAll (addLocalNetwork dev ip) s.mRoutes env.localNetworks with ⟨rs, _ | e⟩
  · obtain ⟨all, hall, hmem⟩ := tryAll_added (addLocalNetwork_eq ip) _ htry
    rw [htry] at h
    dsimp only at h ⊢
    by_cases hlan : dev.mAllowLocalLAN = true
    · rw [if_pos hlan] at h ⊢
      rcases htry6 : tryAll (fun mRoutesv6 net => addRouteTo6 mRoutesv6 net false env.resolve)
        s.mRoutesv6 env.localNetworks6 with ⟨rs6, _ | e⟩
      · obtain ⟨all6, hall6, hmem6⟩ := tryAll_added addRouteTo6_eq _ htry6
        exact ⟨all, all6, by rw [hall, hall6], hmem, by simpa [hlan] using hmem6⟩
      · rw [htry6] at h
        cases h
    · rw [if_neg hlan]
      exact ⟨all, [], by rw [hall]; rfl, hmem, by simp [hlan]⟩
  · rw [htry] at h
    cases h

theorem length_of_around_eq {a b c d e f g h i j k l m l' m' : Text}
    (heq : a ++ b ++ c ++ d ++ l ++ e ++ m ++ f ++ g ++ h ++ i ++ j ++ k =
      a ++ b ++ c ++ d ++ l' ++ e ++ m' ++ f ++ g ++ h ++ i ++ j ++ k) :
    l.length + m.length = l'.length + m'.length := by
  have hlen := congrArg List.length heq
  simp only [List.length_append] at hlen
  omega

theorem textLength_of_text_eq {rs rs6 : NetworkSpace}
    (h : s.getTunConfigString =
      ({ s with mRoutes := rs, mRoutesv6 := rs6 } : Fields).getTunConfigString) :
    textLength s.mRoutes + textLength s.mRoutesv6 = textLength rs + textLength rs6 := by
  have hlen := length_of_around_eq h
  simp only [Fields.networks, List.length_append] at hlen
  simp only [textLength, joinLength]
  omega

/-- The local networks leave the text as it is iff they are there. -/
theorem withLocalNetworks_text_iff (h : (s.withLocalNetworks dev env).2 = none) :
    s.getTunConfigString = (s.withLocalNetworks dev env).1.getTunConfigString ↔ LanKnown dev env s := by
  cases hip : s.mLocalIP with
  | none =>
    refine iff_of_true ?_ fun ip heq => by rw [hip] at heq; cases heq
    rw [Fields.withLocalNetworks, hip]
  | some ip =>
    obtain ⟨all, all6, hfields, hmem, hmem6⟩ := withLocalNetworks_added hip h
    rw [hfields]
    constructor
    · intro htext
      have hlen := textLength_of_text_eq htext
      have hgrow := textLength_le_foldl all s.mRoutes
      have hgrow6 := textLength_le_foldl all6 s.mRoutesv6
      rintro ip' heq
      obtain rfl : ip = ip' := Option.some.inj (hip.symm.trans heq)
      refine ⟨fun net hnet ns hns n hn => ?_, fun hlan net hnet ns hns n hn => ?_⟩
      · exact has_of_textLength all (by omega) n ((hmem n).mpr ⟨net, hnet, ns, hns, hn⟩)
      · exact has_of_textLength all6 (by omega) n ((hmem6 n).mpr ⟨hlan, net, hnet, ns, hns, hn⟩)
    · intro hknown
      have h4 : ∀ n ∈ all, Has s.mRoutes n := by
        intro n hn
        obtain ⟨net, hnet, ns, hns, hn⟩ := (hmem n).mp hn
        exact (hknown ip hip).1 net hnet ns hns n hn
      have h6 : ∀ n ∈ all6, Has s.mRoutesv6 n := by
        intro n hn
        obtain ⟨hlan, net, hnet, ns, hns, hn⟩ := (hmem6 n).mp hn
        exact (hknown ip hip).2 hlan net hnet ns hns n hn
      rw [foldl_add_of_has all h4, foldl_add_of_has all6 h6]

/-! ## The same configuration -/

theorem Fields.Clear.alike_clear (hs : s.Clear) (hf : f.Clear) : Alike s f :=
  ⟨hs.dns.trans hf.dns.symm, hs.routes.trans hf.routes.symm, hs.routes6.trans hf.routes6.symm,
    hs.domain.trans hf.domain.symm, hs.localIP.trans hf.localIP.symm,
    hs.localIPv6.trans hf.localIPv6.symm, fun hne => absurd hs.localIP hne,
    fun hne => absurd hs.localIP hne⟩

theorem Alike.getTunConfigString (h : Alike s f) (hmtu : s.mMtu = f.mMtu) :
    s.getTunConfigString = f.getTunConfigString := by
  obtain ⟨dns, rs, rs6, dom, ip, mtu, ip6, last, gw⟩ := s
  obtain ⟨dns', rs', rs6', dom', ip', mtu', ip6', last', gw'⟩ := f
  obtain ⟨rfl, rfl, rfl, rfl, rfl, rfl, -, -⟩ := h
  obtain rfl : mtu = mtu' := hmtu
  rfl

/-- What the requests do not touch. -/
theorem setLocalIP_keeps (localIP netmask : Text) (mtu : ℤ) (mode : Text) :
    (s.setLocalIP dev localIP netmask mtu mode).mLastTunCfg = s.mLastTunCfg := by
  rw [Fields.setLocalIP]
  rcases CIDRIP.ofMask localIP netmask with e | ip
  · rfl
  · dsimp only
    rcases localLen ip netmask mode with e | len
    · rfl
    · dsimp only
      rcases addInterfaceRoute dev s.mRoutes { ip with len := len } with e | rs <;> rfl

theorem apply_mLastTunCfg (r : Request) : (r.apply dev s).mLastTunCfg = s.mLastTunCfg := by
  cases r with
  | setLocalIP localIP netmask mtu mode => exact setLocalIP_keeps localIP netmask mtu mode
  | setLocalIPv6 _ => rfl
  | setMtu _ => rfl
  | addRoute _ _ _ _ => rfl
  | addRoutev6 _ _ _ => rfl
  | addDNS _ => rfl
  | setDomain _ => rfl

theorem request_mLastTunCfg (requests : List Request) :
    ∀ s : Fields, (s.request dev requests).mLastTunCfg = s.mLastTunCfg := by
  induction requests with
  | nil => exact fun _ => rfl
  | cons r requests ih => exact fun s => (ih _).trans (apply_mLastTunCfg r)

theorem apply_mtu_of_not (r : Request) (h : r.setsMtu = false) : (r.apply dev s).mMtu = s.mMtu := by
  cases r with
  | setLocalIP localIP netmask mtu mode =>
    rw [Request.apply, Fields.setLocalIP]
    cases hip : CIDRIP.ofMask localIP netmask with
    | error e => rfl
    | ok ip =>
      rw [Request.setsMtu, hip] at h
      cases h
  | setMtu _ => cases h
  | setLocalIPv6 _ => rfl
  | addRoute _ _ _ _ => rfl
  | addRoutev6 _ _ _ => rfl
  | addDNS _ => rfl
  | setDomain _ => rfl

theorem request_mtu_of_not (requests : List Request) : ∀ s : Fields,
    requests.any Request.setsMtu = false → (s.request dev requests).mMtu = s.mMtu := by
  induction requests with
  | nil => exact fun _ _ => rfl
  | cons r requests ih =>
    intro s h
    rw [List.any_cons, Bool.or_eq_false_iff] at h
    exact (ih _ h.2).trans (apply_mtu_of_not r h.1)

/-- The MTU is set by the requests or kept by them. -/
theorem request_mtu_again (requests : List Request) (hf : f.mMtu = (s.request dev requests).mMtu) :
    (f.request dev requests).mMtu = (s.request dev requests).mMtu := by
  by_cases hsets : requests.any Request.setsMtu = true
  · exact request_mtu requests (.inl hsets)
  · exact request_mtu requests (.inr (hf.trans (request_mtu_of_not requests s (by simpa using hsets))))

/-- The fields after an `openTun` that cleared them. -/
theorem openTun_fields (h : (s.openTun dev env).exit = none) :
    (s.withLocalNetworks dev env).2 = none ∧
      (s.openTun dev env).fields = (s.withLocalNetworks dev env).1.reset := by
  unfold Fields.openTun at h ⊢
  split_ifs at h ⊢ with hcreated hlocal
  rcases hlan : s.withLocalNetworks dev env with ⟨s', _ | e⟩
  · rw [hlan] at h
    rcases hconf : configure dev env s' with ⟨calls, _ | exit⟩
    · exact ⟨rfl, by simp only [hconf]⟩
    · simp [hconf] at h
  · rw [hlan] at h
    simp at h

theorem withLocalNetworks_mtu : (s.withLocalNetworks dev env).1.mMtu = s.mMtu := by
  rw [Fields.withLocalNetworks]
  cases s.mLocalIP <;> rfl

/-- **The same requests again.**  The interface is kept iff `openTun` added no local network. -/
theorem repeat_noAction_iff (dev : Device) (env : Env) (s : Fields) (requests : List Request)
    (hs : s.Clear) (hopen : ((s.request dev requests).openTun dev env).exit = none) :
    getTunReopenStatus dev (((s.request dev requests).openTun dev env).fields.request dev requests) =
        .noAction ↔
      LanKnown dev env (s.request dev requests) := by
  obtain ⟨hnone, hfields⟩ := openTun_fields hopen
  have hsame : (((s.request dev requests).openTun dev env).fields.request dev
      requests).getTunConfigString = (s.request dev requests).getTunConfigString := by
    refine (((openTun_cleared hopen).alike_clear hs).request requests).getTunConfigString
      (request_mtu_again requests ?_)
    rw [hfields]
    exact withLocalNetworks_mtu
  rw [← withLocalNetworks_text_iff hnone, getTunReopenStatus, request_mLastTunCfg, hsame,
    openTun_mLastTunCfg hopen]
  split_ifs with heq hkitkat
  · exact iff_of_true rfl (Option.some.inj heq)
  · exact iff_of_false (by decide) fun h => heq (congrArg some h)
  · exact iff_of_false (by decide) fun h => heq (congrArg some h)

/-- A device in a home network; `lan` is the setting of the profile for local networks. -/
def atHome (lan : Bool) : Device := { pie with mAllowLocalLAN := lan }

def homeNetwork : Env := { noLan with localNetworks := ["192.168.1.5/24".toList] }

def interfaceOnly : List Request :=
  [.setLocalIP "10.8.0.2".toList "255.255.255.0".toList 1500 "subnet".toList]

/-- Local networks that go through the interface are not added. -/
theorem repeat_noAction_no_lan :
    getTunReopenStatus (atHome false) (((({} : Fields).request (atHome false) interfaceOnly).openTun
      (atHome false) homeNetwork).fields.request (atHome false) interfaceOnly) = .noAction := by
  refine (repeat_noAction_iff (atHome false) homeNetwork {} interfaceOnly (by decide)
    (by decide +kernel)).mpr fun ip hip => ⟨fun net hnet ns hns n hn => ?_, fun hlan => ?_⟩
  · rw [List.mem_singleton.mp hnet] at hns
    have hip' : ip = ⟨"10.8.0.2".toList, 24⟩ := by
      rw [← Option.some.inj hip]
      decide +kernel
    rw [hip', show localNetwork (atHome false) ⟨"10.8.0.2".toList, 24⟩ "192.168.1.5/24".toList = .ok []
      from by decide +kernel] at hns
    rw [← Except.ok.inj hns] at hn
    cases hn
  · cases hlan

/-- With the home network left out of the VPN the interface is opened anew although nothing changed. -/
theorem repeat_reopens :
    ((({} : Fields).request (atHome true) interfaceOnly).openTun (atHome true)
        { homeNetwork with choices := (0, [0, 0]) }).exit = none ∧
      getTunReopenStatus (atHome true) (((({} : Fields).request (atHome true) interfaceOnly).openTun
        (atHome true) { homeNetwork with choices := (0, [0, 0]) }).fields.request (atHome true)
          interfaceOnly) = .openBeforeClose := by
  decide +kernel

end VpnCore.Tun
