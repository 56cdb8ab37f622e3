import VpnCore.Lib.Runs
import VpnCore.Tun.Model

/-!
# VpnCore.Tun.Isolation — a session that starts with cleared fields is isolated

The fields are cleared at one point of `openTun` only.  A session that ends before it, or with
`NOACTION`, leaves what it collected to the next one.  Where the fields are clear before a session,
the builder gets exactly what the requests of that session give on a new object.
-/

namespace VpnCore.Tun

open VpnCore.Lib VpnCore.Config VpnCore.Route

/-! ## What a session reads of the fields -/

/-- Nothing is left of an earlier session but the MTU, the remote gateway and the last
configuration. -/
structure Fields.Clear (s : Fields) : Prop where
  dns : s.mDnslist = []
  routes : s.mRoutes = {}
  routes6 : s.mRoutesv6 = {}
  domain : s.mDomain = none
  localIP : s.mLocalIP = none
  localIPv6 : s.mLocalIPv6 = none

instance (s : Fields) : Decidable s.Clear :=
  decidable_of_iff (_ ∧ _ ∧ _ ∧ _ ∧ _ ∧ _)
    ⟨fun ⟨h1, h2, h3, h4, h5, h6⟩ => ⟨h1, h2, h3, h4, h5, h6⟩,
      fun ⟨h1, h2, h3, h4, h5, h6⟩ => ⟨h1, h2, h3, h4, h5, h6⟩⟩

/-- `s` and `f` agree on the collected configuration; the MTU and the remote gateway matter once
the interface has an IPv4 address, which comes with both. -/
structure Alike (s f : Fields) : Prop where
  dns : s.mDnslist = f.mDnslist
  routes : s.mRoutes = f.mRoutes
  routes6 : s.mRoutesv6 = f.mRoutesv6
  domain : s.mDomain = f.mDomain
  localIP : s.mLocalIP = f.mLocalIP
  localIPv6 : s.mLocalIPv6 = f.mLocalIPv6
  mtu : s.mLocalIP ≠ none → s.mMtu = f.mMtu
  remoteGW : s.mLocalIP ≠ none → s.mRemoteGW = f.mRemoteGW

variable {dev : Device} {env : Env} {s f : Fields} {r : Request} {σ : Session}

theorem Fields.Clear.alike (h : s.Clear) : Alike s {} :=
  ⟨h.dns, h.routes, h.routes6, h.domain, h.localIP, h.localIPv6, fun hne => absurd h.localIP hne,
    fun hne => absurd h.localIP hne⟩

theorem Alike.addRoute (h : Alike s f) (dest mask gateway : Text) (device : Option Text) :
    s.addRoute dest mask gateway device = f.addRoute dest mask gateway device := by
  rw [Fields.addRoute, Fields.addRoute, ← h.localIP, ← h.routes]
  rcases hip : s.mLocalIP with _ | ip
  · rfl
  · rw [h.remoteGW (by simp [hip])]

theorem Alike.setLocalIP (h : Alike s f) (localIP netmask : Text) (mtu : ℤ) (mode : Text) :
    Alike (s.setLocalIP dev localIP netmask mtu mode) (f.setLocalIP dev localIP netmask mtu mode) := by
  obtain ⟨h1, h2, h3, h4, h5, h6, -, -⟩ := id h
  rw [Fields.setLocalIP, Fields.setLocalIP, h2]
  rcases CIDRIP.ofMask localIP netmask with e | ip
  · exact h
  rcases hlen : localLen ip netmask mode with e | len
  · simp only [hlen]
    exact ⟨h1, rfl, h3, h4, rfl, h6, fun _ => rfl, fun _ => rfl⟩
  · simp only [hlen]
    rcases addInterfaceRoute dev f.mRoutes { ip with len := len } with e | rs
    · exact ⟨h1, rfl, h3, h4, rfl, h6, fun _ => rfl, fun _ => rfl⟩
    · exact ⟨h1, rfl, h3, h4, rfl, h6, fun _ => rfl, fun _ => rfl⟩

/-- A request keeps the two alike. -/
theorem Alike.apply (h : Alike s f) (r : Request) : Alike (r.apply dev s) (r.apply dev f) := by
  obtain ⟨h1, h2, h3, h4, h5, h6, h7, h8⟩ := id h
  cases r with
  | setLocalIP localIP netmask mtu mode => exact h.setLocalIP localIP netmask mtu mode
  | setLocalIPv6 ipv6Addr => exact ⟨h1, h2, h3, h4, h5, rfl, h7, h8⟩
  | setMtu mtu => exact ⟨h1, h2, h3, h4, h5, h6, fun _ => rfl, h8⟩
  | addRoute dest mask gateway device =>
    refine ⟨h1, ?_, h3, h4, h5, h6, h7, h8⟩
    show (s.addRoute dest mask gateway device).toOption.getD s.mRoutes = _
    rw [h.addRoute, h2]
    rfl
  | addRoutev6 network device resolved =>
    refine ⟨h1, h2, ?_, h4, h5, h6, h7, h8⟩
    show (addRouteTo6 s.mRoutesv6 _ _ _).toOption.getD s.mRoutesv6 = _
    rw [h3]
    rfl
  | addDNS dns =>
    refine ⟨?_, h2, h3, h4, h5, h6, h7, h8⟩
    show s.mDnslist ++ [dns] = f.mDnslist ++ [dns]
    rw [h1]
  | setDomain domain =>
    refine ⟨h1, h2, h3, ?_, h5, h6, h7, h8⟩
    show (s.mDomain <|> some domain) = (f.mDomain <|> some domain)
    rw [h4]

theorem Alike.request (requests : List Request) :
    ∀ {s f : Fields}, Alike s f → Alike (s.request dev requests) (f.request dev requests) := by
  induction requests with
  | nil => exact fun h => h
  | cons r requests ih => exact fun h => ih (h.apply r)

/-! ## The MTU -/

/-- The request assigns `mMtu`. -/
def Request.setsMtu : Request → Bool
  | .setMtu _ => true
  | .setLocalIP localIP netmask _ _ => (CIDRIP.ofMask localIP netmask).isOk
  | _ => false

/-- The request gives an IPv6 address. -/
def Request.isLocalIPv6 : Request → Bool
  | .setLocalIPv6 _ => true
  | _ => false

/-- A session that gives an IPv6 address gives an MTU. -/
def Session.GivesMtu (σ : Session) : Prop :=
  σ.requests.any Request.isLocalIPv6 = true → σ.requests.any Request.setsMtu = true

instance (σ : Session) : Decidable σ.GivesMtu := inferInstanceAs (Decidable (_ → _))

theorem setLocalIP_mtu {localIP netmask mode : Text} {mtu : ℤ}
    (hok : (CIDRIP.ofMask localIP netmask).isOk = true) :
    (s.setLocalIP dev localIP netmask mtu mode).mMtu = mtu := by
  rw [Fields.setLocalIP]
  rcases hip : CIDRIP.ofMask localIP netmask with e | ip
  · simp [hip, Except.isOk, Except.toBool] at hok
  · dsimp only
    rcases localLen ip netmask mode with e | len
    · rfl
    · dsimp only
      rcases addInterfaceRoute dev s.mRoutes { ip with len := len } with e | rs <;> rfl

/-- After a request that assigns the MTU it is the same; other requests do not change it. -/
theorem apply_mtu (r : Request) (h : r.setsMtu = true ∨ s.mMtu = f.mMtu) :
    (r.apply dev s).mMtu = (r.apply dev f).mMtu := by
  cases r with
  | setMtu mtu => rfl
  | setLocalIP localIP netmask mtu mode =>
    by_cases hok : (CIDRIP.ofMask localIP netmask).isOk = true
    · rw [Request.apply, Request.apply, setLocalIP_mtu hok, setLocalIP_mtu hok]
    · rcases h with h | h
      · exact absurd h hok
      · rw [Request.apply, Request.apply, Fields.setLocalIP, Fields.setLocalIP]
        rcases hip : CIDRIP.ofMask localIP netmask with e | ip
        · exact h
        · simp [hip, Except.isOk, Except.toBool] at hok
  | setLocalIPv6 _ => exact h.resolve_left (by simp [Request.setsMtu])
  | addRoute _ _ _ _ => exact h.resolve_left (by simp [Request.setsMtu])
  | addRoutev6 _ _ _ => exact h.resolve_left (by simp [Request.setsMtu])
  | addDNS _ => exact h.resolve_left (by simp [Request.setsMtu])
  | setDomain _ => exact h.resolve_left (by simp [Request.setsMtu])

theorem request_mtu (requests : List Request) :
    ∀ {s f : Fields}, (requests.any Request.setsMtu = true ∨ s.mMtu = f.mMtu) →
      (s.request dev requests).mMtu = (f.request dev requests).mMtu := by
  induction requests with
  | nil => exact fun h => h.resolve_left (by simp)
  | cons r requests ih =>
    intro s f h
    refine ih ?_
    rw [List.any_cons, Bool.or_eq_true] at h
    rcases h with (h | h) | h
    · exact Or.inr (apply_mtu r (Or.inl h))
    · exact Or.inl h
    · exact Or.inr (apply_mtu r (Or.inr h))

/-! ## The calls of `openTun` -/

/-- The stages read neither the remote gateway nor the last configuration. -/
theorem Alike.configure (h : Alike s f) (hmtu : s.mMtu = f.mMtu) :
    configure dev env s = configure dev env f := by
  obtain ⟨dns, rs, rs6, dom, ip, mtu, ip6, last, gw⟩ := s
  obtain ⟨dns', rs', rs6', dom', ip', mtu', ip6', last', gw'⟩ := f
  obtain ⟨rfl, rfl, rfl, rfl, rfl, rfl, -, -⟩ := h
  obtain rfl : mtu = mtu' := hmtu
  rfl

theorem Alike.withLocalNetworks (dev : Device) (env : Env) (h : Alike s f) (hmtu : s.mMtu = f.mMtu) :
    Alike (s.withLocalNetworks dev env).1 (f.withLocalNetworks dev env).1 ∧
      (s.withLocalNetworks dev env).2 = (f.withLocalNetworks dev env).2 ∧
      (s.withLocalNetworks dev env).1.mMtu = (f.withLocalNetworks dev env).1.mMtu := by
  obtain ⟨h1, h2, h3, h4, h5, h6, h7, h8⟩ := id h
  rw [Fields.withLocalNetworks, Fields.withLocalNetworks, ← h5, ← h2, ← h3]
  rcases hip : s.mLocalIP with _ | ip
  · exact ⟨h, rfl, hmtu⟩
  · have hgw := h8 (by simp [hip])
    exact ⟨⟨h1, rfl, rfl, h4, rfl, h6, fun _ => hmtu, fun _ => hgw⟩, rfl, hmtu⟩

/-- The calls of `openTun`, apart from what it does to the fields. -/
theorem openTun_calls_eq (dev : Device) (env : Env) (s : Fields) :
    (s.openTun dev env).calls =
      if !env.created then []
      else if s.mLocalIP = none ∧ s.mLocalIPv6 = none then allowAllAFFamilies dev
      else if (s.withLocalNetworks dev env).2.isSome then allowAllAFFamilies dev
      else allowAllAFFamilies dev ++ (configure dev env (s.withLocalNetworks dev env).1).1 := by
  rw [Fields.openTun]
  by_cases hc : (!env.created) = true
  · rw [if_pos hc, if_pos hc]
  rw [if_neg hc, if_neg hc]
  by_cases hip : s.mLocalIP = none ∧ s.mLocalIPv6 = none
  · rw [if_pos hip, if_pos hip]
  rw [if_neg hip, if_neg hip]
  rcases s.withLocalNetworks dev env with ⟨s', _ | e⟩
  · rcases hcfg : configure dev env s' with ⟨calls, _ | exit⟩ <;> simp [hcfg]
  · rfl

/-- Without an address `openTun` ends before it reads the MTU. -/
theorem Alike.openTun_calls (h : Alike s f) (hmtu : s.mLocalIPv6 ≠ none → s.mMtu = f.mMtu) :
    (s.openTun dev env).calls = (f.openTun dev env).calls := by
  rw [openTun_calls_eq, openTun_calls_eq, ← h.localIP, ← h.localIPv6]
  by_cases hip : s.mLocalIP = none ∧ s.mLocalIPv6 = none
  · rw [if_pos hip, if_pos hip]
  · have hm : s.mMtu = f.mMtu := by
      by_cases h4 : s.mLocalIP = none
      · exact hmtu fun h6 => hip ⟨h4, h6⟩
      · exact h.mtu h4
    obtain ⟨halike, hthrown, hm'⟩ := h.withLocalNetworks dev env hm
    rw [if_neg hip, if_neg hip, hthrown, halike.configure hm']

/-! ## Sessions -/

theorem apply_localIPv6 (r : Request) (h : r.isLocalIPv6 = false) :
    (r.apply dev s).mLocalIPv6 = s.mLocalIPv6 := by
  cases r with
  | setLocalIPv6 _ => simp [Request.isLocalIPv6] at h
  | setLocalIP localIP netmask mtu mode =>
    rw [Request.apply, Fields.setLocalIP]
    rcases CIDRIP.ofMask localIP netmask with e | ip
    · rfl
    · dsimp only
      rcases localLen ip netmask mode with e | len
      · rfl
      · dsimp only
        rcases addInterfaceRoute dev s.mRoutes { ip with len := len } with e | rs <;> rfl
  | setMtu _ => rfl
  | addRoute _ _ _ _ => rfl
  | addRoutev6 _ _ _ => rfl
  | addDNS _ => rfl
  | setDomain _ => rfl

/-- An IPv6 address comes from a request. -/
theorem request_localIPv6 (requests : List Request) : ∀ {s : Fields}, s.mLocalIPv6 = none →
    (s.request dev requests).mLocalIPv6 ≠ none → requests.any Request.isLocalIPv6 = true := by
  induction requests with
  | nil => exact fun h hne => absurd h hne
  | cons r requests ih =>
    intro s h hne
    rw [List.any_cons, Bool.or_eq_true]
    by_cases hr : r.isLocalIPv6 = true
    · exact Or.inl hr
    · have hs : (r.apply dev s).mLocalIPv6 = none := by
        rw [apply_localIPv6 r (by simpa using hr), h]
      exact Or.inr (ih hs hne)

/-- What the builder gets from the requests of the session alone, on a new object. -/
def Session.ownCalls (dev : Device) (σ : Session) : List BuilderCall :=
  ((({} : Fields).request dev σ.requests).openTun dev σ.env).calls

/-- If the session opens the interface, the builder gets what its own requests say. -/
def Isolated (dev : Device) (s : Fields) (σ : Session) : Prop :=
  ∀ opened, (s.session dev σ).2 = some opened → opened.calls = σ.ownCalls dev

theorem isolated_of_clear (hs : s.Clear) (hσ : σ.GivesMtu) : Isolated dev s σ := by
  intro opened ho
  have hcalls : opened.calls = ((s.request dev σ.requests).openTun dev σ.env).calls := by
    simp only [Fields.session] at ho
    split at ho
    · simp at ho
    · rw [← Option.some.inj ho]
  rw [hcalls, Session.ownCalls]
  refine (hs.alike.request σ.requests).openTun_calls fun h6 => ?_
  exact request_mtu σ.requests (Or.inl (hσ (request_localIPv6 σ.requests hs.localIPv6 h6)))

/-- The fields after a session. -/
def Fields.afterSession (dev : Device) (s : Fields) (σ : Session) : Fields := (s.session dev σ).1

theorem openTun_cleared (h : (s.openTun dev env).exit = none) : (s.openTun dev env).fields.Clear := by
  simp only [Fields.openTun] at h ⊢
  split_ifs at h ⊢
  split at h
  · simp at h
  · split at h
    · simp at h
    · exact ⟨rfl, rfl, rfl, rfl, rfl, rfl⟩

/-- A session whose `openTun` got to the point where it clears the fields leaves nothing behind. -/
theorem afterSession_clear {opened : Opened} (ho : (s.session dev σ).2 = some opened)
    (hexit : opened.exit = none) : (s.afterSession dev σ).Clear := by
  simp only [Fields.afterSession, Fields.session] at ho ⊢
  split at ho
  · simp at ho
  · obtain rfl := Option.some.inj ho
    exact openTun_cleared hexit

/-- **Session isolation.**  In a run in which every session finds the fields clear, and gives an MTU
if it gives an IPv6 address, the builder never gets anything of another session.  A session whose
`openTun` clears the fields leaves them so. -/
theorem sessions_isolated (dev : Device) (ss : List Session)
    (h : Along (Fields.afterSession dev) (fun s σ => s.Clear ∧ σ.GivesMtu) {} ss) :
    Along (Fields.afterSession dev) (Isolated dev) {} ss ∧
      ∀ s σ opened, (Fields.session dev s σ).2 = some opened → opened.exit = none →
        (s.afterSession dev σ).Clear :=
  ⟨h.mono fun _ _ hc => isolated_of_clear hc.1 hc.2, fun _ _ _ ho hexit => afterSession_clear ho hexit⟩

/-- An Android 8 device. -/
def oreo : Device := ⟨26, "8.0.0".toList, "google".toList, false, false⟩

/-- A server that pushes an address and the DNS server `dns`. -/
def pushed (dns : Text) : Session where
  requests :=
    [.setLocalIP "10.8.0.2".toList "255.255.255.0".toList 1500 "subnet".toList, .addDNS dns]
  env := { choices := (0, [0]) }

theorem sessions_isolated_pushed :
    Along (Fields.afterSession oreo) (fun s σ => s.Clear ∧ σ.GivesMtu) {}
        [pushed "10.8.0.1".toList, pushed "10.9.0.1".toList] ∧
      Along (Fields.afterSession oreo) (Isolated oreo) {}
        [pushed "10.8.0.1".toList, pushed "10.9.0.1".toList] :=
  have h : Along (Fields.afterSession oreo) (fun s σ => s.Clear ∧ σ.GivesMtu) {}
      [pushed "10.8.0.1".toList, pushed "10.9.0.1".toList] := by decide +kernel
  ⟨h, (sessions_isolated oreo _ h).1⟩

/-- A DNS server without an address: `openTun` returns early. -/
def dnsOnly (dns : Text) : Session := ⟨[.addDNS dns], {}⟩

/-- What the builder gets from `pushed` with the DNS servers `dns`. -/
def pushedCalls (dns : List Text) : List BuilderCall :=
  [.allowFamily false, .allowFamily true, .addAddress "10.8.0.2".toList 24] ++
    dns.map .addDnsServer ++ [.setMtu 1500, .addRoute "10.8.0.0".toList 24]

theorem not_isolated_of_calls {calls : List BuilderCall}
    (h : (s.session dev σ).2.map Opened.calls = some calls) (hne : calls ≠ σ.ownCalls dev) :
    ¬ Isolated dev s σ := by
  intro hiso
  obtain ⟨opened, ho, rfl⟩ := Option.map_eq_some_iff.mp h
  exact hne (hiso opened ho)

/-- The DNS server of a session that ended with `NOACTION`, and that of one whose `openTun` returned
early, are given to the builder in the next session. -/
theorem sessions_leak :
    (¬ Along (Fields.afterSession oreo) (Isolated oreo) {}
      [pushed "10.8.0.1".toList, pushed "10.8.0.1".toList, pushed "10.9.0.1".toList]) ∧
    ¬ Along (Fields.afterSession oreo) (Isolated oreo) {}
      [dnsOnly "10.8.0.1".toList, pushed "10.9.0.1".toList] := by
  have hown : (pushed "10.9.0.1".toList).ownCalls oreo = pushedCalls ["10.9.0.1".toList] := by
    decide +kernel
  have hne : pushedCalls ["10.8.0.1".toList, "10.9.0.1".toList] ≠
      (pushed "10.9.0.1".toList).ownCalls oreo := by
    rw [hown]
    decide +kernel
  constructor
  · rintro ⟨-, -, h, -⟩
    exact not_isolated_of_calls (by decide +kernel) hne h
  · rintro ⟨-, h, -⟩
    exact not_isolated_of_calls (by decide +kernel) hne h

end VpnCore.Tun
