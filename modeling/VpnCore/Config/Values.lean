import VpnCore.Config.Takes

/-!
# VpnCore.Config.Values — the values that `convertProfile` reads

For the methods up to that of the addresses the options that they take, and for the routes and the addresses
what the method returns, in terms of the options of the file.
-/

namespace VpnCore.Config

open VpnCore.Lib

variable {o : OptionMap} {K : List String}

/-- Names that have not been taken. -/
abbrev Fresh (names K : List String) : Prop := ∀ k ∈ names, k ∉ K

theorem mem_linesOf {option : String} {lines : List OptionLine} (h : o.get option.toList = some lines) :
    linesOf o option = lines := by rw [linesOf, h, Option.getD_some]

/-- The lines of an option are converted, if there are any. -/
theorem takes_lines {α β : Type} {f : List OptionLine → Except Thrown α} {a : α} {k : α → Convert β}
    {lines : Option (List OptionLine)} {K' : List String} {post : β → Prop} (hnil : f [] = .ok a) :
    (∀ b, f (lines.getD []) = .ok b → Takes o K (k b) K' post) →
      Takes o K (match lines with
        | none => do
          let b ← pure a
          k b
        | some lines => do
          let b ← liftM (f lines)
          k b : Convert β) K' post := by
  intro hk
  cases lines with
  | none => exact hk a hnil
  | some lines => exact (takes_lift fun _ h => h).bind hk

/-! ## Keys -/

theorem readPull_takes :
    Takes o K readPull ("client" :: "pull" :: K) fun _ => True := by
  intro r s' hrun
  change (if (o.without K).containsKey "client".toList || (o.without K).containsKey "pull".toList
    then _ else _ : Convert Bool).run _ = _ at hrun
  refine ⟨?_, trivial⟩
  split_ifs at hrun with hc
  · obtain ⟨rfl, rfl⟩ := Prod.mk.inj (Except.ok.inj hrun)
    rw [remove_without, remove_without]
  · obtain ⟨rfl, rfl⟩ := Prod.mk.inj (Except.ok.inj hrun)
    have hnone : ∀ {k : String}, (o.without K).containsKey k.toList = false →
        (o.without K).get k.toList = none := fun hk =>
      Option.not_isSome_iff_eq_none.mp (by rw [OptionMap.containsKey] at hk; simp [hk])
    rw [Bool.not_eq_true, Bool.or_eq_false_iff] at hc
    rw [← remove_without, ← remove_without, remove_of_get_eq_none (hnone hc.2),
      remove_of_get_eq_none (hnone hc.1)]

theorem readSecret_takes (hK : "secret" ∉ K) : Takes o K readSecret ("secret" :: K) fun _ => True := by
  refine (getOption_takes hK).bind fun line hline => ?_
  cases line with
  | none => exact takes_pure trivial
  | some line =>
    have hlen := hline.2 line (List.mem_of_getLast? hline.1.symm)
    rcases shape_of_wrongLength_one_two hlen with ⟨a, b, rfl⟩ | ⟨a, b, c, rfl⟩
    · exact takes_pure trivial
    · exact takes_pure trivial

theorem readTlsCrypt_takes (crypt : String) (t : TlsAuth) (hK : crypt ∉ K) :
    Takes o K (readTlsCrypt crypt t) (crypt :: K) fun _ => True := by
  refine (getArgument_takes hK).bind fun file _ => ?_
  cases file with
  | none => exact takes_pure trivial
  | some file => exact takes_pure trivial

theorem readTlsAuth_takes (t : TlsAuth) (hK : Fresh ["tls-auth", "key-direction", "tls-crypt", "tls-crypt-v2"] K) :
    Takes o K (readTlsAuth t) ("tls-crypt-v2" :: "tls-crypt" :: "key-direction" :: "tls-auth" :: K)
      fun _ => True := by
  refine (getAllOption_takes (hK "tls-auth" (by simp))).bind fun lines _ => ?_
  dsimp only
  refine takes_lines (f := convertTlsAuths t) rfl fun t₁ _ => ?_
  have hfresh : ∀ k ∈ ["key-direction", "tls-crypt", "tls-crypt-v2"], k ∉ K :=
    fun k hk => hK k (List.mem_cons_of_mem _ hk)
  refine (getArgument_takes (by simp [hfresh "key-direction"])).bind fun direction _ => ?_
  refine (readTlsCrypt_takes "tls-crypt" _ (by simp [hfresh "tls-crypt"])).bind fun t₂ _ => ?_
  exact readTlsCrypt_takes "tls-crypt-v2" t₂ (by simp [hfresh "tls-crypt-v2"])

/-! ## Routes -/

/-- The routes of a profile come from the options of the file. -/
structure RoutesRead (o : OptionMap) (r r' : Routing) : Prop where
  routes : o.get "route".toList = none ∧ r'.mCustomRoutes = r.mCustomRoutes ∧
      r'.mExcludedRoutes = r.mExcludedRoutes ∨
    ∃ a b, convertRoutes (linesOf o "route") = .ok (a, b) ∧ r'.mCustomRoutes = some a ∧
      r'.mExcludedRoutes = some b
  arity : Arity o "route" 1 4
  routes6 : r'.mCustomRoutesv6 = r.mCustomRoutesv6 ∨
    convertRoutesV6 (linesOf o "route-ipv6") = .ok r'.mCustomRoutesv6
  default : r'.mUseDefaultRoute = r.mUseDefaultRoute

theorem readRoutes_takes (r : Routing) (hK : Fresh ["route", "route-ipv6", "route-nopull"] K) :
    Takes o K (readRoutes r) ("route-nopull" :: "route-ipv6" :: "route" :: K) (RoutesRead o r) := by
  have hfresh : ∀ k ∈ ["route-ipv6", "route-nopull"], k ∉ K :=
    fun k hk => hK k (List.mem_cons_of_mem _ hk)
  unfold readRoutes
  refine (getAllOption_takes (hK "route" (by simp))).bind fun lines hlines => ?_
  obtain ⟨hget, harity⟩ := hlines
  extract_lets jp
  -- what comes after the routes, whatever these are
  have hrest : ∀ ab : Option Text × Option Text,
      (o.get "route".toList = none ∧ ab.1 = r.mCustomRoutes ∧ ab.2 = r.mExcludedRoutes ∨
        ∃ a b, convertRoutes (linesOf o "route") = .ok (a, b) ∧ ab.1 = some a ∧ ab.2 = some b) →
      Takes o ("route" :: K) (jp ab) ("route-nopull" :: "route-ipv6" :: "route" :: K) (RoutesRead o r) := by
    rintro ⟨a, b⟩ hab
    refine (getAllOption_takes (by simp [hfresh "route-ipv6"])).bind fun lines6 hlines6 => ?_
    have hget6 := hlines6.1
    extract_lets jp'
    have hflag : ∀ v6 : Text, v6 = r.mCustomRoutesv6 ∨
        convertRoutesV6 (linesOf o "route-ipv6") = .ok v6 →
        Takes o ("route-ipv6" :: "route" :: K) (jp' v6)
          ("route-nopull" :: "route-ipv6" :: "route" :: K) (RoutesRead o r) := by
      intro v6 hv6
      exact (getFlag_takes (by simp [hfresh "route-nopull"])).bind fun flag _ =>
        takes_pure ⟨hab, harity, hv6, rfl⟩
    cases lines6 with
    | none => exact hflag _ (.inl rfl)
    | some lines6 =>
      refine (takes_lift fun v6 hv6 => ?_).bind hflag
      exact .inr (by rw [mem_linesOf hget6.symm, hv6])
  cases lines with
  | none => exact hrest (_, _) (.inl ⟨hget.symm, rfl, rfl⟩)
  | some lines =>
    refine (takes_lift fun ab hab => hab).bind fun ab hab => ?_
    exact hrest (_, _) (.inr ⟨ab.1, ab.2, by rw [mem_linesOf hget.symm, hab], rfl, rfl⟩)

/-- What `redirect-gateway` changes. -/
def redirected (o : OptionMap) (r : Routing) : Routing :=
  match o.get "redirect-gateway".toList with
  | none => r
  | some defgw => checkRedirectParameters r defgw true

theorem readRedirect_takes (r : Routing) (hK : Fresh ["redirect-gateway", "redirect-private"] K) :
    Takes o K (readRedirect r) ("redirect-private" :: "redirect-gateway" :: K)
      fun r' => r' = redirected o r := by
  have hprivate : "redirect-private" ∉ K := hK _ (by simp)
  refine (getAllOption_takes (hK "redirect-gateway" (by simp))).bind fun lines hlines => ?_
  refine (getAllOption_takes (by simp [hprivate])).bind fun privates _ => takes_pure ?_
  rw [redirected, ← hlines.1]
  cases privates with
  | none => rfl
  | some privates => rfl

/-! ## The device and its addresses -/

theorem readDev_takes (hK : Fresh ["dev", "dev-type"] K) :
    Takes o K readDev ("dev-type" :: "dev" :: K) fun _ => True := by
  have htype : "dev-type" ∉ K := hK _ (by simp)
  refine (getArgument_takes (hK "dev" (by simp))).bind fun dev _ => ?_
  refine (getArgument_takes (by simp [htype])).bind fun devtype _ => ?_
  split_ifs
  · exact takes_pure trivial
  · exact takes_throw

/-- The addresses are not touched. -/
def SameAddresses (a a' : Addressing) : Prop := { a' with mMssFix := a.mMssFix, mTunMtu := a.mTunMtu } = a

theorem readMtu_takes (a : Addressing) (hK : Fresh ["mssfix", "tun-mtu"] K) :
    Takes o K (readMtu a) ("tun-mtu" :: "mssfix" :: K) (SameAddresses a) := by
  have hmtu : "tun-mtu" ∉ K := hK _ (by simp)
  unfold readMtu
  refine (getOption_takes (hK "mssfix" (by simp))).bind fun mssfix _ => ?_
  extract_lets jp
  have hrest : ∀ fix, Takes o ("mssfix" :: K) (jp fix) ("tun-mtu" :: "mssfix" :: K) (SameAddresses a) := by
    intro fix
    refine (getArgument_takes (by simp [hmtu])).bind fun tunmtu _ => ?_
    dsimp only
    cases tunmtu with
    | none => exact takes_pure rfl
    | some tunmtu => exact takes_any.bind fun mtu _ => takes_pure rfl
  cases mssfix with
  | none => exact hrest _
  | some mssfix =>
    dsimp only
    split_ifs
    · exact takes_any.bind fun arg _ => takes_any.bind fun fix _ => hrest fix
    · exact hrest _

theorem readMode_takes (hK : "mode" ∉ K) : Takes o K readMode ("mode" :: K) fun _ => True := by
  refine (getArgument_takes hK).bind fun mode _ => ?_
  split_ifs
  · exact takes_throw
  · exact takes_pure trivial

theorem elementAt_eq_ok {xs : List Text} {i : ℕ} {x : Text} : elementAt xs i = .ok x ↔ xs[i]? = some x := by
  unfold elementAt
  cases xs[i]? <;> simp

/-- What a DHCP option changes. -/
def dhcpStep (a : Addressing) (type arg : Text) : Addressing :=
  if type = "DOMAIN".toList then { a with mSearchDomain := arg }
  else if type = "DNS".toList then
    if a.mDNS1 = "8.8.8.8".toList then { a with mOverrideDNS := true, mDNS1 := arg }
    else { a with mOverrideDNS := true, mDNS2 := arg }
  else a

theorem convertDhcpOption_eq_ok {a a' : Addressing} {dhcpoption : OptionLine}
    (h : convertDhcpOption a dhcpoption = .ok a') :
    ∃ type arg, dhcpoption[1]? = some type ∧ dhcpoption[2]? = some arg ∧ a' = dhcpStep a type arg := by
  obtain ⟨type, htype, h⟩ := bind_eq_ok.mp h
  obtain ⟨arg, harg, h⟩ := bind_eq_ok.mp h
  refine ⟨type, arg, elementAt_eq_ok.mp htype, elementAt_eq_ok.mp harg, ?_⟩
  unfold dhcpStep
  split_ifs at h ⊢ <;> exact (Except.ok.inj h).symm

/-- The addresses of a profile come from the options of the file. -/
structure AddressesRead (o : OptionMap) (a a' : Addressing) : Prop where
  arity : Arity o "dhcp-option" 2 2
  dhcp : ∃ a₁, convertDhcpOptions a (linesOf o "dhcp-option") = .ok a₁ ∧
    { a' with mIPv4Address := a₁.mIPv4Address } = a₁
  ifconfig : a'.mIPv4Address = a.mIPv4Address ∨
    ∃ line ∈ linesOf o "ifconfig", ∃ cidr, convertIfconfig line = .ok cidr ∧ a'.mIPv4Address = some cidr

theorem readAddresses_takes (a : Addressing) (hK : Fresh ["dhcp-option", "ifconfig"] K) :
    Takes o K (readAddresses a) ("ifconfig" :: "dhcp-option" :: K) (AddressesRead o a) := by
  have hifconfig : "ifconfig" ∉ K := hK _ (by simp)
  refine (getAllOption_takes (hK "dhcp-option" (by simp))).bind fun lines hlines => ?_
  dsimp only
  refine takes_lines (f := convertDhcpOptions a) rfl fun a₁ ha₁ => ?_
  have hdhcp : convertDhcpOptions a (linesOf o "dhcp-option") = .ok a₁ := by
    rw [linesOf, ← hlines.1, ha₁]
  have hv4 : a₁.mIPv4Address = a.mIPv4Address := by
    refine foldlM_inv (I := fun b : Addressing => b.mIPv4Address = a.mIPv4Address) ?_ rfl hdhcp
    rintro line - b b' hb hstep
    obtain ⟨type, arg, -, -, rfl⟩ := convertDhcpOption_eq_ok hstep
    rw [← hb, dhcpStep]
    split_ifs <;> rfl
  refine (getOption_takes (by simp [hifconfig])).bind fun ifconfig hline => ?_
  cases ifconfig with
  | none => exact takes_pure ⟨hlines.2, ⟨a₁, hdhcp, rfl⟩, .inl hv4⟩
  | some ifconfig =>
    refine (takes_lift fun _ h => h).bind fun cidr hcidr => takes_pure ⟨hlines.2, ⟨a₁, hdhcp, rfl⟩, ?_⟩
    exact .inr ⟨ifconfig, List.mem_of_getLast? hline.1.symm, cidr, hcidr, rfl⟩

end VpnCore.Config
