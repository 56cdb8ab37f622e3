import VpnCore.Config.Exported
import VpnCore.Route.Netmask

/-!
# VpnCore.Config.Routes — the routes of an imported configuration

`convertProfile` turns each netmask into a prefix length and collects the routes in two texts, one for the
VPN and one for the networks that are left out.  `getConfigFile` turns the lengths into netmasks again, but
prints neither text if there is a default route.
-/

namespace VpnCore.Config

open VpnCore.Lib Route

/-! ## The two texts -/

theorem convertRoute_four {acc acc' : Text × Text} (name net netmask gateway : Text) (rest : OptionLine)
    (hread : convertRoute acc (name :: net :: netmask :: gateway :: rest) = .ok acc') :
    ∃ cidr, CIDRIP.ofMask net netmask = .ok cidr ∧
      acc' = if gateway = netGateway then (acc.1, acc.2 ++ cidr.text ++ [' '])
        else (acc.1 ++ cidr.text ++ [' '], acc.2) := by
  unfold convertRoute at hread
  simp only [List.length_cons, elementAt, List.getElem?_cons_succ, List.getElem?_cons_zero,
    if_pos (show 3 ≤ rest.length + 1 + 1 + 1 + 1 by omega),
    if_pos (show 4 ≤ rest.length + 1 + 1 + 1 + 1 by omega), ok_bind] at hread
  cases hof : CIDRIP.ofMask net netmask with
  | error e =>
    rw [hof] at hread
    cases hread
  | ok cidr =>
    rw [hof] at hread
    refine ⟨cidr, rfl, ?_⟩
    dsimp only at hread
    split_ifs at hread ⊢ <;> exact (Except.ok.inj hread).symm

/-- What a `route` option adds; the gateway is left out for the VPN. -/
theorem convertRoute_eq_ok {acc acc' : Text × Text} {route : OptionLine}
    (hread : convertRoute acc route = .ok acc') :
    ∃ net cidr, route[1]? = some net ∧ CIDRIP.ofMask net (netmaskOf route) = .ok cidr ∧
      acc' = if route[3]? = some netGateway then (acc.1, acc.2 ++ cidr.text ++ [' '])
        else (acc.1 ++ cidr.text ++ [' '], acc.2) := by
  have hvpn : "vpn_gateway".toList ≠ netGateway := by decide
  rcases route with _ | ⟨name, _ | ⟨net, _ | ⟨netmask, _ | ⟨gateway, rest⟩⟩⟩⟩
  · cases hread
  · cases hread
  · obtain ⟨cidr, hcidr, rfl⟩ := convertRoute_four name net "255.255.255.255".toList
      "vpn_gateway".toList [] hread
    exact ⟨net, cidr, rfl, hcidr, by rw [if_neg hvpn, if_neg (by simp)]⟩
  · obtain ⟨cidr, hcidr, rfl⟩ := convertRoute_four name net netmask "vpn_gateway".toList [] hread
    exact ⟨net, cidr, rfl, hcidr, by rw [if_neg hvpn, if_neg (by simp)]⟩
  · obtain ⟨cidr, hcidr, rfl⟩ := convertRoute_four name net netmask gateway rest hread
    exact ⟨net, cidr, rfl, hcidr, by simp⟩

/-- A route past the VPN. -/
def leftOut (route : OptionLine) : Bool := route[3]? == some netGateway

/-- The network of a `route` option. -/
def cidrOf (route : OptionLine) : CIDRIP :=
  ⟨route[1]?.getD [], (calculateLenFromMask (netmaskOf route)).toOption.getD 32⟩

/-- The networks, each followed by a blank. -/
def cidrTexts (routes : List OptionLine) : Text := routes.flatMap fun route => (cidrOf route).text ++ [' ']

theorem cidrOf_eq {route : OptionLine} {net : Text} {cidr : CIDRIP} (hnet : route[1]? = some net)
    (hcidr : CIDRIP.ofMask net (netmaskOf route) = .ok cidr) : cidrOf route = cidr := by
  obtain ⟨len, hlen, hcidr⟩ := bind_eq_ok.mp hcidr
  rw [cidrOf, hnet, hlen, ← Except.ok.inj hcidr]
  rfl

theorem convertRoutes_eq_ok {routes : List OptionLine} {a b : Text} (h : convertRoutes routes = .ok (a, b)) :
    a = cidrTexts (routes.filter fun route => !leftOut route) ∧ b = cidrTexts (routes.filter leftOut) := by
  have hfold : ∀ {routes : List OptionLine} {acc acc' : Text × Text},
      routes.foldlM convertRoute acc = .ok acc' →
        acc'.1 = acc.1 ++ cidrTexts (routes.filter fun route => !leftOut route) ∧
          acc'.2 = acc.2 ++ cidrTexts (routes.filter leftOut) := by
    intro routes
    induction routes with
    | nil =>
      intro acc acc' h
      obtain rfl := Except.ok.inj h
      simp [cidrTexts]
    | cons route routes ih =>
      intro acc acc' h
      rw [List.foldlM_cons] at h
      obtain ⟨acc₁, hstep, h⟩ := bind_eq_ok.mp h
      obtain ⟨h1, h2⟩ := ih h
      obtain ⟨net, cidr, hnet, hcidr, rfl⟩ := convertRoute_eq_ok hstep
      rw [h1, h2, ← cidrOf_eq hnet hcidr]
      by_cases hout : route[3]? = some netGateway
      · simp [leftOut, cidrTexts, hout]
      · simp [leftOut, cidrTexts, hout]
  exact hfold h

/-! ## The default route -/

/-- The default route is asked for. -/
def redirectsAll (o : OptionMap) : Bool :=
  o.containsKey "redirect-gateway".toList &&
    !((linesOf o "redirect-gateway").flatMap List.tail).contains "!ipv4".toList

theorem redirected_default (o : OptionMap) {r : Routing} (h : r.mUseDefaultRoute = false) :
    (redirected o r).mUseDefaultRoute = redirectsAll o := by
  have hfold : ∀ (parameters : List Text) (acc : Routing × Bool),
      (parameters.foldl redirectParameter acc).1.mUseDefaultRoute = acc.1.mUseDefaultRoute ∧
        (parameters.foldl redirectParameter acc).2 = (acc.2 || parameters.contains "!ipv4".toList) := by
    intro parameters
    induction parameters with
    | nil => simp
    | cons parameter parameters ih =>
      intro acc
      obtain ⟨h1, h2⟩ := ih (redirectParameter acc parameter)
      have hstep : (redirectParameter acc parameter).1.mUseDefaultRoute = acc.1.mUseDefaultRoute ∧
          (redirectParameter acc parameter).2 = (acc.2 || "!ipv4".toList == parameter) := by
        by_cases hv4 : parameter = "!ipv4".toList
        · subst hv4
          exact ⟨rfl, by cases acc.2 <;> rfl⟩
        · have hbeq : ("!ipv4".toList == parameter) = false := beq_eq_false_iff_ne.mpr (Ne.symm hv4)
          rw [hbeq, Bool.or_false]
          unfold redirectParameter
          split_ifs <;> exact ⟨rfl, rfl⟩
      rw [List.foldl_cons, h1, h2, hstep.1, hstep.2, List.contains_cons, Bool.or_assoc]
      exact ⟨rfl, rfl⟩
  unfold redirected redirectsAll OptionMap.containsKey linesOf
  cases hget : o.get "redirect-gateway".toList with
  | none => exact h
  | some defgw =>
    obtain ⟨h1, h2⟩ := hfold (defgw.flatMap List.tail) (r, false)
    rw [Bool.false_or] at h2
    dsimp only [checkRedirectParameters]
    rw [if_pos rfl, Option.isSome_some, Bool.true_and, Option.getD_some, ← h2]
    split_ifs with hv4
    · rw [h1, h, hv4]
      rfl
    · rw [Bool.not_eq_true] at hv4
      rw [hv4]
      rfl

/-- `redirect-gateway` does not touch the routes. -/
theorem redirected_kept (o : OptionMap) (r : Routing) :
    (redirected o r).mCustomRoutes = r.mCustomRoutes ∧
      (redirected o r).mExcludedRoutes = r.mExcludedRoutes := by
  have hfold : ∀ (parameters : List Text) (acc : Routing × Bool),
      (parameters.foldl redirectParameter acc).1.mCustomRoutes = acc.1.mCustomRoutes ∧
        (parameters.foldl redirectParameter acc).1.mExcludedRoutes = acc.1.mExcludedRoutes := by
    intro parameters
    induction parameters with
    | nil => exact fun acc => ⟨rfl, rfl⟩
    | cons parameter parameters ih =>
      intro acc
      rw [List.foldl_cons]
      obtain ⟨h1, h2⟩ := ih (redirectParameter acc parameter)
      rw [h1, h2]
      unfold redirectParameter
      split_ifs <;> exact ⟨rfl, rfl⟩
  unfold redirected
  cases o.get "redirect-gateway".toList with
  | none => exact ⟨rfl, rfl⟩
  | some defgw =>
    have hkept := hfold (defgw.flatMap List.tail) (r, false)
    dsimp only [checkRedirectParameters]
    rw [if_pos rfl]
    split_ifs <;> exact hkept

/-! ## The way back -/

/-- A route whose network and netmask are written with four octets, the netmask with its ones first. -/
structure RouteLine (route : OptionLine) : Prop where
  network : ∃ net ip, route[1]? = some net ∧ Denotes net ip
  netmask : ∃ l ≤ 32, Denotes (netmaskOf route) (prefixMask l)

theorem digits_of_denotes {t : Text} {ip : BitVec 32} (h : Denotes t ip) :
    ∀ c ∈ t, isDigit c = true ∨ c = '.' := by
  obtain ⟨p1, p2, p3, p4, hsplit, hoctets, -⟩ := h
  intro c hc
  have ht : t = ['.'].intercalate [p1, p2, p3, p4] := by
    rw [← hsplit, List.intercalate_splitOn]
  rw [ht] at hc
  rcases mem_intercalate hc with rfl | ⟨p, hp, hc⟩
  · exact .inr rfl
  · exact .inl (List.all_eq_true.mp (hoctets p hp).digits c hc)

theorem not_mem_of_denotes {t : Text} {ip : BitVec 32} (h : Denotes t ip) {c : Char}
    (hc : isDigit c = false ∧ c ≠ '.') : c ∉ t := by
  intro hm
  rcases digits_of_denotes h c hm with hd | rfl
  · rw [hc.1] at hd
    cases hd
  · exact hc.2 rfl

/-- The text of an address denotes it. -/
theorem denotes_dotted (ip : BitVec 32) : Denotes
    (dotted (ip.toNat / 2 ^ 24) (ip.toNat / 2 ^ 16 % 256) (ip.toNat / 2 ^ 8 % 256) (ip.toNat % 256)) ip := by
  have hlt := ip.isLt
  generalize hn : (ip.toNat : ℤ) = n
  have hbound : ∀ x ∈ [n / 2 ^ 24, n / 2 ^ 16 % 256, n / 2 ^ 8 % 256, n % 256], 0 ≤ x ∧ x ≤ 255 := by
    simp only [List.forall_mem_cons, List.not_mem_nil, false_imp_iff, implies_true, and_true]
    omega
  have hvalue : ∀ x : ℤ, 0 ≤ x → ((digitsValue (decimal x) : ℕ) : ℤ) = x := by
    intro x hx
    rw [decimal_of_nonneg hx, digitsValue_toDigits, Int.toNat_of_nonneg hx]
  refine ⟨_, _, _, _, splitOn_dotted fun x hx => (hbound x hx).1, ?_, ?_⟩
  · intro p hp
    obtain ⟨x, hx, rfl⟩ := List.mem_map.mp
      (show p ∈ [n / 2 ^ 24, n / 2 ^ 16 % 256, n / 2 ^ 8 % 256, n % 256].map decimal from hp)
    exact isOctet_decimal (hbound x hx).1 (hbound x hx).2
  · rw [hvalue _ (by omega), hvalue _ (by omega), hvalue _ (by omega), hvalue _ (by omega), hn, quad]
    omega

theorem denotes_netmaskText {l : ℕ} (hl : l ≤ 32) : Denotes (netmaskText l) (prefixMask l) := by
  have hall : ∀ l : Fin 33, (0xffffffff * 2 ^ (32 - ((l : ℕ) : ℤ)).toNat % 2 ^ 32 : ℤ) =
      (prefixMask l).toNat := by decide
  unfold netmaskText
  rw [hall ⟨l, by omega⟩]
  exact denotes_dotted (prefixMask l)

/-- The network and the prefix length of a route are kept apart by the slash. -/
theorem cidrToIPAndNetmask_text {net : Text} {l : ℕ} (hnet : '/' ∉ net) (hl : l ≤ 32) :
    cidrToIPAndNetmask (CIDRIP.text ⟨net, l⟩) = some (net ++ "  ".toList ++ netmaskText l) := by
  have hpos : (0 : ℤ) ≤ l := Int.natCast_nonneg l
  have hparts : split '/' (CIDRIP.text ⟨net, l⟩) = [net, decimal l] :=
    split_pair hnet (not_mem_decimal hpos (by decide))
      (by rw [decimal_of_nonneg hpos]; exact Nat.toDigits_ne_nil)
  have hlen : parseInt (decimal l) = .ok (l : ℤ) := parseNumber_decimal (by omega) (by omega)
  unfold cidrToIPAndNetmask
  dsimp only
  rw [hparts, if_neg (by simp)]
  dsimp only
  rw [hlen]
  dsimp only
  rw [if_neg (by omega)]

/-- What `RouteLine` says about the network that is taken from the option. -/
theorem RouteLine.cidr {route : OptionLine} (h : RouteLine route) :
    ∃ net ip, ∃ l ≤ 32, cidrOf route = ⟨net, (l : ℕ)⟩ ∧ route[1]? = some net ∧ Denotes net ip ∧
      Denotes (netmaskOf route) (prefixMask l) := by
  obtain ⟨net, ip, hnet, hip⟩ := h.network
  obtain ⟨l, hl, hmask⟩ := h.netmask
  refine ⟨net, ip, l, hl, ?_, hnet, hip, hmask⟩
  rw [cidrOf, hnet, calculateLenFromMask_prefixMask hl hmask]
  rfl

/-- What is printed for a route. -/
def routeText (route : OptionLine) : Text :=
  (cidrOf route).mIp ++ "  ".toList ++ netmaskText (cidrOf route).len

theorem RouteLine.cidrToIPAndNetmask {route : OptionLine} (h : RouteLine route) :
    Config.cidrToIPAndNetmask (cidrOf route).text = some (routeText route) := by
  obtain ⟨net, ip, l, hl, hcidr, -, hip, -⟩ := h.cidr
  rw [routeText, hcidr, cidrToIPAndNetmask_text (not_mem_of_denotes hip (by decide)) hl]

/-- A blank ends each network. -/
theorem splitBlanks_cidrTexts {routes : List OptionLine} (h : ∀ route ∈ routes, RouteLine route) :
    splitBlanks (cidrTexts routes) = routes.map (fun route => (cidrOf route).text) ++ [[]] := by
  induction routes with
  | nil => rfl
  | cons route routes ih =>
    rw [List.forall_mem_cons] at h
    obtain ⟨net, ip, l, hl, hcidr, -, hip, -⟩ := h.1.cidr
    have hfree : ∀ c ∈ (cidrOf route).text, (c == '\n' || c == ' ' || c == '\t') = false := by
      intro c hc
      by_contra hblank
      rw [Bool.not_eq_false, Bool.or_eq_true, Bool.or_eq_true, beq_iff_eq, beq_iff_eq, beq_iff_eq,
        or_assoc] at hblank
      have hsign : isDigit c = false ∧ c ≠ '.' ∧ c ≠ '/' := by
        rcases hblank with rfl | rfl | rfl <;> decide
      rw [hcidr, CIDRIP.text, List.mem_append, List.mem_cons] at hc
      rcases hc with hc | rfl | hc
      · exact not_mem_of_denotes hip ⟨hsign.1, hsign.2.1⟩ hc
      · exact hsign.2.2 rfl
      · exact not_mem_decimal (Int.natCast_nonneg l) hsign.1 hc
    have hsplit : cidrTexts (route :: routes) = (cidrOf route).text ++ ' ' :: cidrTexts routes := by
      simp [cidrTexts]
    rw [hsplit, splitBlanks, List.splitOnP_append_cons_of_forall_mem hfree ' ' rfl, List.map_cons,
      List.cons_append, ← ih h.2]
    rfl

/-- **The routes are printed as they were read.** -/
theorem getCustomRoutes_cidrTexts {routes : List OptionLine} (h : ∀ route ∈ routes, RouteLine route) :
    getCustomRoutes (some (cidrTexts routes)) = routes.map routeText := by
  have hcollect : ∀ {routes : List OptionLine}, (∀ route ∈ routes, RouteLine route) →
      collectRoutes (routes.map (fun route => (cidrOf route).text) ++ [[]]) = routes.map routeText := by
    intro routes
    induction routes with
    | nil => exact fun _ => rfl
    | cons route routes ih =>
      intro h
      rw [List.forall_mem_cons] at h
      have hne : (cidrOf route).text.isEmpty = false := by simp [CIDRIP.text]
      rw [List.map_cons, List.cons_append, collectRoutes, hne, h.1.cidrToIPAndNetmask, List.map_cons,
        ← ih h.2]
      rfl
  rw [getCustomRoutes, splitBlanks_cidrTexts h]
  exact hcollect h

/-! ## The file -/

/-- The texts of the routes, for a profile that is made from the options. -/
theorem ProfileRead.routeTexts {o : OptionMap} {p : VpnProfile}
    (h : ProfileRead o startProfile p) (hroutes : ∀ route ∈ linesOf o "route", RouteLine route) :
    Config.routeTexts p.toRouting =
      if redirectsAll o then ["0.0.0.0 0.0.0.0 vpn_gateway".toList]
      else ((linesOf o "route").filter fun route => !leftOut route).map
          (fun route => routeText route ++ ' ' :: "vpn_gateway".toList) ++
        ((linesOf o "route").filter leftOut).map
          (fun route => routeText route ++ ' ' :: "net_gateway".toList) := by
  obtain ⟨r, hread, hrouting⟩ := h.routing
  have hdefault : p.mUseDefaultRoute = redirectsAll o := by
    rw [hrouting]
    exact redirected_default o hread.default
  obtain ⟨hcustom, hexcluded⟩ := redirected_kept o r
  rw [← hrouting] at hcustom hexcluded
  have hsub : ∀ q : OptionLine → Bool, ∀ route ∈ (linesOf o "route").filter q, RouteLine route :=
    fun q route hmem => hroutes route (List.mem_filter.mp hmem).1
  have hvpn : " vpn_gateway".toList = ' ' :: "vpn_gateway".toList := by decide
  have hnet : " net_gateway".toList = ' ' :: "net_gateway".toList := by decide
  rw [Config.routeTexts, hdefault, hcustom, hexcluded, hvpn, hnet]
  rcases hread.routes with ⟨hnone, hc, he⟩ | ⟨a, b, hconvert, hc, he⟩
  · rw [hc, he, linesOf, hnone]
    rfl
  · obtain ⟨rfl, rfl⟩ := convertRoutes_eq_ok hconvert
    rw [hc, he, getCustomRoutes_cidrTexts (hsub _), getCustomRoutes_cidrTexts (hsub _), List.map_map,
      List.map_map]
    rfl

/-- A printed route stays on its line. -/
theorem RouteLine.newline_not_mem {route : OptionLine} (h : RouteLine route) : '\n' ∉ routeText route := by
  obtain ⟨net, ip, l, hl, hcidr, -, hip, -⟩ := h.cidr
  have hnet : '\n' ∉ net := not_mem_of_denotes hip (by decide)
  have hmask : '\n' ∉ netmaskText l := not_mem_of_denotes (denotes_netmaskText hl) (by decide)
  rw [routeText, hcidr]
  simp [hnet, hmask]

/-- **The routes in the file of an imported configuration.** -/
theorem routeTexts_exported {order : MapOrder} {ctx : Context} {text file : Text} {s : Parser}
    {p : VpnProfile} (h : exported order ctx text = .ok (s, p, file))
    (hroutes : ∀ route ∈ linesOf s.options "route", RouteLine route) :
    routeTexts p.toRouting =
      if redirectsAll s.options then ["0.0.0.0 0.0.0.0 vpn_gateway".toList]
      else ((linesOf s.options "route").filter fun route => !leftOut route).map
          (fun route => routeText route ++ ' ' :: "vpn_gateway".toList) ++
        ((linesOf s.options "route").filter leftOut).map
          (fun route => routeText route ++ ' ' :: "net_gateway".toList) := by
  obtain ⟨-, np, hread, hrouting, -⟩ := exported_eq_ok h
  rw [hrouting]
  exact hread.routeTexts hroutes

theorem newline_not_mem_routeTexts {order : MapOrder} {ctx : Context} {text file : Text} {s : Parser}
    {p : VpnProfile} (h : exported order ctx text = .ok (s, p, file))
    (hroutes : ∀ route ∈ linesOf s.options "route", RouteLine route) :
    ∀ t ∈ routeTexts p.toRouting, '\n' ∉ t := by
  have hfree : ∀ (gateway : String), '\n' ∉ gateway.toList → ∀ q : OptionLine → Bool,
      ∀ t ∈ ((linesOf s.options "route").filter q).map
        (fun route => routeText route ++ ' ' :: gateway.toList), '\n' ∉ t := by
    intro gateway hgateway q t ht
    obtain ⟨route, hroute, rfl⟩ := List.mem_map.mp ht
    have hroute := (hroutes route (List.mem_filter.mp hroute).1).newline_not_mem
    rw [List.mem_append, List.mem_cons]
    rintro (hc | hc | hc)
    · exact hroute hc
    · cases hc
    · exact hgateway hc
  rw [routeTexts_exported h hroutes]
  split_ifs
  · decide
  · exact List.forall_mem_append.mpr ⟨hfree _ (by decide) _, hfree _ (by decide) _⟩

/-! ## What the routes of a configuration come to -/

/-- The line is the route through the gateway, with the same network and the same netmask. -/
def IsRoute (gateway : String) (route : OptionLine) (line : Text) : Prop :=
  ∃ net netmask mask, route[1]? = some net ∧ Denotes (netmaskOf route) mask ∧ Denotes netmask mask ∧
    line = routeWords ++ (net ++ "  ".toList ++ netmask ++ ' ' :: gateway.toList)

def defaultRouteLine : Text := "route 0.0.0.0 0.0.0.0 vpn_gateway".toList

/-- The line is a default route or one of the routes. -/
def Imported (routes : List OptionLine) (line : Text) : Prop :=
  line = defaultRouteLine ∨
    ∃ route ∈ routes, IsRoute (if leftOut route then "net_gateway" else "vpn_gateway") route line

/-- The routes of a configuration are those of the lines. -/
structure RoutesKept (routes : List OptionLine) (lines : List Text) : Prop where
  past : ∀ route ∈ routes, leftOut route = true → ∃ line ∈ lines, IsRoute "net_gateway" route line
  through : (∀ route ∈ routes, leftOut route = false → ∃ line ∈ lines, IsRoute "vpn_gateway" route line) ∨
    defaultRouteLine ∈ lines
  others : ∀ line ∈ lines, Imported routes line

theorem RouteLine.isRoute {route : OptionLine} (h : RouteLine route) (gateway : String) :
    IsRoute gateway route (routeWords ++ (routeText route ++ ' ' :: gateway.toList)) := by
  obtain ⟨net, ip, l, hl, hcidr, hnet, -, hmask⟩ := h.cidr
  refine ⟨net, netmaskText l, prefixMask l, hnet, hmask, denotes_netmaskText hl, ?_⟩
  rw [routeText, hcidr]

/-- The default route goes through the VPN. -/
theorem not_isRoute_default (route : OptionLine) : ¬IsRoute "net_gateway" route defaultRouteLine := by
  rintro ⟨net, netmask, mask, -, -, -, heq⟩
  have hdefault : defaultRouteLine.drop (defaultRouteLine.length - 11) = "vpn_gateway".toList := by decide
  have hgateway : "net_gateway".toList <:+ defaultRouteLine := by
    rw [heq, ← List.singleton_append, ← List.append_assoc, ← List.append_assoc]
    exact List.suffix_append _ _
  rw [List.suffix_iff_eq_drop] at hgateway
  exact absurd (hgateway.trans hdefault) (by decide)

/-- What the section of the routes prints. -/
theorem routeLines_imported {routes : List OptionLine} (hroutes : ∀ route ∈ routes, RouteLine route) :
    RoutesKept routes (((routes.filter fun route => !leftOut route).map
        (fun route => routeText route ++ ' ' :: "vpn_gateway".toList) ++
      (routes.filter leftOut).map (fun route => routeText route ++ ' ' :: "net_gateway".toList)).map
        (routeWords ++ ·)) where
  past route hroute hout := by
    refine ⟨_, List.mem_map_of_mem (List.mem_append_right _ (List.mem_map_of_mem
      (List.mem_filter.mpr ⟨hroute, hout⟩))), (hroutes route hroute).isRoute _⟩
  through := .inl fun route hroute hin => by
    refine ⟨_, List.mem_map_of_mem (List.mem_append_left _ (List.mem_map_of_mem
      (List.mem_filter.mpr ⟨hroute, by rw [hin]; rfl⟩))), (hroutes route hroute).isRoute _⟩
  others line hline := by
    refine .inr ?_
    obtain ⟨t, ht, rfl⟩ := List.mem_map.mp hline
    rcases List.mem_append.mp ht with ht | ht
    · obtain ⟨route, hroute, rfl⟩ := List.mem_map.mp ht
      obtain ⟨hroute, hin⟩ := List.mem_filter.mp hroute
      rw [Bool.not_eq_true_eq_eq_false] at hin
      refine ⟨route, hroute, ?_⟩
      rw [hin]
      exact (hroutes route hroute).isRoute _
    · obtain ⟨route, hroute, rfl⟩ := List.mem_map.mp ht
      obtain ⟨hroute, hout⟩ := List.mem_filter.mp hroute
      refine ⟨route, hroute, ?_⟩
      rw [hout]
      exact (hroutes route hroute).isRoute _

/-- A network of the VPN and one past it. -/
def tenRoute : OptionLine := ["route", "10.0.0.0", "255.0.0.0"].map String.toList

def homeRoute : OptionLine := ["route", "192.168.1.0", "255.255.255.0", "net_gateway"].map String.toList

theorem routeLine_samples : ∀ route ∈ [tenRoute, homeRoute], RouteLine route := by
  have hten : Denotes "10.0.0.0".toList 0x0a000000#32 :=
    ⟨['1', '0'], ['0'], ['0'], ['0'], by decide, by decide, by decide⟩
  have htenMask : Denotes "255.0.0.0".toList (prefixMask 8) :=
    ⟨"255".toList, ['0'], ['0'], ['0'], by decide, by decide, by decide⟩
  have hhome : Denotes "192.168.1.0".toList 0xc0a80100#32 :=
    ⟨"192".toList, "168".toList, ['1'], ['0'], by decide, by decide, by decide⟩
  have hhomeMask : Denotes "255.255.255.0".toList (prefixMask 24) :=
    ⟨"255".toList, "255".toList, "255".toList, ['0'], by decide, by decide, by decide⟩
  simp only [List.forall_mem_cons, List.not_mem_nil, false_imp_iff, implies_true, and_true]
  exact ⟨⟨⟨_, _, rfl, hten⟩, 8, by decide, htenMask⟩, ⟨_, _, rfl, hhome⟩, 24, by decide, hhomeMask⟩

end VpnCore.Config
