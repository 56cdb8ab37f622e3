import VpnCore.Config.Options

/-!
# VpnCore.Config.Groups — how reading the groups of options ends

`convertProfile` reads the options group by group.  Each lemma says on the lines of the file when its group
is read, and when an exception that is not a `ConfigParseError` escapes: in the loop over the bits of
a netmask, at the array index in the netmask of `ifconfig`, in the message for an unknown `auth-retry`,
and never in the other groups.
-/

namespace VpnCore.Config

open VpnCore.Lib Route

variable {o : OptionMap} {K : List String} {s : OptionMap}

/-! ## Netmasks -/

/-- Four numbers with a bit to stop at. -/
def ReadableMask (mask : Text) : Prop := ∃ n, getInt mask = .ok n ∧ wrap 64 (n + 2 ^ 32) ≠ 0

/-- Four numbers whose value cancels the bit that the loop stops at. -/
def EndlessMask (mask : Text) : Prop := ∃ n, getInt mask = .ok n ∧ wrap 64 (n + 2 ^ 32) = 0

/-- Numbers, but fewer than four. -/
def ShortMask (mask : Text) : Prop :=
  (split '.' mask).length < 4 ∧
    ∀ part ∈ (split '.' mask).zip [64, 32, 32, 32], (parseNumber part.2 part.1).isOk = true

/-- The parts of an address from the place `i` on, each with its number of bits. -/
def readParts (ipt : List Text) : ℕ → List ℕ → Except Thrown (List ℤ)
  | _, [] => .ok []
  | i, bits :: sizes => do
    let n ← parseNumber bits (← elementAt ipt i)
    return n :: (← readParts ipt (i + 1) sizes)

/-- The parts are read, or some are missing, or one is no number. -/
theorem readParts_cases (ipt : List Text) : ∀ (sizes : List ℕ) (i : ℕ),
    (∃ ns, readParts ipt i sizes = .ok ns ∧ ns.length = sizes.length ∧
      sizes.length ≤ (ipt.drop i).length) ∨
    ((ipt.drop i).length < sizes.length ∧
      (∀ part ∈ (ipt.drop i).zip sizes, (parseNumber part.2 part.1).isOk = true) ∧
      readParts ipt i sizes = .error arrayIndexOutOfBoundsException) ∨
    ((∃ part ∈ (ipt.drop i).zip sizes, (parseNumber part.2 part.1).isOk = false) ∧
      readParts ipt i sizes = .error numberFormatException)
  | [], i => .inl ⟨[], rfl, rfl, Nat.zero_le _⟩
  | bits :: sizes, i => by
    rw [readParts, elementAt]
    cases hd : ipt.drop i with
    | nil =>
      have hnone : ipt[i]? = none := by rw [← List.head?_drop, hd]; rfl
      rw [hnone]
      exact .inr (.inl ⟨Nat.succ_pos _, by simp, rfl⟩)
    | cons part rest =>
      have hsome : ipt[i]? = some part := by rw [← List.head?_drop, hd]; rfl
      have hrest : ipt.drop (i + 1) = rest := by rw [← List.drop_drop, hd]; rfl
      rw [hsome, List.zip_cons_cons]
      cases hp : parseNumber bits part with
      | error e =>
        obtain rfl := parseNumber_error hp
        refine .inr (.inr ⟨⟨(part, bits), List.mem_cons_self, by rw [hp]; rfl⟩, ?_⟩)
        change (parseNumber bits part >>= _) = _
        rw [hp]
        rfl
      | ok n =>
        have hok : (parseNumber bits part).isOk = true := by rw [hp]; rfl
        have hstep : ∀ x, readParts ipt (i + 1) sizes = x →
            ((.ok part : Except Thrown Text) >>= fun t => parseNumber bits t >>= fun n =>
              readParts ipt (i + 1) sizes >>= fun ns => pure (n :: ns)) = x.map (n :: ·) := by
          rintro x rfl
          change (parseNumber bits part >>= _) = _
          rw [hp]
          cases readParts ipt (i + 1) sizes <;> rfl
        have ih := readParts_cases ipt sizes (i + 1)
        rw [hrest] at ih
        rcases ih with ⟨ns, hns, hlen, hle⟩ | ⟨hlt, hall, herr⟩ | ⟨⟨bad, hbad, hno⟩, herr⟩
        · exact .inl ⟨n :: ns, hstep _ hns, congrArg Nat.succ hlen, Nat.succ_le_succ hle⟩
        · exact .inr (.inl ⟨Nat.succ_lt_succ hlt, List.forall_mem_cons.mpr ⟨hok, hall⟩,
            hstep _ herr⟩)
        · exact .inr (.inr ⟨⟨bad, List.mem_cons_of_mem _ hbad, hno⟩, hstep _ herr⟩)

theorem getInt_eq (mask : Text) :
    getInt mask = readParts (split '.' mask) 0 [64, 32, 32, 32] >>= fun ns =>
      match ns with
      | [a, b, c, d] =>
        .ok (wrap 64 (wrap 64 (a * 2 ^ 24) + wrap 32 (b * 2 ^ 16) + wrap 32 (c * 2 ^ 8) + d))
      | _ => .error arrayIndexOutOfBoundsException := by
  simp only [readParts, bind_assoc, pure_bind]
  rfl

/-- The numbers of a mask are read, or some are missing, or one is no number. -/
theorem getInt_cases (mask : Text) :
    ((∃ n, getInt mask = .ok n) ∧ ¬ ShortMask mask) ∨
    (ShortMask mask ∧ getInt mask = .error arrayIndexOutOfBoundsException) ∨
    (¬ ShortMask mask ∧ getInt mask = .error numberFormatException) := by
  rw [getInt_eq]
  have hcases := readParts_cases (split '.' mask) [64, 32, 32, 32] 0
  rw [List.drop_zero] at hcases
  rcases hcases with ⟨ns, hns, hlen, hle⟩ | ⟨hlt, hall, herr⟩ | ⟨⟨bad, hbad, hno⟩, herr⟩
  · rw [hns]
    refine .inl ⟨?_, fun hshort => absurd hshort.1 (not_lt.mpr hle)⟩
    match ns, hlen with
    | [a, b, c, d], _ => exact ⟨_, rfl⟩
  · rw [herr]
    exact .inr (.inl ⟨⟨hlt, hall⟩, rfl⟩)
  · rw [herr]
    exact .inr (.inr ⟨fun hshort => by simp [hshort.2 bad hbad] at hno, rfl⟩)

theorem ofMask_eq (ip mask : Text) :
    CIDRIP.ofMask ip mask = getInt mask >>= fun n =>
      if wrap 64 (n + 2 ^ 32) = 0 then .error .endless
      else
        let (lenZeros, rest) := shiftOut 64 0 (wrap 64 (n + 2 ^ 32))
        .ok ⟨ip, if rest ≠ 0x1ffffffff / 2 ^ lenZeros then 32 else 32 - lenZeros⟩ := by
  rw [CIDRIP.ofMask, calculateLenFromMask, bind_assoc]
  congr 1
  funext n
  by_cases hzero : wrap 64 (n + 2 ^ 32) = 0
  · rw [if_pos hzero, if_pos hzero]
    rfl
  · rw [if_neg hzero, if_neg hzero]
    rfl

/-- How the constructor with a netmask ends. -/
theorem ofMask_cases (ip mask : Text) :
    (ReadableMask mask ∧ ¬ EndlessMask mask ∧ ¬ ShortMask mask ∧
      ∃ cidr, CIDRIP.ofMask ip mask = .ok cidr) ∨
    (EndlessMask mask ∧ ¬ ReadableMask mask ∧ CIDRIP.ofMask ip mask = .error .endless) ∨
    (ShortMask mask ∧ ¬ ReadableMask mask ∧ ¬ EndlessMask mask ∧
      CIDRIP.ofMask ip mask = .error arrayIndexOutOfBoundsException) ∨
    (¬ ReadableMask mask ∧ ¬ EndlessMask mask ∧ ¬ ShortMask mask ∧
      CIDRIP.ofMask ip mask = .error numberFormatException) := by
  rw [ofMask_eq]
  rcases getInt_cases mask with ⟨⟨n, hn⟩, hshort⟩ | ⟨hshort, herr⟩ | ⟨hshort, herr⟩
  · have hiff : ∀ P : ℤ → Prop, (∃ m, getInt mask = .ok m ∧ P m) ↔ P n := by
      intro P
      rw [hn]
      exact ⟨fun ⟨m, hm, h⟩ => Except.ok.inj hm ▸ h, fun h => ⟨n, rfl, h⟩⟩
    rw [ReadableMask, EndlessMask, hiff, hiff, hn]
    by_cases hzero : wrap 64 (n + 2 ^ 32) = 0
    · exact .inr (.inl ⟨hzero, fun h => h hzero, if_pos hzero⟩)
    · exact .inl ⟨hzero, hzero, hshort, _, if_neg hzero⟩
  · have hno : ∀ P : ℤ → Prop, ¬ ∃ m, getInt mask = .ok m ∧ P m := by
      rintro P ⟨m, hm, -⟩
      rw [herr] at hm
      cases hm
    exact .inr (.inr (.inl ⟨hshort, hno _, hno _, by rw [herr]; rfl⟩))
  · have hno : ∀ P : ℤ → Prop, ¬ ∃ m, getInt mask = .ok m ∧ P m := by
      rintro P ⟨m, hm, -⟩
      rw [herr] at hm
      cases hm
    exact .inr (.inr (.inr ⟨hno _, hno _, hshort, by rw [herr]; rfl⟩))

/-! ## Routes -/

/-- The netmask of a `route` line. -/
def netmaskOf (route : OptionLine) : Text := route[2]?.getD "255.255.255.255".toList

theorem routeMask_ends (acc : Text × Text) (net netmask gateway : Text) :
    EndsIn (ReadableMask netmask) (EndlessMask netmask) (fun _ => True)
      (match CIDRIP.ofMask net netmask with
      | .error e => throw (routeNetmaskError netmask e)
      | .ok cidr =>
        if gateway = netGateway then return (acc.1, acc.2 ++ cidr.text ++ [' '])
        else return (acc.1 ++ cidr.text ++ [' '], acc.2)) := by
  rcases ofMask_cases net netmask with ⟨hread, hno, -, cidr, heq⟩ | ⟨hend, hno, heq⟩ |
    ⟨-, hno, hno', heq⟩ | ⟨hno, hno', -, heq⟩ <;> rw [heq]
  · dsimp only
    split_ifs
    · exact .returns hread hno trivial
    · exact .returns hread hno trivial
  · exact .escapes hno hend id
  · exact .declared hno hno' trivial
  · exact .declared hno hno' trivial

theorem convertRoute_ends {route : OptionLine} (h : wrongLength 1 4 route = false)
    (acc : Text × Text) :
    EndsIn (ReadableMask (netmaskOf route)) (EndlessMask (netmaskOf route)) (fun _ => True)
      (convertRoute acc route) := by
  rw [wrongLength] at h
  rcases route with _ | ⟨_, _ | ⟨net, _ | ⟨netmask, _ | ⟨gateway, _ | ⟨_, _ | ⟨_, _⟩⟩⟩⟩⟩⟩
  · simp at h
  · simp at h
  · exact routeMask_ends acc net "255.255.255.255".toList "vpn_gateway".toList
  · exact routeMask_ends acc net netmask "vpn_gateway".toList
  · exact routeMask_ends acc net netmask gateway
  · exact routeMask_ends acc net netmask gateway
  · simp at h

theorem convertRouteV6_ends {route : OptionLine} (h : wrongLength 1 4 route = false) (acc : Text) :
    EndsIn True False (fun _ => True) (convertRouteV6 acc route) := by
  rw [wrongLength] at h
  rcases route with _ | ⟨_, _ | ⟨_, _⟩⟩
  · simp at h
  · simp at h
  · exact ends_ok trivial

/-- The routes are read. -/
structure RoutesOk (o : OptionMap) : Prop where
  route : Arity o "route" 1 4
  masks : ∀ line ∈ linesOf o "route", ReadableMask (netmaskOf line)
  other : Arities o [("route-ipv6", 1, 4), ("route-nopull", 0, 0)]

/-- The first route that cannot be read does not end. -/
def RoutesEndless (o : OptionMap) : Prop :=
  Arity o "route" 1 4 ∧
    FirstEscapes (fun line => ReadableMask (netmaskOf line)) (fun line => EndlessMask (netmaskOf line))
      (linesOf o "route")

theorem linesOf_eq {option : String} {lines : List OptionLine} (h : o.get option.toList = some lines) :
    linesOf o option = lines := by rw [linesOf, h, Option.getD_some]

theorem linesOf_eq_nil {option : String} (h : o.get option.toList = none) :
    linesOf o option = [] := by rw [linesOf, h, Option.getD_none]

theorem readRoutes_ends (r : Routing) (hs : LeftBy o K s)
    (hK : ∀ k ∈ ["route", "route-ipv6", "route-nopull"], k ∉ K) :
    EndsIn (RoutesOk o) (RoutesEndless o)
      (fun r => LeftBy o (["route-nopull", "route-ipv6", "route"] ++ K) r.2)
      ((readRoutes r).run s) := by
  unfold readRoutes
  refine Ends.of_iff ((getAllOption_ends hs (hK "route" (by simp))).andThen
    (q := (∀ line ∈ linesOf o "route", ReadableMask (netmaskOf line)) ∧
      Arities o [("route-ipv6", 1, 4), ("route-nopull", 0, 0)])
    (d := FirstEscapes (fun line => ReadableMask (netmaskOf line))
      (fun line => EndlessMask (netmaskOf line)) (linesOf o "route")) ?_)
    ⟨fun h => ⟨h.1, h.2.1, h.2.2⟩, fun h => ⟨h.route, h.masks, h.other⟩⟩ Iff.rfl
  rintro ⟨routes, s⟩ harity ⟨hroutes, hs⟩
  extract_lets jp
  dsimp only at hroutes hs
  have hrest : ∀ y, EndsIn (Arities o [("route-ipv6", 1, 4), ("route-nopull", 0, 0)]) False
      (fun r => LeftBy o (["route-nopull", "route-ipv6", "route"] ++ K) r.2) ((jp y).run s) := by
    rintro ⟨a, b⟩
    refine (getAllOption_ends hs (by simpa using hK "route-ipv6" (by simp))).fine ?_
    rintro ⟨routes, s⟩ harity ⟨hroutes, hs⟩
    extract_lets jp'
    dsimp only at hroutes hs
    have hflag : ∀ y, EndsIn (Arities o [("route-nopull", 0, 0)]) False
        (fun r => LeftBy o (["route-nopull", "route-ipv6", "route"] ++ K) r.2) ((jp' y).run s) :=
      fun y => (getFlag_ends hs (by simpa using hK "route-nopull" (by simp))).fine
        fun r _ hr => ends_ok hr.2
    cases routes with
    | none => exact hflag r.mCustomRoutesv6
    | some routes =>
      rw [Arity, linesOf_eq hroutes.symm] at harity
      refine Ends.of_iff (ends_lift (ends_foldlM [] fun line hline acc =>
        convertRouteV6_ends (harity line hline) acc) fun y _ _ => hflag y) ?_ ?_
      · simp
      · simp [firstEscapes_false]
  cases routes with
  | none =>
    refine Ends.of_iff (hrest (r.mCustomRoutes, r.mExcludedRoutes)) ?_ ?_
    · simp [linesOf_eq_nil hroutes.symm]
    · simp [linesOf_eq_nil hroutes.symm, FirstEscapes]
  | some routes =>
    rw [Arity, linesOf_eq hroutes.symm] at harity
    rw [linesOf_eq hroutes.symm]
    refine Ends.of_iff (ends_lift (ends_foldlM ([], []) fun line hline acc =>
      convertRoute_ends (harity line hline) acc) fun y _ _ => hrest (some y.1, some y.2)) Iff.rfl ?_
    simp

/-! ## Keys -/

theorem readPull_ends (hs : LeftBy o K s) :
    EndsIn True False (fun r => LeftBy o (["client", "pull"] ++ K) r.2) (readPull.run s) := by
  change EndsIn _ _ _ ((if _ then _ else _ : Convert Bool).run s)
  split_ifs
  · exact ends_ok ((hs.remove "pull").remove "client")
  · exact ends_ok (hs.mono fun k hk => List.mem_append_right _ hk)

theorem readSecret_ends (hs : LeftBy o K s) (hK : "secret" ∉ K) :
    EndsIn (Arity o "secret" 1 2) False (fun r => LeftBy o ("secret" :: K) r.2)
      (readSecret.run s) := by
  refine Ends.of_iff ((getOption_ends hs hK).fine (q := True) ?_) (by simp) Iff.rfl
  rintro ⟨line, s⟩ harity ⟨hline, hs⟩
  dsimp only at hline hs
  cases line with
  | none => exact ends_ok hs
  | some line =>
    rcases shape_of_wrongLength_one_two (harity line (List.mem_of_getLast? hline.symm)) with
      ⟨a, b, rfl⟩ | ⟨a, b, c, rfl⟩
    · exact ends_ok hs
    · exact ends_ok hs

theorem convertTlsAuth_ends {line : OptionLine} (h : wrongLength 1 2 line = false) (t : TlsAuth) :
    EndsIn True False (fun _ => True) (convertTlsAuth t line) := by
  rcases shape_of_wrongLength_one_two h with ⟨a, b, rfl⟩ | ⟨a, b, c, rfl⟩
  · exact ends_ok trivial
  · exact ends_ok trivial

theorem readTlsCrypt_ends (crypt : String) (t : TlsAuth) (hs : LeftBy o K s) (hK : crypt ∉ K) :
    EndsIn (Arity o crypt 1 1) False (fun r => LeftBy o (crypt :: K) r.2)
      ((readTlsCrypt crypt t).run s) := by
  refine Ends.of_iff ((getArgument_ends hs hK).fine (q := True) ?_) (by simp) Iff.rfl
  rintro ⟨_ | file, s⟩ - ⟨-, hs⟩
  · exact ends_ok hs
  · exact ends_ok hs

def keyTable : List (String × ℕ × ℕ) :=
  [("tls-auth", 1, 2), ("key-direction", 1, 1), ("tls-crypt", 1, 1), ("tls-crypt-v2", 1, 1)]

theorem readTlsAuth_ends (t : TlsAuth) (hs : LeftBy o K s)
    (hK : ∀ k ∈ ["tls-auth", "key-direction", "tls-crypt", "tls-crypt-v2"], k ∉ K) :
    EndsIn (Arities o keyTable) False
      (fun r => LeftBy o (["tls-crypt-v2", "tls-crypt", "key-direction", "tls-auth"] ++ K) r.2)
      ((readTlsAuth t).run s) := by
  unfold readTlsAuth
  refine (getAllOption_ends hs (hK "tls-auth" (by simp))).fine ?_
  rintro ⟨lines, s⟩ harity ⟨hlines, hs⟩
  extract_lets jp
  dsimp only at hlines hs
  have hrest : ∀ t, EndsIn
      (Arities o [("key-direction", 1, 1), ("tls-crypt", 1, 1), ("tls-crypt-v2", 1, 1)]) False
      (fun r => LeftBy o (["tls-crypt-v2", "tls-crypt", "key-direction", "tls-auth"] ++ K) r.2)
      ((jp t).run s) := by
    intro t
    refine (getArgument_ends hs (by simpa using hK "key-direction" (by simp))).fine fun r _ hr => ?_
    refine (readTlsCrypt_ends "tls-crypt" _ hr.2
      (by simpa using hK "tls-crypt" (by simp))).fine fun r _ hr => ?_
    exact (readTlsCrypt_ends "tls-crypt-v2" _ hr
      (by simpa using hK "tls-crypt-v2" (by simp))).of_iff (by simp [Arities]) Iff.rfl
  cases lines with
  | none => exact hrest t
  | some lines =>
    rw [Arity, linesOf_eq hlines.symm] at harity
    refine Ends.of_iff (ends_lift (ends_foldlM t fun line hline t =>
      convertTlsAuth_ends (harity line hline) t) fun t _ _ => hrest t) ?_ ?_
    · simp
    · simp [firstEscapes_false]

/-! ## The device and its addresses -/

theorem readRedirect_ends (r : Routing) (hs : LeftBy o K s)
    (hK : ∀ k ∈ ["redirect-gateway", "redirect-private"], k ∉ K) :
    EndsIn (Arities o [("redirect-gateway", 0, 7), ("redirect-private", 0, 5)]) False
      (fun r => LeftBy o (["redirect-private", "redirect-gateway"] ++ K) r.2)
      ((readRedirect r).run s) := by
  refine (getAllOption_ends hs (hK "redirect-gateway" (by simp))).fine fun r' _ hr => ?_
  refine (getAllOption_ends hr.2 (by simpa using hK "redirect-private" (by simp))).fine
    fun r' _ hr => ?_
  exact ends_ok hr.2

/-- Only `tun` devices. -/
def TunOnly (o : OptionMap) : Prop :=
  lastArg o "dev-type" 1 = some "tun".toList ∨
    (lastArg o "dev" 1).any (startsWith · "tun".toList) = true ∨
    lastArg o "dev-type" 1 = none ∧ lastArg o "dev" 1 = none

instance : Decidable (TunOnly o) := inferInstanceAs (Decidable (_ ∨ _ ∨ _))

theorem readDev_ends (hs : LeftBy o K s) (hK : ∀ k ∈ ["dev", "dev-type"], k ∉ K) :
    EndsIn (Arities o [("dev", 1, 1), ("dev-type", 1, 1)] ∧ TunOnly o) False
      (fun r => LeftBy o (["dev-type", "dev"] ++ K) r.2) (readDev.run s) := by
  refine Ends.of_iff ((getArgument_ends hs (hK "dev" (by simp))).fine
    (q := Arity o "dev-type" 1 1 ∧ TunOnly o) ?_) (by simp [Arities, and_assoc]) Iff.rfl
  rintro ⟨dev, s⟩ - ⟨hdev, hs⟩
  refine (getArgument_ends hs (by simpa using hK "dev-type" (by simp))).fine ?_
  rintro ⟨devtype, s'⟩ - ⟨htype, hs'⟩
  dsimp only at hdev htype hs'
  subst hdev htype
  change EndsIn _ _ _ ((if TunOnly o then _ else _ : Convert Unit).run s')
  split_ifs with h
  · exact .returns h id hs'
  · exact .declared h id trivial

/-- `Integer.parseInt` accepts the text. -/
def IsInteger (t : Text) : Prop := (parseInt t).isOk = true

theorem integerArgument_ends (message : Text → Text) (t : Text) :
    EndsIn (IsInteger t) False (fun _ => True) (integerArgument message t) := by
  rw [integerArgument, IsInteger]
  cases parseInt t with
  | ok n => exact (ends_ok trivial).of_iff (by simp [Except.isOk, Except.toBool]) Iff.rfl
  | error e => exact .declared (by simp [Except.isOk, Except.toBool]) id trivial

/-- The sizes are integers. -/
structure MtuOk (o : OptionMap) : Prop where
  arities : Arities o [("mssfix", 0, 1), ("tun-mtu", 1, 1)]
  mssfix : ∀ t, lastArg o "mssfix" 1 = some t → IsInteger t
  tunMtu : ∀ t, lastArg o "tun-mtu" 1 = some t → IsInteger t

theorem readMtu_ends (a : Addressing) (hs : LeftBy o K s)
    (hK : ∀ k ∈ ["mssfix", "tun-mtu"], k ∉ K) :
    EndsIn (MtuOk o) False (fun r => LeftBy o (["tun-mtu", "mssfix"] ++ K) r.2)
      ((readMtu a).run s) := by
  unfold readMtu
  refine Ends.of_iff ((getOption_ends hs (hK "mssfix" (by simp))).fine
    (q := (∀ t, lastArg o "mssfix" 1 = some t → IsInteger t) ∧ Arity o "tun-mtu" 1 1 ∧
      ∀ t, lastArg o "tun-mtu" 1 = some t → IsInteger t) ?_)
    ⟨fun ⟨h1, h2, h3, h4⟩ => ⟨⟨h1, h3, trivial⟩, h2, h4⟩,
      fun ⟨⟨h1, h3, _⟩, h2, h4⟩ => ⟨h1, h2, h3, h4⟩⟩ Iff.rfl
  rintro ⟨line, s⟩ harity ⟨hline, hs⟩
  extract_lets jp
  dsimp only at hline hs
  have hrest : ∀ n, EndsIn (Arity o "tun-mtu" 1 1 ∧
      ∀ t, lastArg o "tun-mtu" 1 = some t → IsInteger t) False
      (fun r => LeftBy o (["tun-mtu", "mssfix"] ++ K) r.2) ((jp n).run s) := by
    intro n
    refine (getArgument_ends hs (by simpa using hK "tun-mtu" (by simp))).fine ?_
    rintro ⟨tunmtu, s⟩ - ⟨htun, hs⟩
    extract_lets jp'
    dsimp only at htun hs
    rw [← htun]
    have hret : ∀ n, EndsIn True False (fun r => LeftBy o (["tun-mtu", "mssfix"] ++ K) r.2)
        ((jp' n).run s) := fun n => ends_ok hs
    cases tunmtu with
    | none => exact (hret a.mTunMtu).of_iff (by simp) Iff.rfl
    | some t =>
      exact (ends_lift (integerArgument_ends _ t) fun n _ _ => hret n).of_iff (by simp) (by simp)
  cases line with
  | none => exact (hrest a.mMssFix).of_iff (by simp [lastArg, ← hline]) Iff.rfl
  | some line =>
    rcases shape_of_wrongLength_zero_one (harity line (List.mem_of_getLast? hline.symm)) with
      ⟨name, rfl⟩ | ⟨name, t, rfl⟩
    · exact (hrest 1450).of_iff (by simp [lastArg, ← hline]) Iff.rfl
    · refine (ends_lift (integerArgument_ends _ t) fun n _ _ => hrest n).of_iff ?_ (by simp)
      simp [lastArg, ← hline]

/-- Only the mode `p2p`. -/
structure ModeOk (o : OptionMap) : Prop where
  mode : Arity o "mode" 1 1
  p2p : ∀ t, lastArg o "mode" 1 = some t → t = "p2p".toList

theorem readMode_ends (hs : LeftBy o K s) (hK : "mode" ∉ K) :
    EndsIn (ModeOk o) False (fun r => LeftBy o ("mode" :: K) r.2) (readMode.run s) := by
  refine Ends.of_iff ((getArgument_ends hs hK).fine
    (q := ∀ t, lastArg o "mode" 1 = some t → t = "p2p".toList) ?_)
    ⟨fun h => ⟨h.1, h.2⟩, fun h => ⟨h.mode, h.p2p⟩⟩ Iff.rfl
  rintro ⟨mode, s⟩ - ⟨hmode, hs⟩
  dsimp only at hmode hs
  rw [← hmode]
  change EndsIn _ _ _ ((if _ then _ else _ : Convert Unit).run s)
  split_ifs with h
  · refine .declared (fun hall => ?_) id trivial
    obtain ⟨t, rfl⟩ := Option.isSome_iff_exists.mp (Option.isSome_of_any h)
    simp [hall t rfl] at h
  · refine .returns ?_ id hs
    rintro t rfl
    simpa using h

theorem convertDhcpOption_ends {line : OptionLine} (h : wrongLength 2 2 line = false)
    (a : Addressing) : EndsIn True False (fun _ => True) (convertDhcpOption a line) := by
  obtain ⟨name, type, arg, rfl⟩ := shape_of_wrongLength_two_two h
  change EndsIn _ _ _ (if _ then _ else if _ then if _ then _ else _ else _)
  split_ifs <;> exact ends_ok trivial

theorem convertIfconfig_ends (name ip mask : Text) :
    EndsIn (ReadableMask mask) (ShortMask mask ∨ EndlessMask mask) (fun _ => True)
      (convertIfconfig [name, ip, mask]) := by
  rcases ofMask_cases ip mask with ⟨hread, hno, hno', cidr, heq⟩ | ⟨hend, hno, heq⟩ |
    ⟨hshort, hno, -, heq⟩ | ⟨hno, hno', hno'', heq⟩ <;>
    simp only [convertIfconfig, elementAt, List.getElem?_cons_succ, List.getElem?_cons_zero, ok_bind, heq]
  · exact .returns hread (fun h => h.elim hno' hno) trivial
  · exact .escapes hno (.inr hend) id
  · refine .escapes hno (.inl hshort) ?_
    rw [ifconfigError, if_neg (by decide)]
    exact id
  · exact .declared hno (fun h => h.elim hno'' hno') trivial

/-- The addresses are read. -/
structure AddressesOk (o : OptionMap) : Prop where
  arities : Arities o [("dhcp-option", 2, 2), ("ifconfig", 2, 2)]
  mask : ∀ mask, lastArg o "ifconfig" 2 = some mask → ReadableMask mask

/-- The netmask of `ifconfig` is too short or has no bit to stop at. -/
structure AddressesEscape (o : OptionMap) : Prop where
  arities : Arities o [("dhcp-option", 2, 2), ("ifconfig", 2, 2)]
  mask : ∃ mask, lastArg o "ifconfig" 2 = some mask ∧ (ShortMask mask ∨ EndlessMask mask)

theorem readAddresses_ends (a : Addressing) (hs : LeftBy o K s)
    (hK : ∀ k ∈ ["dhcp-option", "ifconfig"], k ∉ K) :
    EndsIn (AddressesOk o) (AddressesEscape o)
      (fun r => LeftBy o (["ifconfig", "dhcp-option"] ++ K) r.2) ((readAddresses a).run s) := by
  unfold readAddresses
  refine Ends.of_iff ((getAllOption_ends hs (hK "dhcp-option" (by simp))).andThen
    (q := Arity o "ifconfig" 2 2 ∧ ∀ mask, lastArg o "ifconfig" 2 = some mask → ReadableMask mask)
    (d := Arity o "ifconfig" 2 2 ∧
      ∃ mask, lastArg o "ifconfig" 2 = some mask ∧ (ShortMask mask ∨ EndlessMask mask)) ?_)
    ⟨fun ⟨h1, h2, h3⟩ => ⟨⟨h1, h2, trivial⟩, h3⟩, fun ⟨⟨h1, h2, _⟩, h3⟩ => ⟨h1, h2, h3⟩⟩
    ⟨fun ⟨h1, h2, h3⟩ => ⟨⟨h1, h2, trivial⟩, h3⟩, fun ⟨⟨h1, h2, _⟩, h3⟩ => ⟨h1, h2, h3⟩⟩
  rintro ⟨lines, s⟩ harity ⟨hlines, hs⟩
  extract_lets jp
  dsimp only at hlines hs
  have hrest : ∀ a, EndsIn
      (Arity o "ifconfig" 2 2 ∧ ∀ mask, lastArg o "ifconfig" 2 = some mask → ReadableMask mask)
      (Arity o "ifconfig" 2 2 ∧
        ∃ mask, lastArg o "ifconfig" 2 = some mask ∧ (ShortMask mask ∨ EndlessMask mask))
      (fun r => LeftBy o (["ifconfig", "dhcp-option"] ++ K) r.2) ((jp a).run s) := by
    intro a
    refine (getOption_ends hs (by simpa using hK "ifconfig" (by simp))).andThen ?_
    rintro ⟨line, s⟩ harity ⟨hline, hs⟩
    dsimp only at hline hs
    cases line with
    | none =>
      refine .returns ?_ ?_ hs
      · simp [lastArg, ← hline]
      · simp [lastArg, ← hline]
    | some line =>
      obtain ⟨name, ip, mask, rfl⟩ :=
        shape_of_wrongLength_two_two (harity line (List.mem_of_getLast? hline.symm))
      refine Ends.of_iff (ends_lift (q := True) (d := False) (convertIfconfig_ends name ip mask)
        fun t _ _ => ends_ok hs) ?_ ?_
      · simp [lastArg, ← hline]
      · simp [lastArg, ← hline]
  cases lines with
  | none => exact hrest a
  | some lines =>
    rw [Arity, linesOf_eq hlines.symm] at harity
    refine Ends.of_iff (ends_lift (ends_foldlM a fun line hline a =>
      convertDhcpOption_ends (harity line hline) a) fun a _ _ => hrest a) ?_ ?_
    · simp
    · simp [firstEscapes_false]

/-! ## Certificates, the peer and the user -/

def fileTable : List (String × ℕ × ℕ) :=
  [("ca", 1, 1), ("cert", 1, 1), ("key", 1, 1), ("pkcs12", 1, 1), ("cryptoapicert", 1, 1)]

theorem readFiles_ends (f : Files) (a : AuthType) (hs : LeftBy o K s)
    (hK : ∀ k ∈ ["ca", "cert", "key", "pkcs12", "cryptoapicert"], k ∉ K) :
    EndsIn (Arities o fileTable) False
      (fun r => LeftBy o (["cryptoapicert", "pkcs12", "key", "cert", "ca"] ++ K) r.2)
      ((readFiles f a).run s) := by
  refine (getArgument_ends hs (hK "ca" (by simp))).fine fun r _ hr => ?_
  refine (getArgument_ends hr.2 (by simpa using hK "cert" (by simp))).fine fun r _ hr => ?_
  refine (getArgument_ends hr.2 (by simpa using hK "key" (by simp))).fine fun r _ hr => ?_
  refine (getArgument_ends hr.2 (by simpa using hK "pkcs12" (by simp))).fine fun r _ hr => ?_
  refine (getArgument_ends hr.2 (by simpa using hK "cryptoapicert" (by simp))).fine
    fun r _ hr => ?_
  exact ends_ok hr.2

theorem readTlsRemote_ends (n : PeerName) (hs : LeftBy o K s)
    (hK : ∀ k ∈ ["compat-names", "no-name-remapping", "tls-remote"], k ∉ K) :
    EndsIn (Arities o [("compat-names", 1, 2), ("no-name-remapping", 1, 1), ("tls-remote", 1, 1)])
      False (fun r => LeftBy o (["tls-remote", "no-name-remapping", "compat-names"] ++ K) r.2)
      ((readTlsRemote n).run s) := by
  refine (getOption_ends hs (hK "compat-names" (by simp))).fine fun r _ hr => ?_
  refine (getArgument_ends hr.2 (by simpa using hK "no-name-remapping" (by simp))).fine
    fun r _ hr => ?_
  refine (getArgument_ends hr.2 (by simpa using hK "tls-remote" (by simp))).fine ?_
  rintro ⟨_ | tlsremote, s⟩ - ⟨-, hs⟩
  · exact ends_ok hs
  · exact ends_ok hs

def nameTypes : List Text := ["name".toList, "subject".toList, "name-prefix".toList]

theorem x509AuthType_ends (name peer type : Text) :
    EndsIn (type ∈ nameTypes) False (fun _ => True) (x509AuthType [name, peer, type]) := by
  change EndsIn _ _ _ (if _ then _ else if _ then _ else if _ then _ else _)
  split_ifs with h1 h2 h3
  · exact .returns (by simp [nameTypes, h1]) id trivial
  · exact .returns (by simp [nameTypes, h2]) id trivial
  · exact .returns (by simp [nameTypes, h3]) id trivial
  · exact .declared (by simp only [nameTypes, List.mem_cons, h1, h2, h3, List.not_mem_nil, or_self,
      not_false_eq_true]) id trivial

/-- The names of the peer are read. -/
structure PeerOk (o : OptionMap) : Prop where
  arities : Arities o [("compat-names", 1, 2), ("no-name-remapping", 1, 1), ("tls-remote", 1, 1)]
  name : Arities o [("verify-x509-name", 1, 2), ("x509-username-field", 1, 1)]
  type : ∀ type, lastArg o "verify-x509-name" 2 = some type → type ∈ nameTypes

theorem readPeerName_ends (n : PeerName) (hs : LeftBy o K s)
    (hK : ∀ k ∈ ["compat-names", "no-name-remapping", "tls-remote", "verify-x509-name",
      "x509-username-field"], k ∉ K) :
    EndsIn (PeerOk o) False
      (fun r => LeftBy o (["x509-username-field", "verify-x509-name", "tls-remote",
        "no-name-remapping", "compat-names"] ++ K) r.2) ((readPeerName n).run s) := by
  unfold readPeerName
  refine Ends.of_iff ((readTlsRemote_ends n hs fun k hk => hK k (by simp at hk ⊢; tauto)).fine
    (q := Arity o "verify-x509-name" 1 2 ∧
      (∀ type, lastArg o "verify-x509-name" 2 = some type → type ∈ nameTypes) ∧
      Arities o [("x509-username-field", 1, 1)]) ?_)
    ⟨fun ⟨h1, h2, h3, h4⟩ => ⟨h1, ⟨h2, h4⟩, h3⟩, fun ⟨h1, ⟨h2, h4⟩, h3⟩ => ⟨h1, h2, h3, h4⟩⟩ Iff.rfl
  rintro ⟨n, s⟩ - hs
  refine (getOption_ends hs (by simpa using hK "verify-x509-name" (by simp))).fine ?_
  rintro ⟨line, s⟩ harity ⟨hline, hs⟩
  extract_lets jp
  dsimp only at hline hs
  have hrest : ∀ n, EndsIn (Arities o [("x509-username-field", 1, 1)]) False
      (fun r => LeftBy o (["x509-username-field", "verify-x509-name", "tls-remote",
        "no-name-remapping", "compat-names"] ++ K) r.2) ((jp n).run s) := fun n =>
    (getArgument_ends hs (by simpa using hK "x509-username-field" (by simp))).fine
      fun r _ hr => ends_ok hr.2
  cases line with
  | none => exact (hrest n).of_iff (by simp [lastArg, ← hline]) Iff.rfl
  | some line =>
    rcases shape_of_wrongLength_one_two (harity line (List.mem_of_getLast? hline.symm)) with
      ⟨name, peer, rfl⟩ | ⟨name, peer, type, rfl⟩
    · exact (hrest _).of_iff (by simp [lastArg, ← hline]) Iff.rfl
    · have htype := ends_lift (x509AuthType_ends name peer type) fun t _ _ =>
        hrest { n with mRemoteCN := peer, mCheckRemoteCN := true, mX509AuthType := t }
      exact htype.of_iff (by simp [lastArg, ← hline]) (by simp)

theorem readRetrying_ends (r : Retrying) (hs : LeftBy o K s)
    (hK : ∀ k ∈ ["connect-retry", "connect-retry-max"], k ∉ K) :
    EndsIn (Arities o [("connect-retry", 1, 2), ("connect-retry-max", 1, 1)]) False
      (fun r => LeftBy o (["connect-retry-max", "connect-retry"] ++ K) r.2)
      ((readRetrying r).run s) := by
  unfold readRetrying
  refine (getOption_ends hs (hK "connect-retry" (by simp))).fine ?_
  rintro ⟨line, s⟩ harity ⟨hline, hs⟩
  extract_lets jp
  dsimp only at hline hs
  have hrest : ∀ r, EndsIn (Arities o [("connect-retry-max", 1, 1)]) False
      (fun r => LeftBy o (["connect-retry-max", "connect-retry"] ++ K) r.2) ((jp r).run s) :=
    fun r => (getArgument_ends hs (by simpa using hK "connect-retry-max" (by simp))).fine
      fun r _ hr => ends_ok hr.2
  cases line with
  | none => exact hrest r
  | some line =>
    rcases shape_of_wrongLength_one_two (harity line (List.mem_of_getLast? hline.symm)) with
      ⟨a, b, rfl⟩ | ⟨a, b, c, rfl⟩
    · exact hrest _
    · exact hrest _

/-- The value for another one than `server` is kept under a name of its own. -/
theorem readRemoteCertTls_ends (hne : o.get "remote-cert-tls".toList ≠ some []) (hs : LeftBy o K s)
    (hK : "remote-cert-tls" ∉ K) :
    EndsIn (Arity o "remote-cert-tls" 1 1) False
      (fun r => LeftBy o (["remotetls", "remote-cert-tls"] ++ K) r.2) (readRemoteCertTls.run s) := by
  refine Ends.of_iff ((getAllOption_ends hs hK).fine (q := True) ?_) (by simp) Iff.rfl
  rintro ⟨lines, s⟩ harity ⟨hlines, hs⟩
  dsimp only at hlines hs
  have hmore : LeftBy o (["remotetls", "remote-cert-tls"] ++ K) s :=
    hs.mono fun k hk => List.mem_cons_of_mem _ hk
  match lines with
  | none => exact ends_ok hmore
  | some [] => exact absurd hlines.symm hne
  | some (line :: lines) =>
    rw [Arity, linesOf_eq hlines.symm] at harity
    obtain ⟨name, arg, rfl⟩ := shape_of_wrongLength_one_one (harity line List.mem_cons_self)
    change EndsIn _ _ _ ((if _ then _ else _ : Convert Bool).run s)
    split_ifs
    · exact ends_ok hmore
    · exact ends_ok (hs.put "remotetls" _)

theorem readAuthUser_ends (c : UserAuth) (a : AuthType) (hs : LeftBy o K s)
    (hK : "auth-user-pass" ∉ K) :
    EndsIn (Arity o "auth-user-pass" 0 1) False (fun r => LeftBy o ("auth-user-pass" :: K) r.2)
      ((readAuthUser c a).run s) := by
  refine Ends.of_iff ((getOption_ends hs hK).fine (q := True) ?_) (by simp) Iff.rfl
  rintro ⟨line, s⟩ harity ⟨hline, hs⟩
  dsimp only at hline hs
  cases line with
  | none => exact ends_ok hs
  | some line =>
    rcases shape_of_wrongLength_zero_one (harity line (List.mem_of_getLast? hline.symm)) with
      ⟨name, rfl⟩ | ⟨name, file, rfl⟩
    · exact ends_ok hs
    · have hlift : ∀ f : Text → Convert (UserAuth × AuthType),
          ((liftM (elementAt [name, file] 1) : Convert Text) >>= f).run s = (f file).run s := fun _ => rfl
      change EndsIn _ _ _ (((liftM (elementAt [name, file] 1) : Convert Text) >>= _).run s)
      rw [hlift]
      cases embeddedUserAuth file <;> exact ends_ok hs

def authRetryModes : List Text := ["none".toList, "nointeract".toList, "interact".toList]

/-- The mode is known. -/
structure AuthRetryOk (o : OptionMap) : Prop where
  arity : Arity o "auth-retry" 1 1
  mode : ∀ mode, lastArg o "auth-retry" 1 = some mode → mode ∈ authRetryModes

/-- The mode is unknown. -/
structure AuthRetryEscapes (o : OptionMap) : Prop where
  arity : Arity o "auth-retry" 1 1
  mode : ∃ mode, lastArg o "auth-retry" 1 = some mode ∧ mode ∉ authRetryModes

theorem readAuthRetry_ends (c : UserAuth) (hs : LeftBy o K s) (hK : "auth-retry" ∉ K) :
    EndsIn (AuthRetryOk o) (AuthRetryEscapes o) (fun r => LeftBy o ("auth-retry" :: K) r.2)
      ((readAuthRetry c).run s) := by
  refine Ends.of_iff ((getOption_ends hs hK).andThen
    (q := ∀ mode, lastArg o "auth-retry" 1 = some mode → mode ∈ authRetryModes)
    (d := ∃ mode, lastArg o "auth-retry" 1 = some mode ∧ mode ∉ authRetryModes) ?_)
    ⟨fun h => ⟨h.1, h.2⟩, fun h => ⟨h.arity, h.mode⟩⟩
    ⟨fun h => ⟨h.1, h.2⟩, fun h => ⟨h.arity, h.mode⟩⟩
  rintro ⟨line, s⟩ harity ⟨hline, hs⟩
  dsimp only at hline hs
  cases line with
  | none =>
    refine .returns ?_ ?_ hs
    · simp [lastArg, ← hline]
    · simp [lastArg, ← hline]
  | some line =>
    obtain ⟨name, mode, rfl⟩ :=
      shape_of_wrongLength_one_one (harity line (List.mem_of_getLast? hline.symm))
    have hmode : lastArg o "auth-retry" 1 = some mode := by rw [lastArg, ← hline]; rfl
    simp only [hmode, Option.some.injEq, forall_eq', exists_eq_left']
    change EndsIn _ _ _ ((if _ then _ else if _ then _ else if _ then _ else _ :
      Convert UserAuth).run s)
    split_ifs with h1 h2 h3
    · exact .returns (by simp [authRetryModes, h1]) (by simp [authRetryModes, h1]) hs
    · exact .returns (by simp [authRetryModes, h2]) (by simp [authRetryModes, h2]) hs
    · exact .returns (by simp [authRetryModes, h3]) (by simp [authRetryModes, h3]) hs
    · -- the third word of a line with two
      have hno : mode ∉ authRetryModes := by
        simp only [authRetryModes, List.mem_cons, h1, h2, h3, List.not_mem_nil, or_self,
          not_false_eq_true]
      exact .escapes hno hno id

theorem readCrl_ends (hs : LeftBy o K s) (hK : "crl-verify" ∉ K) :
    EndsIn (Arity o "crl-verify" 1 2) False (fun r => LeftBy o ("crl-verify" :: K) r.2)
      (readCrl.run s) := by
  refine Ends.of_iff ((getOption_ends hs hK).fine (q := True) ?_) (by simp) Iff.rfl
  rintro ⟨line, s⟩ harity ⟨hline, hs⟩
  dsimp only at hline hs
  cases line with
  | none => exact ends_ok hs
  | some line =>
    rcases shape_of_wrongLength_one_two (harity line (List.mem_of_getLast? hline.symm)) with
      ⟨a, b, rfl⟩ | ⟨a, b, c, rfl⟩
    · exact ends_ok hs
    · change EndsIn _ _ _ ((if _ then _ else _ : Convert (Option Text × Text)).run s)
      split_ifs
      · exact ends_ok hs
      · exact ends_ok hs

end VpnCore.Config
