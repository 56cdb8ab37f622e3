import VpnCore.Config.ConfigFile

/-!
# VpnCore.Config.Proxy — answers to the proxy queries of OpenVPN

OpenVPN numbers its connection entries in the order in which it read them and asks for a proxy with
`>PROXY:k,…`.  `processProxyCMD` takes `k` as an index into `mConnections`, but `getConfigFile` leaves
out the connections that are disabled, so that the entries behind a disabled connection get the proxy
of another one.  `proxy_matches_iff` says when they still get the same.
-/

namespace VpnCore.Config

/-! ## The entries of the file -/

namespace VpnProfile

/-- The connections that `getConfigFile` writes, in order: a single one whether it is enabled or
not. -/
def emittedConnections (p : VpnProfile) : List Connection :=
  match p.mConnections with
  | [conn] => [conn]
  | conns => conns.filter Connection.mEnabled

/-- Where they can, they stand as plain remotes. -/
theorem remoteLines_eq {p : VpnProfile} (hrandom : p.mRemoteRandom = false) :
    p.remoteLines =
      if p.canUsePlainRemotes then p.emittedConnections.flatMap Connection.getConnectionBlock
      else [] := by
  unfold remoteLines emittedConnections
  rcases hconns : p.mConnections with _ | ⟨conn, _ | ⟨conn', conns⟩⟩
  · simp [hrandom]
  · simp [canUsePlainRemotes, hconns]
  · simp [hrandom]

/-- Otherwise they stand in blocks of their own. -/
theorem connectionFiles_eq (p : VpnProfile) :
    p.connectionFiles =
      if p.canUsePlainRemotes then []
      else fixedLine connectionComment ++ p.emittedConnections.flatMap connectionFile := by
  unfold connectionFiles
  split_ifs with hplain
  · rfl
  · unfold emittedConnections
    rcases hconns : p.mConnections with _ | ⟨conn, _ | ⟨conn', conns⟩⟩
    · rfl
    · simp [canUsePlainRemotes, hconns] at hplain
    · rfl

end VpnProfile

/-! ## The query and its answer -/

/-- `ce_management_query_proxy`: the query for the entry with the index `current`. -/
def queryProxy (current : ℕ) (isUdp : Bool) (remote : Text) : Text :=
  decimal (current + 1) ++ ',' :: ((if isUdp then "UDP" else "TCP").toList ++ ',' :: remote)

/-- `s.split(",", n)` for `n = 3`. -/
def splitComma3 (s : Text) : List Text :=
  match textAfter [','] s with
  | none => [s]
  | some rest =>
    match textAfter [','] rest with
    | none => [s.takeWhile (· != ','), rest]
    | some last => [s.takeWhile (· != ','), rest.takeWhile (· != ','), last]

/-- The variables of `processProxyCMD`, and the user and the password of `mCurrentProxyConnection`,
which later password queries are answered with. -/
structure ProxyChoice where
  proxyType : ProxyType := .none
  proxyname : Option Text := none
  proxyport : Option Text := none
  proxyUseAuth : Bool := false
  credentials : Option (Option Text × Option Text)
  deriving DecidableEq, Repr

/-- What the connection says about its proxy. -/
def Connection.proxyChoice (c : Connection) : ProxyChoice where
  proxyType := c.mProxyType
  proxyname := some c.mProxyName
  proxyport := some c.mProxyPort
  proxyUseAuth := c.mUseProxyAuth
  credentials := some (c.mProxyAuthUser, c.mProxyAuthPassword)

/-- The first part of `processProxyCMD`; for an unknown entry an error is logged and
`mCurrentProxyConnection` stays what it was. -/
def chooseProxy (mConnections : List Connection) (current : Option (Option Text × Option Text))
    (args : List Text) : Except Thrown ProxyChoice := do
  let connectionEntryNumber := (← parseInt (← elementAt args 0)) - 1
  if connectionEntryNumber < mConnections.length then
    if connectionEntryNumber < 0 then throw arrayIndexOutOfBoundsException
    match mConnections[connectionEntryNumber.toNat]? with
    | some connection => return connection.proxyChoice
    | none => throw arrayIndexOutOfBoundsException
  else return { credentials := current }

inductive ProxyAnswer
  | startOrbot
  | managmentCommand (cmd : Text)
  deriving DecidableEq, Repr

/-- The command for the chosen proxy. -/
def sendProxyCMD (c : ProxyChoice) : ProxyAnswer :=
  match c.proxyType, c.proxyname with
  | .none, _ => .managmentCommand "proxy NONE\n".toList
  | _, none => .managmentCommand "proxy NONE\n".toList
  | proxyType, some proxyname =>
    .managmentCommand ("proxy ".toList ++ (if proxyType == .http then "HTTP" else "SOCKS").toList ++
      ' ' :: (proxyname ++ ' ' :: (formatString c.proxyport ++
        (if c.proxyUseAuth then " auto" else "").toList ++ ['\n'])))

/-- The rest of `processProxyCMD`; `detected` is the answer of `ProxyDetection`. -/
def answerProxy (detected : Option (Text × ℤ)) (args : List Text) (c : ProxyChoice) : ProxyAnswer :=
  let c :=
    match c.proxyType, detected with
    | .none, some (host, port) =>
      { c with proxyType := .http, proxyname := some host, proxyport := some (decimal port),
               proxyUseAuth := false }
    | _, _ => c
  let c :=
    if c.proxyType = .http ∧ args[1]? = some "UDP".toList then { c with proxyname := none } else c
  if c.proxyType = .orbot then .startOrbot else sendProxyCMD c

def processProxyCMD (mConnections : List Connection)
    (current : Option (Option Text × Option Text)) (detected : Option (Text × ℤ))
    (argument : Text) : Except Thrown (ProxyChoice × ProxyAnswer) := do
  let args := splitComma3 argument
  let c ← chooseProxy mConnections current args
  return (c, answerProxy detected args c)

/-! ## Which connection is asked for -/

theorem comma_not_mem_decimal (n : ℤ) : ',' ∉ decimal n := by
  intro h
  unfold decimal at h
  split_ifs at h
  · rcases List.mem_cons.mp h with h | h
    · cases h
    · exact absurd (isDigit_of_mem_toDigits h) (by decide)
  · exact absurd (isDigit_of_mem_toDigits h) (by decide)

theorem textAfter_comma : ∀ {s : Text} (rest : Text), ',' ∉ s →
    textAfter [','] (s ++ ',' :: rest) = some rest
  | [], rest, _ => by simp [textAfter, List.isPrefixOf]
  | c :: s, rest, h => by
    rw [List.mem_cons, not_or] at h
    have hc : ([','] : Text).isPrefixOf (c :: (s ++ ',' :: rest)) = false := by
      simp [List.isPrefixOf, h.1]
    rw [List.cons_append, textAfter, hc]
    exact textAfter_comma rest h.2

theorem takeWhile_comma {s : Text} (rest : Text) (h : ',' ∉ s) :
    (s ++ ',' :: rest).takeWhile (· != ',') = s := by
  have hs : ∀ c ∈ s, (c != ',') = true := by
    rintro c hc
    refine bne_iff_ne.mpr ?_
    rintro rfl
    exact h hc
  rw [List.takeWhile_append_of_pos hs]
  simp

/-- The number of the entry comes first. -/
theorem splitComma3_queryProxy (current : ℕ) (isUdp : Bool) (remote : Text) :
    splitComma3 (queryProxy current isUdp remote) =
      [decimal (current + 1), (if isUdp then "UDP" else "TCP").toList, remote] := by
  have hproto : ',' ∉ (if isUdp then "UDP" else "TCP").toList := by cases isUdp <;> decide
  have hnumber := comma_not_mem_decimal ((current : ℤ) + 1)
  simp only [splitComma3, queryProxy, textAfter_comma _ hnumber, textAfter_comma _ hproto,
    takeWhile_comma _ hnumber, takeWhile_comma _ hproto]

/-- The connection with the index of the entry is used. -/
theorem chooseProxy_queryProxy {mConnections : List Connection} {k : ℕ} {c : Connection}
    (hlen : mConnections.length < 2 ^ 31) (hc : mConnections[k]? = some c)
    (current : Option (Option Text × Option Text)) (isUdp : Bool) (remote : Text) :
    chooseProxy mConnections current (splitComma3 (queryProxy k isUdp remote)) =
      .ok c.proxyChoice := by
  have hk : k < mConnections.length := (List.getElem?_eq_some_iff.mp hc).1
  have hparse : parseInt (decimal ((k : ℤ) + 1)) = .ok ((k : ℤ) + 1) :=
    parseNumber_decimal (by norm_num; omega) (by norm_num; omega)
  have hindex : ((k : ℤ) + 1 - 1).toNat = k := by omega
  rw [splitComma3_queryProxy]
  unfold chooseProxy
  simp only [elementAt, List.getElem?_cons_zero, bind, Except.bind, hparse]
  rw [if_pos (by omega), if_neg (by omega), hindex, hc]
  rfl

/-- Every query for an entry of the file is answered with the proxy of the connection that was
written for it. -/
def ProxyMatches (p : VpnProfile) : Prop :=
  ∀ (k : ℕ) (c : Connection), p.emittedConnections[k]? = some c →
    ∀ current detected isUdp remote, ∃ answer,
      processProxyCMD p.mConnections current detected (queryProxy k isUdp remote) =
        .ok (c.proxyChoice, answer)

/-- **The answers match exactly if the proxies of the connections in the file are the first proxies of
all connections.**  An array has less than `2 ^ 31` elements. -/
theorem proxy_matches_iff (p : VpnProfile) (hlen : p.mConnections.length < 2 ^ 31) :
    ProxyMatches p ↔
      p.emittedConnections.map Connection.proxyChoice <+:
        p.mConnections.map Connection.proxyChoice := by
  have hshort : p.emittedConnections.length ≤ p.mConnections.length := by
    unfold VpnProfile.emittedConnections
    split
    · next conn h => rw [h]
    · exact List.length_filter_le _ _
  have hprocess : ∀ {k : ℕ} {c : Connection}, p.mConnections[k]? = some c →
      ∀ current detected isUdp remote, processProxyCMD p.mConnections current detected
          (queryProxy k isUdp remote) =
        .ok (c.proxyChoice,
          answerProxy detected (splitComma3 (queryProxy k isUdp remote)) c.proxyChoice) := by
    intro k c hc current detected isUdp remote
    unfold processProxyCMD
    simp only [chooseProxy_queryProxy hlen hc, bind, Except.bind, pure, Except.pure]
  rw [List.prefix_iff_getElem?]
  simp only [List.length_map, List.getElem?_map, List.getElem_map]
  constructor
  · intro h k hk
    have hemitted : p.emittedConnections[k]? = some p.emittedConnections[k] :=
      List.getElem?_eq_getElem hk
    obtain ⟨used, hused⟩ : ∃ used, p.mConnections[k]? = some used :=
      ⟨_, List.getElem?_eq_getElem (Nat.lt_of_lt_of_le hk hshort)⟩
    obtain ⟨answer, hanswer⟩ := h k _ hemitted none none false []
    rw [hprocess hused] at hanswer
    rw [hused, Option.map_some, (Prod.mk.inj (Except.ok.inj hanswer)).1]
  · intro h k c hc current detected isUdp remote
    obtain ⟨hk, rfl⟩ := List.getElem?_eq_some_iff.mp hc
    obtain ⟨used, hused, hchoice⟩ := Option.map_eq_some_iff.mp (h k hk)
    exact ⟨_, by rw [hprocess hused, hchoice]⟩

/-- A connection through a proxy. -/
def proxyConnection (mProxyName : String) (mEnabled : Bool) : Connection :=
  { mUseUdp := false, mProxyType := .http, mProxyName := mProxyName.toList, mEnabled := mEnabled }

/-- The first of two connections is disabled or not. -/
def twoProxies (first : Bool) : VpnProfile :=
  { VpnProfile.named "office".toList with
    mConnections := [proxyConnection "proxy.a" first, proxyConnection "proxy.b" true] }

theorem proxy_matches_enabled : ProxyMatches (twoProxies true) :=
  (proxy_matches_iff (twoProxies true) (by decide)).2 (by decide)

/-- The only entry of the file gets the proxy of the connection that was left out. -/
theorem disabled_proxy_used :
    (twoProxies false).emittedConnections = [proxyConnection "proxy.b" true] ∧
      processProxyCMD (twoProxies false).mConnections none none
          (queryProxy 0 false "vpn.example.org".toList) =
        .ok ((proxyConnection "proxy.a" false).proxyChoice,
          .managmentCommand "proxy HTTP proxy.a 8080\n".toList) ∧
      (proxyConnection "proxy.a" false).proxyChoice ≠
        (proxyConnection "proxy.b" true).proxyChoice := by
  decide +kernel

end VpnCore.Config
