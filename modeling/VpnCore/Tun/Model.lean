import VpnCore.Route.NetworkSpace

/-!
# VpnCore.Tun.Model — the tun configuration of `OpenVPNImpl`

The management callbacks collect the configuration of the interface in fields of `OpenVPNImpl`;
`openTun` hands it to a `VpnService.Builder` and clears the fields on its way.  A session is a
sequence of requests, the question whether the interface stays as it is, and `openTun` unless it
does.
-/

namespace VpnCore.Tun

open VpnCore.Config VpnCore.Route

/-! ## The fields and the device -/

/-- The fields of the service that `openTun` reads. -/
structure Fields where
  mDnslist : List Text := []
  mRoutes : NetworkSpace := {}
  mRoutesv6 : NetworkSpace := {}
  mDomain : Option Text := none
  mLocalIP : Option CIDRIP := none
  mMtu : ℤ := 0
  mLocalIPv6 : Option Text := none
  mLastTunCfg : Option Text := none
  mRemoteGW : Option Text := none
  deriving DecidableEq

/-- `android.os.Build` and the settings of the profile that `openTun` reads. -/
structure Device where
  sdkInt : ℕ
  release : Text
  brand : Text
  mBlockUnusedAddressFamilies : Bool
  mAllowLocalLAN : Bool
  deriving DecidableEq

/-- What `InetAddress.getAllByName` answers for a name, as far as the cast to `Inet6Address` sees
it. -/
inductive Resolved
  | inet6 (address : Inet6Address)
  | inet4
  | unknownHost
  deriving DecidableEq

/-- Android 4.4 to 4.4.2. -/
def Device.isKitKatBefore443 (dev : Device) : Bool :=
  dev.sdkInt == 19 && !(startsWith dev.release "4.4.3".toList) &&
    !(startsWith dev.release "4.4.4".toList) && !(startsWith dev.release "4.4.5".toList) &&
    !(startsWith dev.release "4.4.6".toList)

/-! ## The requests -/

/-- What OpenVPN asks for before `OPENTUN`. -/
inductive Request
  | setLocalIP (localIP netmask : Text) (mtu : ℤ) (mode : Text)
  | setLocalIPv6 (ipv6Addr : Text)
  | setMtu (mtu : ℤ)
  | addRoute (dest mask gateway : Text) (device : Option Text)
  /-- with the answer of the resolver -/
  | addRoutev6 (network : Text) (device : Option Text) (resolved : Resolved)
  | addDNS (dns : Text)
  | setDomain (domain : Text)
  deriving DecidableEq

def isAndroidTunDevice (device : Option Text) : Bool :=
  match device with
  | none => false
  | some d => startsWith d "tun".toList || d == "(null)".toList || d == "vpnservice-tun".toList

/-- `addRoute(dest, mask, gateway, device)`: the new `mRoutes`. -/
def Fields.addRoute (s : Fields) (dest mask gateway : Text) (device : Option Text) :
    Except Thrown NetworkSpace := do
  let route ← CIDRIP.ofMask dest mask
  let gatewayIP ← IpAddress.ofCIDRIP ⟨gateway, 32⟩ false
  match s.mLocalIP with
  | none => return s.mRoutes
  | some mLocalIP =>
    let localNet ← IpAddress.ofCIDRIP mLocalIP true
    let included := isAndroidTunDevice device || localNet.containsNet gatewayIP ||
      gateway == "255.255.255.255".toList || some gateway == s.mRemoteGW
    let (route, _) ← route.normalise
    s.mRoutes.addIP route included

/-- `addRoutev6(network, included)`: the new `mRoutesv6`. -/
def addRouteTo6 (mRoutesv6 : NetworkSpace) (network : Text) (included : Bool)
    (resolve : Text → Resolved) :
    Except Thrown NetworkSpace := do
  let v6parts := split '/' network
  match resolve (← elementAt v6parts 0) with
  | .unknownHost => return mRoutesv6
  | .inet4 => throw (.runtimeException "ClassCastException".toList)
  | .inet6 ip =>
    let mask ← parseInt (← elementAt v6parts 1)
    return mRoutesv6.addIPv6 ip mask included

/-- The prefix length of the interface: where the netmask is the address of the peer, the one of the
smallest network that has both. -/
def localLen (mLocalIP : CIDRIP) (netmask mode : Text) : Except Thrown ℤ := do
  let netMaskAsInt ← getInt netmask
  if mLocalIP.len = 32 ∧ netmask ≠ "255.255.255.255".toList then
    let (masklen, size) : ℤ × ℤ := if mode = "net30".toList then (30, 4) else (31, 2)
    if netMaskAsInt / size = (← mLocalIP.getInt) / size then return masklen else return 32
  else return mLocalIP.len

/-- The workaround of `setLocalIP` for Android 5: a route to the network of the interface. -/
def addInterfaceRoute (dev : Device) (mRoutes : NetworkSpace) (mLocalIP : CIDRIP) :
    Except Thrown NetworkSpace := do
  if mLocalIP.len ≤ 31 ∧ 21 ≤ dev.sdkInt then
    let (interfaceRoute, _) ← mLocalIP.normalise
    mRoutes.addIP interfaceRoute true
  else return mRoutes

/-- `setLocalIP(local, netmask, mtu, mode)`.  What was assigned before an exception stays. -/
def Fields.setLocalIP (dev : Device) (s : Fields) (localIP netmask : Text) (mtu : ℤ) (mode : Text) :
    Fields :=
  match CIDRIP.ofMask localIP netmask with
  | .error _ => s
  | .ok mLocalIP =>
    let s := { s with mLocalIP := some mLocalIP, mMtu := mtu, mRemoteGW := none }
    match localLen mLocalIP netmask mode with
    | .error _ => s
    | .ok len =>
      let mLocalIP := { mLocalIP with len := len }
      let s := { s with mLocalIP := some mLocalIP }
      match addInterfaceRoute dev s.mRoutes mLocalIP with
      | .error _ => s
      | .ok mRoutes => { s with mRoutes := mRoutes, mRemoteGW := some netmask }

/-- The fields after a request; an exception of the request ends it there. -/
def Request.apply (dev : Device) (s : Fields) : Request → Fields
  | .setLocalIP localIP netmask mtu mode => s.setLocalIP dev localIP netmask mtu mode
  | .setLocalIPv6 ipv6Addr => { s with mLocalIPv6 := some ipv6Addr }
  | .setMtu mtu => { s with mMtu := mtu }
  | .addRoute dest mask gateway device =>
    { s with mRoutes := (s.addRoute dest mask gateway device).toOption.getD s.mRoutes }
  | .addRoutev6 network device resolved =>
    { s with
      mRoutesv6 := (addRouteTo6 s.mRoutesv6 network (isAndroidTunDevice device)
        fun _ => resolved).toOption.getD s.mRoutesv6 }
  | .addDNS dns => { s with mDnslist := s.mDnslist ++ [dns] }
  | .setDomain domain => { s with mDomain := s.mDomain <|> some domain }

/-! ## Whether the interface stays as it is -/

/-- `TextUtils.join` -/
def join (delimiter : Text) (parts : List Text) : Text := delimiter.intercalate parts

def Fields.networks (s : Fields) (included : Bool) : Text :=
  join "|".toList ((s.mRoutes.getNetworks included).map IpAddress.text) ++
    join "|".toList ((s.mRoutesv6.getNetworks included).map IpAddress.text)

def Fields.getTunConfigString (s : Fields) : Text :=
  "TUNCFG UNQIUE STRING ips:".toList ++ (s.mLocalIP.map CIDRIP.text).getD [] ++
    s.mLocalIPv6.getD [] ++ "routes: ".toList ++ s.networks true ++
    "excl. routes:".toList ++ s.networks false ++
    "dns: ".toList ++ join "|".toList s.mDnslist ++
    "domain: ".toList ++ s.mDomain.getD "null".toList ++ "mtu: ".toList ++ decimal s.mMtu

/-- The answer to `PERSIST_TUN_ACTION`. -/
inductive TunAction
  | noAction
  | openAfterClose
  | openBeforeClose
  deriving DecidableEq

/-- How the interface is opened anew. -/
def getTunReopenStatus (dev : Device) (s : Fields) : TunAction :=
  if some s.getTunConfigString = s.mLastTunCfg then .noAction
  else if dev.isKitKatBefore443 then .openAfterClose
  else .openBeforeClose

/-! ## Opening the interface -/

/-- The calls of `VpnService.Builder` that carry the configuration. -/
inductive BuilderCall
  | allowFamily (v6 : Bool)
  | addAddress (address : Text) (prefixLength : ℤ)
  | addDnsServer (address : Text)
  | setMtu (mtu : ℤ)
  | addRoute (address : Text) (prefixLength : ℤ)
  | addSearchDomain (domain : Text)
  deriving DecidableEq

/-- What `openTun` finds around it: whether the builder could be created, which calls it rejects
with an `IllegalArgumentException`, the local networks of the device and their resolution, the
choices of the priority queues, and an exception of the application filter. -/
structure Env where
  created : Bool := true
  rejects : BuilderCall → Bool := fun _ => false
  localNetworks : List Text := []
  localNetworks6 : List Text := []
  resolve : Text → Resolved := fun _ => .unknownHost
  choices : ℕ × List ℕ := (0, [])
  choices6 : ℕ × List ℕ := (0, [])
  filterThrows : Option Thrown := none

/-- How `openTun` ends before it clears the fields. -/
inductive Exit
  /-- it returns `null` -/
  | null
  | thrown (e : Thrown)
  /-- the sweep over the routes has not ended -/
  | sweeping
  deriving DecidableEq

/-- A part of `openTun`: its calls, and how it ends when it does not go on. -/
abbrev Stage := List BuilderCall × Option Exit

def Stage.andThen (a b : Stage) : Stage :=
  match a.2 with
  | some _ => a
  | none => (a.1 ++ b.1, b.2)

/-- A call outside of `try`. -/
def unguarded (env : Env) (call : BuilderCall) : Stage :=
  ([call], if env.rejects call then some (.thrown illegalArgumentException) else none)

/-- `builder.addAddress`; `openTun` returns when it is rejected. -/
def addAddress (env : Env) (address : Text) (len : ℤ) : Stage :=
  ([.addAddress address len], if env.rejects (.addAddress address len) then some .null else none)

/-- The address of `mLocalIPv6`.  The `try` catches `IllegalArgumentException` only. -/
def addAddress6 (env : Env) (mLocalIPv6 : Text) : Stage :=
  let ipv6parts := split '/' mLocalIPv6
  let args : Except Thrown (Text × ℤ) := do
    return (← elementAt ipv6parts 0, ← parseInt (← elementAt ipv6parts 1))
  match args with
  | .ok (address, len) => addAddress env address len
  | .error e => ([], some (if e.isIllegalArgument then .null else .thrown e))

def addresses (env : Env) (s : Fields) : Stage :=
  Stage.andThen
    (match s.mLocalIP with
      | none => ([], none)
      | some ip => addAddress env ip.mIp ip.len)
    (match s.mLocalIPv6 with
      | none => ([], none)
      | some ip => addAddress6 env ip)

/-- A rejected server is only logged. -/
def dnsServers (s : Fields) : Stage := (s.mDnslist.map .addDnsServer, none)

def mtu (dev : Device) (env : Env) (s : Fields) : Stage :=
  unguarded env (.setMtu (if dev.isKitKatBefore443 && s.mMtu < 1280 then 1280 else s.mMtu))

/-- The IPv4 routes with the workaround for the first DNS server on Samsung devices. -/
def withDnsRoute (dev : Device) (s : Fields) (routes : List IpAddress) : List IpAddress :=
  match s.mDnslist with
  | [] => routes
  | dns :: _ =>
    if dev.brand == "samsung".toList && 21 ≤ dev.sdkInt then
      match IpAddress.ofCIDRIP ⟨dns, 32⟩ true with
      | .error _ => routes
      | .ok dnsServer =>
        if routes.any fun net => net.containsNet dnsServer then routes else routes ++ [dnsServer]
    else routes

/-- 224.0.0.0/3 -/
def multicastRange : IpAddress := ⟨224 * 2 ^ 24, 3, true, true⟩

/-- A rejected route is only logged. -/
def routes (dev : Device) (env : Env) (s : Fields) : Stage :=
  match s.mRoutes.getPositiveIPList dev.sdkInt env.choices.1 env.choices.2,
    s.mRoutesv6.getPositiveIPList dev.sdkInt env.choices6.1 env.choices6.2 with
  | some positiveIPv4Routes, some positiveIPv6Routes =>
    (((withDnsRoute dev s positiveIPv4Routes).filter fun route =>
        !multicastRange.containsNet route).map
          (fun route => BuilderCall.addRoute route.getIPv4Address route.networkMask) ++
      positiveIPv6Routes.map (fun route6 => BuilderCall.addRoute route6.getIPv6Address route6.networkMask),
      none)
  | _, _ => ([], some .sweeping)

def searchDomain (env : Env) (s : Fields) : Stage :=
  match s.mDomain with
  | none => ([], none)
  | some domain => unguarded env (.addSearchDomain domain)

def applyFilter (env : Env) : Stage := ([], env.filterThrows.map .thrown)

/-- `openTun` from the addresses to the point where it clears the fields. -/
def configure (dev : Device) (env : Env) (s : Fields) : Stage :=
  (addresses env s).andThen <| (dnsServers s).andThen <| (mtu dev env s).andThen <|
    (routes dev env s).andThen <| (searchDomain env s).andThen <| applyFilter env

/-- The fields are cleared; the MTU, the remote gateway and the last configuration are not. -/
def Fields.reset (s : Fields) : Fields :=
  { s with
    mLastTunCfg := some s.getTunConfigString
    mDnslist := [], mRoutes := {}, mRoutesv6 := {}, mLocalIP := none, mLocalIPv6 := none
    mDomain := none }

/-- `f` for each element, up to the first exception. -/
def tryAll {σ α : Type*} (f : σ → α → Except Thrown σ) : σ → List α → σ × Option Thrown
  | s, [] => (s, none)
  | s, x :: xs =>
    match f s x with
    | .ok s' => tryAll f s' xs
    | .error e => (s, some e)

/-- The body of the loop over the local IPv4 networks. -/
def addLocalNetwork (dev : Device) (mLocalIP : CIDRIP) (mRoutes : NetworkSpace) (net : Text) :
    Except Thrown NetworkSpace := do
  let netparts := split '/' net
  let ipAddr ← elementAt netparts 0
  let netMask ← parseInt (← elementAt netparts 1)
  if ipAddr = mLocalIP.mIp then return mRoutes
  else if dev.sdkInt < 19 && !dev.mAllowLocalLAN then mRoutes.addIPSplit ⟨ipAddr, netMask⟩ true
  else if 19 ≤ dev.sdkInt && dev.mAllowLocalLAN then mRoutes.addIP ⟨ipAddr, netMask⟩ false
  else return mRoutes

/-- `addLocalNetworksToRoutes`, for an interface with an IPv4 address. -/
def addLocalNetworksToRoutes (dev : Device) (env : Env) (mLocalIP : CIDRIP)
    (mRoutes mRoutesv6 : NetworkSpace) : (NetworkSpace × NetworkSpace) × Option Thrown :=
  match tryAll (addLocalNetwork dev mLocalIP) mRoutes env.localNetworks with
  | (mRoutes, some e) => ((mRoutes, mRoutesv6), some e)
  | (mRoutes, none) =>
    if dev.mAllowLocalLAN then
      let (mRoutesv6, e) := tryAll (fun mRoutesv6 net => addRouteTo6 mRoutesv6 net false env.resolve)
        mRoutesv6 env.localNetworks6
      ((mRoutes, mRoutesv6), e)
    else ((mRoutes, mRoutesv6), none)

/-- The fields and the calls of `openTun`; without an early exit the fields were cleared, and what
`establish` does changes none of them. -/
structure Opened where
  fields : Fields
  calls : List BuilderCall
  exit : Option Exit

/-- `allowAllAFFamilies` -/
def allowAllAFFamilies (dev : Device) : List BuilderCall :=
  if 21 ≤ dev.sdkInt && !dev.mBlockUnusedAddressFamilies then [.allowFamily false, .allowFamily true]
  else []

/-- The fields after the local networks were added, and an exception of that. -/
def Fields.withLocalNetworks (dev : Device) (env : Env) (s : Fields) : Fields × Option Thrown :=
  match s.mLocalIP with
  | none => (s, none)
  | some mLocalIP =>
    let ((mRoutes, mRoutesv6), e) := addLocalNetworksToRoutes dev env mLocalIP s.mRoutes s.mRoutesv6
    ({ s with mRoutes := mRoutes, mRoutesv6 := mRoutesv6 }, e)

def Fields.openTun (dev : Device) (env : Env) (s : Fields) : Opened :=
  if !env.created then ⟨s, [], some .null⟩
  else if s.mLocalIP = none ∧ s.mLocalIPv6 = none then ⟨s, allowAllAFFamilies dev, some .null⟩
  else
    match s.withLocalNetworks dev env with
    | (s, some e) => ⟨s, allowAllAFFamilies dev, some (.thrown e)⟩
    | (s, none) =>
      match configure dev env s with
      | (calls, some exit) => ⟨s, allowAllAFFamilies dev ++ calls, some exit⟩
      | (calls, none) => ⟨s.reset, allowAllAFFamilies dev ++ calls, none⟩

/-! ## Sessions -/

/-- The requests of one connection and its environment. -/
structure Session where
  requests : List Request
  env : Env

def Fields.request (dev : Device) (s : Fields) (requests : List Request) : Fields :=
  requests.foldl (Request.apply dev) s

/-- The session as `open_tun` runs it: `openTun` is not called when the answer is `NOACTION`. -/
def Fields.session (dev : Device) (s : Fields) (σ : Session) : Fields × Option Opened :=
  let s := s.request dev σ.requests
  match getTunReopenStatus dev s with
  | .noAction => (s, none)
  | _ =>
    let opened := s.openTun dev σ.env
    (opened.fields, some opened)

end VpnCore.Tun
