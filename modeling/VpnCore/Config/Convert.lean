import VpnCore.Config.Profile
import VpnCore.Route.Cidr

/-!
# VpnCore.Config.Convert — `ConfigParser.convertProfile`

Reading an option takes it out of the map, so that what is left at the end are the options that the
profile has no field for.  The long method of the source is cut into parts that read the options of
one group of fields, in the order of the source.  Maps are iterated in an arbitrary order.
-/

namespace VpnCore.Config

open Route

/-- The order in which a `HashMap` is iterated. -/
structure MapOrder where
  arrange : OptionMap → OptionMap
  perm : ∀ o, (arrange o).Perm o

/-- A method that reads and removes options. -/
abbrev Convert := StateT OptionMap (Except Thrown)

/-! ## Options and arguments -/

def parametersError (option : Text) (optionline : OptionLine) (minarg maxarg : ℕ) : Thrown :=
  .configParseError ("Option ".toList ++ option ++ " has ".toList ++
    decimal ((optionline.length : ℤ) - 1) ++ " parameters, expected between ".toList ++
    decimal minarg ++ " and ".toList ++ decimal maxarg)

/-- The number of parameters that `getAllOption` complains about. -/
def wrongLength (minarg maxarg : ℕ) (optionline : OptionLine) : Bool :=
  optionline.length < minarg + 1 || maxarg + 1 < optionline.length

def getAllOption (option : String) (minarg maxarg : ℕ) : Convert (Option (List OptionLine)) :=
  fun o =>
    match o.get option.toList with
    | none => .ok (none, o)
    | some args =>
      match args.find? (wrongLength minarg maxarg) with
      | some optionline => .error (parametersError option.toList optionline minarg maxarg)
      | none => .ok (some args, o.remove option.toList)

/-- The last occurrence counts. -/
def getOption (option : String) (minarg maxarg : ℕ) : Convert (Option OptionLine) := do
  return (← getAllOption option minarg maxarg).bind List.getLast?

/-- The argument of an option that has one. -/
def getArgument (option : String) : Convert (Option Text) := do
  match ← getOption option 1 1 with
  | none => return none
  | some line => return some (← elementAt line 1)

/-- Whether the option is given. -/
def getFlag (option : String) (maxarg : ℕ) : Convert Bool := do
  return (← getOption option 0 maxarg).isSome

/-- `Integer.parseInt` with an error of `ConfigParser`. -/
def integerArgument (message : Text → Text) (s : Text) : Except Thrown ℤ :=
  match parseInt s with
  | .ok n => .ok n
  | .error _ => .error (.configParseError (message s))

/-! ## Keys and routes -/

def readSecret : Convert (Option TlsAuth) := do
  match ← getOption "secret" 1 2 with
  | none => return none
  | some secret =>
    let mTLSAuthFilename ← elementAt secret 1
    let mTLSAuthDirection ← if secret.length = 3 then elementAt secret 2 else pure []
    return some
      { mUseTLSAuth := true, mTLSAuthFilename := some mTLSAuthFilename,
        mTLSAuthDirection := mTLSAuthDirection }

/-- The `catch` clauses around the constructor of `CIDRIP`. -/
def routeNetmaskError (netmask : Text) (e : Thrown) : Thrown :=
  if e = arrayIndexOutOfBoundsException ∨ e = numberFormatException then
    .configParseError ("Could not parse netmask of route ".toList ++ netmask)
  else e

def netGateway : Text := "net_gateway".toList

/-- The loop over the routes, with `routeopt` and `routeExcluded`. -/
def convertRoute (acc : Text × Text) (route : OptionLine) : Except Thrown (Text × Text) := do
  let netmask ← if 3 ≤ route.length then elementAt route 2 else pure "255.255.255.255".toList
  let gateway ← if 4 ≤ route.length then elementAt route 3 else pure "vpn_gateway".toList
  let net ← elementAt route 1
  match CIDRIP.ofMask net netmask with
  | .error e => throw (routeNetmaskError netmask e)
  | .ok cidr =>
    if gateway = netGateway then return (acc.1, acc.2 ++ cidr.text ++ [' '])
    else return (acc.1 ++ cidr.text ++ [' '], acc.2)

def convertRoutes (routes : List OptionLine) : Except Thrown (Text × Text) :=
  routes.foldlM convertRoute ([], [])

def convertRouteV6 (acc : Text) (route : OptionLine) : Except Thrown Text := do
  return acc ++ (← elementAt route 1) ++ [' ']

def convertRoutesV6 (routesV6 : List OptionLine) : Except Thrown Text :=
  routesV6.foldlM convertRouteV6 []

def readRoutes (r : Routing) : Convert Routing := do
  let (mCustomRoutes, mExcludedRoutes) ←
    match ← getAllOption "route" 1 4 with
    | none => pure (r.mCustomRoutes, r.mExcludedRoutes)
    | some routes => do
      let (routeopt, routeExcluded) ← convertRoutes routes
      pure (some routeopt, some routeExcluded)
  let mCustomRoutesv6 ←
    match ← getAllOption "route-ipv6" 1 4 with
    | none => pure r.mCustomRoutesv6
    | some routesV6 => convertRoutesV6 routesV6
  let routeNoPull ← getFlag "route-nopull" 0
  return { r with
    mCustomRoutes := mCustomRoutes, mExcludedRoutes := mExcludedRoutes,
    mCustomRoutesv6 := mCustomRoutesv6, mRoutenopull := routeNoPull || r.mRoutenopull }

/-- The loop over the `tls-auth` options. -/
def convertTlsAuth (t : TlsAuth) (tlsauth : OptionLine) : Except Thrown TlsAuth := do
  let file ← elementAt tlsauth 1
  let t := if file ≠ "[inline]".toList then
      { t with mTLSAuthFilename := some file, mUseTLSAuth := true } else t
  if tlsauth.length = 3 then return { t with mTLSAuthDirection := ← elementAt tlsauth 2 }
  return t

def convertTlsAuths (t : TlsAuth) (tlsauthoptions : List OptionLine) : Except Thrown TlsAuth :=
  tlsauthoptions.foldlM convertTlsAuth t

def readTlsCrypt (crypt : String) (t : TlsAuth) : Convert TlsAuth := do
  match ← getArgument crypt with
  | none => return t
  | some file =>
    return { mUseTLSAuth := true, mTLSAuthFilename := some file, mTLSAuthDirection := crypt.toList }

def readTlsAuth (t : TlsAuth) : Convert TlsAuth := do
  let t ←
    match ← getAllOption "tls-auth" 1 2 with
    | none => pure t
    | some tlsauthoptions => convertTlsAuths t tlsauthoptions
  let direction ← getArgument "key-direction"
  let t := { t with mTLSAuthDirection := direction.getD t.mTLSAuthDirection }
  readTlsCrypt "tls-crypt-v2" (← readTlsCrypt "tls-crypt" t)

/-- An argument of `redirect-gateway`, with `noIpv4`. -/
def redirectParameter (acc : Routing × Bool) (parameter : Text) : Routing × Bool :=
  if parameter = "block-local".toList then ({ acc.1 with mAllowLocalLAN := false }, acc.2)
  else if parameter = "unblock-local".toList then ({ acc.1 with mAllowLocalLAN := true }, acc.2)
  else if parameter = "!ipv4".toList then (acc.1, true)
  else if parameter = "ipv6".toList then ({ acc.1 with mUseDefaultRoutev6 := true }, acc.2)
  else acc

/-- The flags of `redirect-gateway`. -/
def checkRedirectParameters (r : Routing) (defgw : List OptionLine) (defaultRoute : Bool) :
    Routing :=
  if defaultRoute then
    let (r, noIpv4) := (defgw.flatMap List.tail).foldl redirectParameter (r, false)
    if noIpv4 then r else { r with mUseDefaultRoute := true }
  else r

def readRedirect (r : Routing) : Convert Routing := do
  let r :=
    match ← getAllOption "redirect-gateway" 0 7 with
    | none => r
    | some defgw => checkRedirectParameters r defgw true
  return match ← getAllOption "redirect-private" 0 5 with
    | none => r
    | some redirectPrivate => checkRedirectParameters r redirectPrivate false

/-! ## The device and its addresses -/

def onlyTunError : Thrown :=
  .configParseError "Sorry. Only tun mode is supported. See the FAQ for more detail".toList

def readDev : Convert Unit := do
  let dev ← getArgument "dev"
  let devtype ← getArgument "dev-type"
  if devtype = some "tun".toList ∨ dev.any (startsWith · "tun".toList) ∨
      devtype = none ∧ dev = none then
    return ()
  throw onlyTunError

def readMtu (a : Addressing) : Convert Addressing := do
  let mMssFix ←
    match ← getOption "mssfix" 0 1 with
    | none => pure a.mMssFix
    | some mssfix =>
      if 2 ≤ mssfix.length then
        integerArgument (fun _ => "Argument to --mssfix has to be an integer".toList)
          (← elementAt mssfix 1)
      else pure 1450
  let mTunMtu ←
    match ← getArgument "tun-mtu" with
    | none => pure a.mTunMtu
    | some tunmtu =>
      integerArgument (fun _ => "Argument to --tun-mtu has to be an integer".toList) tunmtu
  return { a with mMssFix := mMssFix, mTunMtu := mTunMtu }

def readMode : Convert Unit := do
  let mode ← getArgument "mode"
  if mode.any (· ≠ "p2p".toList) then
    throw (.configParseError "Invalid mode for --mode specified, need p2p".toList)

/-- The loop over the DHCP options; a default address is replaced first. -/
def convertDhcpOption (a : Addressing) (dhcpoption : OptionLine) : Except Thrown Addressing := do
  let type ← elementAt dhcpoption 1
  let arg ← elementAt dhcpoption 2
  if type = "DOMAIN".toList then return { a with mSearchDomain := arg }
  else if type = "DNS".toList then
    if a.mDNS1 = "8.8.8.8".toList then return { a with mOverrideDNS := true, mDNS1 := arg }
    else return { a with mOverrideDNS := true, mDNS2 := arg }
  else return a

def convertDhcpOptions (a : Addressing) (dhcpoptions : List OptionLine) :
    Except Thrown Addressing :=
  dhcpoptions.foldlM convertDhcpOption a

/-- Only a `NumberFormatException` is caught; its message is not modelled. -/
def ifconfigError (e : Thrown) : Thrown :=
  if e = numberFormatException then .configParseError "Could not pase ifconfig IP address: ".toList
  else e

def convertIfconfig (ifconfig : OptionLine) : Except Thrown Text := do
  let ip ← elementAt ifconfig 1
  let mask ← elementAt ifconfig 2
  match CIDRIP.ofMask ip mask with
  | .ok cidr => return cidr.text
  | .error e => throw (ifconfigError e)

def readAddresses (a : Addressing) : Convert Addressing := do
  let a ←
    match ← getAllOption "dhcp-option" 2 2 with
    | none => pure a
    | some dhcpoptions => convertDhcpOptions a dhcpoptions
  match ← getOption "ifconfig" 2 2 with
  | none => return a
  | some ifconfig => return { a with mIPv4Address := some (← convertIfconfig ifconfig) }

/-! ## Certificates, the peer and the user -/

/-- `mAuthenticationType` and the negation of `noauthtypeset`. -/
structure AuthType where
  type : AuthenticationType := .keystore
  isSet : Bool := false
  deriving DecidableEq, Repr

def AuthType.set (a : AuthType) (given : Bool) (type : AuthenticationType) : AuthType :=
  if given then { type := type, isSet := true } else a

def readFiles (f : Files) (a : AuthType) : Convert (Files × AuthType) := do
  let ca ← getArgument "ca"
  let cert ← getArgument "cert"
  let key ← getArgument "key"
  let pkcs12 ← getArgument "pkcs12"
  let cryptoapicert ← getArgument "cryptoapicert"
  return ({ f with
      mCaFilename := ca <|> f.mCaFilename, mClientCertFilename := cert <|> f.mClientCertFilename,
      mClientKeyFilename := key <|> f.mClientKeyFilename,
      mPKCS12Filename := pkcs12 <|> f.mPKCS12Filename },
    ((a.set cert.isSome .certificates).set pkcs12.isSome .keystore).set cryptoapicert.isSome
      .keystore)

/-- The second argument of `verify-x509-name`. -/
def x509AuthType (verifyx509name : OptionLine) : Except Thrown X509AuthType := do
  if 2 < verifyx509name.length then
    let type ← elementAt verifyx509name 2
    if type = "name".toList then return .tlsremoteRdn
    else if type = "subject".toList then return .tlsremoteDn
    else if type = "name-prefix".toList then return .tlsremoteRdnPrefix
    else throw (.configParseError ("Unknown parameter to verify-x509-name: ".toList ++ type))
  return .tlsremoteDn

def readTlsRemote (n : PeerName) : Convert PeerName := do
  let compatnames ← getOption "compat-names" 1 2
  let nonameremapping ← getArgument "no-name-remapping"
  match ← getArgument "tls-remote" with
  | none => return n
  | some tlsremote =>
    return { n with
      mRemoteCN := tlsremote, mCheckRemoteCN := true,
      mX509AuthType :=
        if compatnames.any (2 < ·.length) || nonameremapping.isSome then .tlsremoteCompatNoremapping
        else .tlsremote }

def readPeerName (n : PeerName) : Convert PeerName := do
  let n ← readTlsRemote n
  let n ←
    match ← getOption "verify-x509-name" 1 2 with
    | none => pure n
    | some verifyx509name => do
      pure { n with
        mRemoteCN := ← elementAt verifyx509name 1, mCheckRemoteCN := true,
        mX509AuthType := ← x509AuthType verifyx509name }
  let x509usernamefield ← getArgument "x509-username-field"
  return { n with mx509UsernameField := x509usernamefield <|> n.mx509UsernameField }

def readRetrying (r : Retrying) : Convert Retrying := do
  let r ←
    match ← getOption "connect-retry" 1 2 with
    | none => pure r
    | some connectretry => do
      let mConnectRetry ← elementAt connectretry 1
      let mConnectRetryMaxTime ←
        if 2 < connectretry.length then elementAt connectretry 2 else pure r.mConnectRetryMaxTime
      pure { r with mConnectRetry := mConnectRetry, mConnectRetryMaxTime := mConnectRetryMaxTime }
  let connectretrymax ← getArgument "connect-retry-max"
  return { r with mConnectRetryMax := connectretrymax.getD r.mConnectRetryMax }

/-- Another value than `server` is put back under a name that nothing reads. -/
def readRemoteCertTls : Convert Bool := do
  match ← getAllOption "remote-cert-tls" 1 1 with
  | none => return false
  | some remotetls =>
    if (← elementAt (remotetls.headD []) 1) = "server".toList then return true
    modify fun o => o.put "remotetls".toList remotetls
    return false

/-- The user name and the password in an inline file. -/
def embeddedUserAuth (inlinedata : Text) : Option (Text × Text) :=
  match split '\n' (getEmbeddedContent inlinedata) with
  | user :: password :: _ => some (user, password)
  | _ => none

def readAuthUser (c : UserAuth) (a : AuthType) : Convert (UserAuth × AuthType) := do
  match ← getOption "auth-user-pass" 0 1 with
  | none => return (c, a)
  | some authuser =>
    let type :=
      if !a.isSet then .userpass
      else
        match a.type with
        | .certificates => .userpassCertificates
        | .keystore => .userpassKeystore
        | type => type
    let a := { a with type := type }
    if 1 < authuser.length then
      match embeddedUserAuth (← elementAt authuser 1) with
      | some (user, password) => return ({ c with mUsername := some user, mPassword := password }, a)
      | none => return ({ c with mUsername := none }, a)
    return (c, a)

/-- The message of the error reads an argument that the option cannot have. -/
def readAuthRetry (c : UserAuth) : Convert UserAuth := do
  match ← getOption "auth-retry" 1 1 with
  | none => return c
  | some authretry =>
    let mode ← elementAt authretry 1
    if mode = "none".toList then return { c with mAuthRetry := .noneForget }
    else if mode = "nointeract".toList then return { c with mAuthRetry := .nointeract }
    else if mode = "interact".toList then return { c with mAuthRetry := .nointeract }
    else
      throw (.configParseError ("Unknown parameter to auth-retry: ".toList ++
        (← elementAt authretry 2)))

/-- The file name and the custom option for `crl-verify`. -/
def readCrl : Convert (Option Text × Text) := do
  match ← getOption "crl-verify" 1 2 with
  | none => return (none, [])
  | some crlfile =>
    if crlfile.length = 3 ∧ crlfile[2]? = some "dir".toList then
      return (none, [' '].intercalate crlfile ++ ['\n'])
    return (some (← elementAt crlfile 1), [])

/-! ## Custom options -/

def unsupportedOptions : List Text := ["config", "tls-server"].map String.toList

def ignoreOptions : List Text :=
  ["tls-client", "allow-recursive-routing", "askpass", "auth-nocache", "up", "down", "route-up",
    "ipchange", "route-pre-down", "auth-user-pass-verify", "block-outside-dns",
    "client-cert-not-required", "dhcp-release", "dhcp-renew", "dh", "group", "ip-win32",
    "ifconfig-nowarn", "management-hold", "management", "management-client",
    "management-query-remote", "management-query-passwords", "management-query-proxy",
    "management-external-key", "management-forget-disconnect", "management-signal",
    "management-log-cache", "management-up-down", "management-client-user",
    "management-client-group", "pause-exit", "preresolve", "plugin", "machine-readable-output",
    "persist-key", "push", "register-dns", "route-delay", "route-gateway", "route-metric",
    "route-method", "status", "script-security", "show-net-up", "suppress-timestamps",
    "tap-sleep", "tmp-dir", "tun-ipv6", "topology", "user", "win-sys"].map String.toList

def ignoreOptionsWithArg : List OptionLine :=
  [["setenv", "IV_GUI_VER"], ["setenv", "IV_PLAT_VER"], ["setenv", "IV_OPENVPN_GUI_VERSION"],
    ["engine", "dynamic"], ["setenv", "CLIENT_CERT"], ["resolv-retry", "60"]].map
      (List.map String.toList)

def connectionOptions : List Text :=
  ["local", "remote", "float", "port", "connect-retry", "connect-timeout", "connect-retry-max",
    "link-mtu", "tun-mtu", "tun-mtu-extra", "fragment", "mtu-disc", "local-port", "remote-port",
    "bind", "nobind", "proto", "http-proxy", "http-proxy-retry", "http-proxy-timeout",
    "http-proxy-option", "socks-proxy", "socks-proxy-retry", "http-proxy-user-pass",
    "explicit-exit-notify"].map String.toList

def ignoreThisOption (option : OptionLine) : Bool :=
  ignoreOptionsWithArg.any fun ignoreOption => ignoreOption.isPrefixOf option

/-- One line of `getOptionStrings`. -/
def optionString (optionsline : OptionLine) : Text :=
  if ignoreThisOption optionsline then []
  else if optionsline.length = 2 ∧ optionsline.head? = some "extra-certs".toList then
    insertFileData "extra-certs" optionsline[1]?
  else (optionsline.flatMap fun arg => openVpnEscape arg ++ [' ']) ++ ['\n']

def getOptionStrings (option : List OptionLine) : Text := option.flatMap optionString

/-! ## Connections -/

def isUdpProto (proto : Text) : Except Thrown Bool :=
  if proto ∈ ["udp".toList, "udp4".toList, "udp6".toList] then .ok true
  else if proto ∈ ["tcp-client".toList, "tcp".toList, "tcp4".toList, "tcp6".toList] ∨
      endsWith proto "tcp4-client".toList ∨ endsWith proto "tcp6-client".toList then
    .ok false
  else .error (.configParseError ("Unsupported option to --proto ".toList ++ proto))

/-- The message of the `NumberFormatException` at its end is not modelled. -/
def connectTimeoutMessage (arg : Text) : Text :=
  "Argument to connect-timeout (".toList ++ arg ++ ") must to be an integer: ".toList

def readPort (c : Connection) : Convert Connection := do
  let port ← getArgument "port"
  let rport ← getArgument "rport"
  let mServerPort := rport.getD (port.getD c.mServerPort)
  let mUseUdp ←
    match ← getArgument "proto" with
    | none => pure c.mUseUdp
    | some proto => isUdpProto proto
  let mConnectTimeout ←
    match ← getArgument "connect-timeout" with
    | none => pure c.mConnectTimeout
    | some connectTimeout => integerArgument connectTimeoutMessage connectTimeout
  return { c with
    mServerPort := mServerPort, mUseUdp := mUseUdp, mConnectTimeout := mConnectTimeout }

/-- `http-proxy` is read only without a `socks-proxy`. -/
def readProxyOption : Convert (Option OptionLine) := do
  match ← getOption "socks-proxy" 1 2 with
  | some proxy => return some proxy
  | none => getOption "http-proxy" 2 2

def convertProxy (c : Connection) (proxy : OptionLine) : Except Thrown Connection := do
  let c :=
    if proxy.head? = some "socks-proxy".toList then
      { c with mProxyType := .socks5, mProxyPort := "1080".toList }
    else { c with mProxyType := .http }
  let mProxyName ← elementAt proxy 1
  let mProxyPort ← if 3 ≤ proxy.length then elementAt proxy 2 else pure c.mProxyPort
  return { c with mProxyName := mProxyName, mProxyPort := mProxyPort }

/-- `useEmbbedHttpAuth` -/
def useEmbbedHttpAuth (c : Connection) (inlinedata : Text) : Connection :=
  match embeddedUserAuth inlinedata with
  | some (user, password) =>
    { c with mProxyAuthUser := some user, mProxyAuthPassword := some password, mUseProxyAuth := true }
  | none => c

def readProxy (c : Connection) : Convert Connection := do
  let c ←
    match ← readProxyOption with
    | none => pure c
    | some proxy => convertProxy c proxy
  match ← getArgument "http-proxy-user-pass" with
  | none => return c
  | some httpproxyauthhttp => return useEmbbedHttpAuth c httpproxyauthhttp

/-- Options become custom options of the connection: all of those in a block, those that belong to a
connection outside. -/
def takesOption (inBlock : Bool) (key : Text) : Bool := inBlock || connectionOptions.contains key

def readCustomOptions (order : MapOrder) (inBlock : Bool) (c : Connection) : Convert Connection := do
  let options ← get
  let taken := (order.arrange options).filter fun option => takesOption inBlock option.1
  let mCustomConfiguration :=
    c.mCustomConfiguration ++ taken.flatMap fun option => getOptionStrings option.2
  set (options.filter fun option => !takesOption inBlock option.1)
  return { c with
    mCustomConfiguration := mCustomConfiguration,
    mUseCustomConfig := c.mUseCustomConfig || !(trim mCustomConfiguration).isEmpty }

/-- The `switch` over the number of arguments falls through. -/
def convertRemote (c : Connection) (remote : OptionLine) : Except Thrown Connection :=
  match remote with
  | [_, mServerName] => .ok { c with mServerName := mServerName }
  | [_, mServerName, mServerPort] =>
    .ok { c with mServerName := mServerName, mServerPort := mServerPort }
  | [_, mServerName, mServerPort, proto] => do
    let mUseUdp ← isUdpProto proto
    return { c with mServerName := mServerName, mServerPort := mServerPort, mUseUdp := mUseUdp }
  | _ => .ok c

/-- The options of one connection. -/
def parseConnectionOptions (order : MapOrder) (connDefault : Option Connection) :
    Convert (Connection × List Connection) := do
  let conn ← readProxy (← readPort (connDefault.getD {}))
  let remotes ← getAllOption "remote" 1 3
  let conn ← readCustomOptions order connDefault.isSome conn
  let connections ← ((remotes.getD []).mapM (convertRemote conn) : Except Thrown (List Connection))
  return (conn, connections)

/-- The content is parsed as a file of its own. -/
def parseConnection (order : MapOrder) (defaultValues : Connection) (connection : Text) :
    Except Thrown (Connection × List Connection) := do
  if utf16Length connection < utf16Length inlineMark then throw stringIndexOutOfBoundsException
  let connectionParser ← parseConfig (substring (utf16Length inlineMark) connection)
  let (conn, _) ← (parseConnectionOptions order (some defaultValues)).run connectionParser.options
  return conn

def connectionAndRemoteError : Thrown :=
  .configParseError "Using a <connection> block and --remote is not allowed.".toList

def oneRemoteError : Thrown :=
  .configParseError "A <connection> block must have exactly one remote".toList

def convertBlock (order : MapOrder) (defaultValues : Connection) (conn : OptionLine) :
    Except Thrown Connection := do
  let (_, connections) ← parseConnection order defaultValues (← elementAt conn 1)
  match connections with
  | [c] => return c
  | _ => throw oneRemoteError

def convertBlocks (order : MapOrder) (defaultValues : Connection)
    (connectionBlocks : List OptionLine) : Except Thrown (List Connection) :=
  connectionBlocks.mapM (convertBlock order defaultValues)

def readConnections (order : MapOrder) : Convert (List Connection) := do
  let (conn, connections) ← parseConnectionOptions order none
  match ← getAllOption "connection" 1 1 with
  | none => return connections
  | some connectionBlocks =>
    if !connections.isEmpty then throw connectionAndRemoteError
    convertBlocks order conn connectionBlocks

/-- Whether `proto-force` disables UDP. -/
def disablesUdp (protoToDisable : Text) : Except Thrown Bool :=
  if protoToDisable = "udp".toList then .ok true
  else if protoToDisable = "tcp".toList then .ok false
  else
    .error (.configParseError
      ("Unknown protocol ".toList ++ protoToDisable ++ " in proto-force".toList))

def readProtoForce (conns : List Connection) : Convert (List Connection) := do
  match ← getArgument "proto-force" with
  | none => return conns
  | some protoToDisable =>
    let disableUDP ← disablesUdp protoToDisable
    return conns.map fun conn =>
      if conn.mUseUdp = disableUDP then { conn with mEnabled := false } else conn

/-! ## The profile -/

def readPull : Convert Bool := do
  let options ← get
  if options.containsKey "client".toList || options.containsKey "pull".toList then
    set ((options.remove "pull".toList).remove "client".toList)
    return true
  return false

/-- Everything that is read from options. -/
def readProfile (order : MapOrder) (np : VpnProfile) : Convert VpnProfile := do
  let pull ← readPull
  let secret ← readSecret
  let routing ← readRoutes np.toRouting
  let tlsAuth ← readTlsAuth (secret.getD np.toTlsAuth)
  let routing ← readRedirect routing
  readDev
  let addressing ← readMtu np.toAddressing
  readMode
  let addressing ← readAddresses addressing
  let randomHostname ← getFlag "remote-random-hostname" 0
  let float ← getFlag "float" 0
  let lzo ← getFlag "comp-lzo" 1
  let cipher ← getArgument "cipher"
  let auth ← getArgument "auth"
  let (files, type) ← readFiles np.toFiles
    (({ type := np.mAuthenticationType } : AuthType).set secret.isSome .statickeys)
  let peerName ← readPeerName np.toPeerName
  let verb ← getArgument "verb"
  let nobind ← getFlag "nobind" 0
  let persistTun ← getFlag "persist-tun" 0
  let pushPeerInfo ← getFlag "push-peer-info" 0
  let retrying ← readRetrying np.toRetrying
  let expectTLSCert ← readRemoteCertTls
  let (credentials, type) ← readAuthUser np.toUserAuth type
  let credentials ← readAuthRetry credentials
  let (crl, custom) ← readCrl
  let connections ← readConnections order
  let remoteRandom ← getFlag "remote-random" 0
  let connections ← readProtoForce connections
  return { np with
    toTlsAuth := tlsAuth
    toRouting := routing
    toAddressing := addressing
    toFiles := { files with mCrlFilename := crl <|> files.mCrlFilename }
    toPeerName := peerName
    toRetrying := retrying
    toUserAuth := credentials
    mAuthenticationType := type.type
    mUsePull := pull || np.mUsePull
    mUseLzo := lzo || np.mUseLzo
    mExpectTLSCert := expectTLSCert || np.mExpectTLSCert
    mUseRandomHostname := randomHostname || np.mUseRandomHostname
    mUseFloat := float || np.mUseFloat
    mCipher := cipher.getD np.mCipher
    mAuth := auth.getD np.mAuth
    mVerb := verb.getD np.mVerb
    mNobind := nobind || np.mNobind
    mPersistTun := persistTun || np.mPersistTun
    mPushPeerInfo := pushPeerInfo || np.mPushPeerInfo
    mCustomConfigOptions := np.mCustomConfigOptions ++ custom
    mConnections := connections
    mRemoteRandom := remoteRandom || np.mRemoteRandom }

/-- The value of an entry in the comments of an access server. -/
def metaValue (metadata : List (Text × List Text)) (key : String) : Option Text :=
  (metadata.lookup key.toList).bind (·[1]?)

def readMeta (metadata : List (Text × List Text)) (np : VpnProfile) : VpnProfile :=
  { np with
    mName := (metaValue metadata "FRIENDLY_NAME").getD np.mName
    mUsername := metaValue metadata "USERNAME" <|> np.mUsername }

def unsupportedOptionError (option : Text) : Thrown :=
  .configParseError ("Unsupported Option ".toList ++ option ++
    " encountered in config file. Aborting".toList)

def customOptionsComment : String :=
  "# These options found in the config file do not map to config settings:"

/-- Unsupported options are refused, the others become custom options. -/
def checkIgnoreAndInvalidOptions (order : MapOrder) (options : OptionMap) (np : VpnProfile) :
    Except Thrown VpnProfile :=
  match unsupportedOptions.find? options.containsKey with
  | some option => .error (unsupportedOptionError option)
  | none =>
    let options := options.filter fun option => !ignoreOptions.contains option.1
    if options.any fun option => option.2.any fun line => !ignoreThisOption line then
      .ok { np with
        mCustomConfigOptions := fixedLine customOptionsComment ++ np.mCustomConfigOptions ++
          (order.arrange options).flatMap fun option => getOptionStrings option.2
        mUseCustomConfig := true }
    else .ok np

def fixup (np : VpnProfile) : VpnProfile :=
  if np.mRemoteCN = np.mServerName then { np with mRemoteCN := [] } else np

/-- `CONVERTED_PROFILE` -/
def convertedProfile : Text := "converted Profile".toList

/-- `ConfigParser.convertProfile`. -/
def convertProfile (order : MapOrder) (parser : Parser) : Except Thrown VpnProfile := do
  let np := (VpnProfile.named convertedProfile).clearDefaults
  let (np, options) ← (readProfile order np).run parser.options
  let np ← checkIgnoreAndInvalidOptions order options (readMeta parser.metadata np)
  return fixup np

/-- Importing a file. -/
def importProfile (order : MapOrder) (text : Text) : Except Thrown VpnProfile := do
  convertProfile order (← parseConfig text)

end VpnCore.Config
