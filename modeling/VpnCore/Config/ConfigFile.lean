import VpnCore.Config.Profile

/-!
# VpnCore.Config.ConfigFile — `VpnProfile.getConfigFile`

The configuration file that is written for OpenVPN, section by section in the order of the source.
-/

namespace VpnCore.Config

/-- What `getConfigFile` gets from Android. -/
structure Context where
  cacheDir : Text
  /-- `getVersionEnvString` -/
  guiVersion : Text
  /-- `getPlatformVersionEnvString` -/
  platformVersion : Text
  usesystemproxy : Bool
  /-- `getExternalCertificates`: the CA, further certificates and the certificate of the user -/
  externalCertificates : Option (Text × Option Text × Text)
  /-- `R.string.keychain_access` -/
  keychainAccess : Text
  /-- `R.string.jelly_keystore_alphanumeric_bug` -/
  jellyKeystoreBug : Text
  sdkInt : ℕ
  deriving DecidableEq, Repr

def jellyBean : ℕ := 16

def nullPointerException : Thrown := .runtimeException "NullPointerException".toList

/-! ## Connections -/

namespace Connection

def remoteLine (c : Connection) : Text :=
  rawLine "remote" (c.mServerName ++ ' ' :: (c.mServerPort ++
    (if c.mUseUdp then " udp" else " tcp-client").toList))

def timeoutLine (c : Connection) : Text :=
  if c.mConnectTimeout ≠ 0 then " connect-timeout  ".toList ++ decimal c.mConnectTimeout ++ ['\n']
  else []

def proxyLines (c : Connection) : Text :=
  let address := c.mProxyName ++ ' ' :: c.mProxyPort
  if c.usesExtraProxyOptions && c.mProxyType == .http then
    rawLine "http-proxy" address ++
      if c.mUseProxyAuth then
        inlineFile "http-proxy-user-pass"
          (formatString c.mProxyAuthUser ++ '\n' :: formatString c.mProxyAuthPassword)
      else []
  else if c.usesExtraProxyOptions && c.mProxyType == .socks5 then rawLine "socks-proxy" address
  else []

def customLines (c : Connection) : Text :=
  if c.isOnlyRemote then [] else c.mCustomConfiguration ++ ['\n']

/-- `Connection.getConnectionBlock`. -/
def getConnectionBlock (c : Connection) : Text :=
  c.remoteLine ++ c.timeoutLine ++ c.proxyLines ++ c.customLines

end Connection

/-! ## Routes -/

/-- The netmask of a prefix length. -/
def netmaskText (len : ℤ) : Text :=
  let nm := 0xffffffff * 2 ^ (32 - len).toNat % 2 ^ 32
  decimal (nm / 2 ^ 24) ++ '.' :: decimal (nm / 2 ^ 16 % 256) ++ '.' :: decimal (nm / 2 ^ 8 % 256) ++
    '.' :: decimal (nm % 256)

/-- `a.b.c.d/n` as address and netmask. -/
def cidrToIPAndNetmask (route : Text) : Option Text :=
  let parts := split '/' route
  let parts := if parts.length = 1 then split '/' (route ++ "/32".toList) else parts
  match parts with
  | [ip, suffix] =>
    match parseInt suffix with
    | .error _ => none
    | .ok len => if len < 0 ∨ 32 < len then none else some (ip ++ "  ".toList ++ netmaskText len)
  | _ => none

/-- The loop of `getCustomRoutes`, which ends at a route that it cannot read. -/
def collectRoutes : List Text → List Text
  | [] => []
  | route :: routes =>
    if route.isEmpty then collectRoutes routes
    else
      match cidrToIPAndNetmask route with
      | none => []
      | some cidrroute => cidrroute :: collectRoutes routes

def getCustomRoutes (routes : Option Text) : List Text :=
  match routes with
  | none => []
  | some routes => collectRoutes (splitBlanks routes)

def getCustomRoutesv6 (routes : Text) : List Text :=
  (splitBlanks routes).filter fun route => !route.isEmpty

/-! ## The sections -/

namespace VpnProfile

def managementLines (ctx : Context) : Text :=
  fixedLine "# Config for OpenVPN 2.x" ++ fixedLine "# Enables connection to GUI" ++
    rawLine "management" (ctx.cacheDir ++ "/mgmtsocket unix".toList) ++
    fixedLine "management-client" ++ fixedLine "management-query-passwords" ++
    fixedLine "management-hold" ++ fixedLine ""

def versionLines (ctx : Context) : Text :=
  rawLine "setenv" ("IV_GUI_VER ".toList ++ openVpnEscape ctx.guiVersion ++ " ".toList) ++
    rawLine "setenv" ("IV_PLAT_VER ".toList ++ openVpnEscape ctx.platformVersion) ++
    fixedLine "machine-readable-output" ++ fixedLine "allow-recursive-routing" ++
    fixedLine "ifconfig-nowarn"

def useTLSClient (p : VpnProfile) : Bool := p.mAuthenticationType != .statickeys

def clientLines (p : VpnProfile) : Text :=
  (if p.useTLSClient && p.mUsePull then fixedLine "client"
    else if p.mUsePull then fixedLine "pull"
    else if p.useTLSClient then fixedLine "tls-client"
    else []) ++ fixedLine "verb 4"

def retryLines (p : VpnProfile) : Text :=
  let mConnectRetry := if p.mConnectRetry.isEmpty then "2".toList else p.mConnectRetry
  let mConnectRetryMaxTime :=
    if p.mConnectRetryMaxTime.isEmpty then "300".toList else p.mConnectRetryMaxTime
  (if p.mConnectRetryMax ≠ "-1".toList then rawLine "connect-retry-max" p.mConnectRetryMax
    else []) ++ rawLine "connect-retry" (mConnectRetry ++ ' ' :: mConnectRetryMaxTime) ++
    fixedLine "resolv-retry 60" ++ fixedLine "dev tun"

def canUsePlainRemotes (p : VpnProfile) : Bool :=
  p.mConnections.length == 1 || p.mConnections.all Connection.isOnlyRemote

def remoteLines (p : VpnProfile) : Text :=
  match p.mConnections with
  | [conn] => conn.getConnectionBlock
  | conns =>
    (if p.mRemoteRandom then fixedLine "remote-random" else []) ++
      if p.canUsePlainRemotes then
        (conns.filter Connection.mEnabled).flatMap Connection.getConnectionBlock
      else []

def certificateLines (p : VpnProfile) : Text :=
  insertFileData "ca" p.mCaFilename ++ insertFileData "key" p.mClientKeyFilename ++
    insertFileData "cert" p.mClientCertFilename

def pkcs12Lines (p : VpnProfile) : Text :=
  insertFileData "pkcs12" p.mPKCS12Filename ++
    if (p.mCaFilename.getD []).isEmpty then [] else insertFileData "ca" p.mCaFilename

/-- `mAlias.matches("^[a-zA-Z0-9]$")` -/
def aliasMatches (mAlias : Text) : Bool :=
  match mAlias with
  | [c] => c.isAlphanum
  | _ => false

def keystoreLines (ctx : Context) (p : VpnProfile) : Except Thrown Text :=
  let head := fixedLine "### From Keystore/ext auth app ####"
  match ctx.externalCertificates with
  | some (ca, extra, cert) =>
    .ok (head ++ inlineFile "ca" ca ++
      (if (extra.getD []).isEmpty then [] else inlineFile "extra-certs" (extra.getD [])) ++
      inlineFile "cert" cert ++ fixedLine "management-external-key nopadding")
  | none =>
    let message := head ++ ctx.keychainAccess ++ ['\n']
    if ctx.sdkInt = jellyBean then
      match p.mAlias with
      | none => .error nullPointerException
      | some mAlias =>
        .ok (message ++ if aliasMatches mAlias then [] else ctx.jellyKeystoreBug ++ ['\n'])
    else .ok message

def authenticationLines (ctx : Context) (p : VpnProfile) : Except Thrown Text :=
  let userpass := fixedLine "auth-user-pass"
  match p.mAuthenticationType with
  | .userpassCertificates => .ok (userpass ++ p.certificateLines)
  | .certificates => .ok p.certificateLines
  | .userpassPkcs12 => .ok (userpass ++ p.pkcs12Lines)
  | .pkcs12 => .ok p.pkcs12Lines
  | .userpassKeystore => do return userpass ++ (← p.keystoreLines ctx)
  | .keystore => p.keystoreLines ctx
  | .externalApp => p.keystoreLines ctx
  | .userpass => .ok (userpass ++ insertFileData "ca" p.mCaFilename)
  | .statickeys => .ok []

def authRetryLine (p : VpnProfile) : Text :=
  if p.isUserPWAuth && p.mAuthRetry == .nointeract then fixedLine "auth-retry nointeract" else []

def crlLines (p : VpnProfile) : Text :=
  if (p.mCrlFilename.getD []).isEmpty then [] else insertFileData "crl-verify" p.mCrlFilename

def tlsCrypt : Text := "tls-crypt".toList

def tlsCryptV2 : Text := "tls-crypt-v2".toList

/-- The option that takes the key. -/
def tlsAuthEntry (p : VpnProfile) : String :=
  if p.mAuthenticationType = .statickeys then "secret"
  else if p.mTLSAuthDirection = tlsCrypt then "tls-crypt"
  else if p.mTLSAuthDirection = tlsCryptV2 then "tls-crypt-v2"
  else "tls-auth"

def tlsAuthLines (p : VpnProfile) : Text :=
  if p.mUseTLSAuth then
    insertFileData p.tlsAuthEntry p.mTLSAuthFilename ++
      if !p.mTLSAuthDirection.isEmpty && p.mTLSAuthDirection != tlsCrypt then
        rawLine "key-direction" p.mTLSAuthDirection
      else []
  else []

def ifconfigLines (p : VpnProfile) : Text :=
  let mIPv4Address := p.mIPv4Address.getD []
  let mIPv6Address := p.mIPv6Address.getD []
  if p.mUsePull then []
  else
    (if mIPv4Address.isEmpty then []
      else rawLine "ifconfig" (formatString (cidrToIPAndNetmask mIPv4Address))) ++
      if mIPv6Address.isEmpty then []
      else rawLine "ifconfig-ipv6" (mIPv6Address ++ ' ' :: mIPv6Address.takeWhile (· != '/'))

def nopullLine (p : VpnProfile) : Text :=
  if p.mUsePull && p.mRoutenopull then fixedLine "route-nopull" else []

/-- The IPv4 part of `routes`. -/
def routeLines (r : Routing) : Text :=
  if r.mUseDefaultRoute then fixedLine "route 0.0.0.0 0.0.0.0 vpn_gateway"
  else
    ((getCustomRoutes r.mCustomRoutes).flatMap fun route =>
        rawLine "route" (route ++ " vpn_gateway".toList)) ++
      (getCustomRoutes r.mExcludedRoutes).flatMap fun route =>
        rawLine "route" (route ++ " net_gateway".toList)

def routesLines (p : VpnProfile) : Text :=
  if p.mUseDefaultRoutev6 then fixedLine "route-ipv6 ::/0" ++ routeLines p.toRouting
  else
    routeLines p.toRouting ++ (getCustomRoutesv6 p.mCustomRoutesv6).flatMap (rawLine "route-ipv6")

def dnsLines (p : VpnProfile) : Text :=
  if p.mOverrideDNS || !p.mUsePull then
    (if p.mDNS1.isEmpty then [] else rawLine "dhcp-option" ("DNS ".toList ++ p.mDNS1)) ++
      (if p.mDNS2.isEmpty then [] else rawLine "dhcp-option" ("DNS ".toList ++ p.mDNS2)) ++
      if p.mSearchDomain.isEmpty then []
      else rawLine "dhcp-option" ("DOMAIN ".toList ++ p.mSearchDomain)
  else []

def mtuLines (p : VpnProfile) : Text :=
  (if p.mMssFix = 0 then []
    else if p.mMssFix ≠ 1450 then rawLine "mssfix" (decimal p.mMssFix) else fixedLine "mssfix") ++
    if 48 ≤ p.mTunMtu ∧ p.mTunMtu ≠ 1500 then rawLine "tun-mtu" (decimal p.mTunMtu) else []

def nobindLine (p : VpnProfile) : Text := if p.mNobind then fixedLine "nobind" else []

/-- The line that names the peer. -/
def peerNameLines (p : VpnProfile) : Except Thrown Text :=
  if p.mRemoteCN.isEmpty then
    match p.mConnections with
    | [] => .error arrayIndexOutOfBoundsException
    | conn :: _ =>
      .ok (rawLine "verify-x509-name" (openVpnEscape conn.mServerName ++ " name".toList))
  else
    let mRemoteCN := openVpnEscape p.mRemoteCN
    match p.mX509AuthType with
    | .tlsremoteCompatNoremapping =>
      .ok (fixedLine "compat-names no-remapping" ++ rawLine "tls-remote" mRemoteCN)
    | .tlsremote => .ok (rawLine "tls-remote" mRemoteCN)
    | .tlsremoteRdn => .ok (rawLine "verify-x509-name" (mRemoteCN ++ " name".toList))
    | .tlsremoteRdnPrefix => .ok (rawLine "verify-x509-name" (mRemoteCN ++ " name-prefix".toList))
    | .tlsremoteDn => .ok (rawLine "verify-x509-name" mRemoteCN)

def verifyLines (p : VpnProfile) : Except Thrown Text := do
  if p.mAuthenticationType = .statickeys then return []
  let peer ←
    if p.mCheckRemoteCN then do
      let mx509UsernameField := p.mx509UsernameField.getD []
      pure ((← p.peerNameLines) ++
        if mx509UsernameField.isEmpty then []
        else rawLine "x509-username-field" (openVpnEscape mx509UsernameField))
    else pure []
  return peer ++ if p.mExpectTLSCert then fixedLine "remote-cert-tls server" else []

def cipherLines (p : VpnProfile) : Text :=
  (if p.mCipher.isEmpty then [] else rawLine "cipher" p.mCipher) ++
    if p.mAuth.isEmpty then [] else rawLine "auth" p.mAuth

def obscureLines (p : VpnProfile) : Text :=
  (if p.mUseRandomHostname then
      fixedLine "#my favorite options :)" ++ fixedLine "remote-random-hostname"
    else []) ++
    (if p.mUseFloat then fixedLine "float" else []) ++
    (if p.mPersistTun then
      fixedLine "persist-tun" ++
        fixedLine "# persist-tun also enables pre resolving to avoid DNS resolve problem" ++
        fixedLine "preresolve"
    else []) ++
    if p.mPushPeerInfo then fixedLine "push-peer-info" else []

def queryProxyLines (ctx : Context) (p : VpnProfile) : Text :=
  if ctx.usesystemproxy && !p.usesExtraProxyOptions then
    fixedLine "# Use system proxy setting" ++ fixedLine "management-query-proxy"
  else []

def customLines (p : VpnProfile) : Text :=
  if p.mUseCustomConfig then
    fixedLine "# Custom configuration options" ++ fixedLine "# You are on your on own here :)" ++
      p.mCustomConfigOptions ++ ['\n']
  else []

def connectionComment : String :=
  "# Connection Options are at the end to allow global options (and global custom options) " ++
    "to influence connection blocks"

/-- `getConnectionBlock` ends its last line. -/
def connectionFile (conn : Connection) : Text :=
  fixedLine "<connection>" ++ conn.getConnectionBlock ++ fixedLine "</connection>"

def connectionFiles (p : VpnProfile) : Text :=
  if p.canUsePlainRemotes then []
  else fixedLine connectionComment ++
    (p.mConnections.filter Connection.mEnabled).flatMap connectionFile

/-- `VpnProfile.getConfigFile`. -/
def getConfigFile (ctx : Context) (p : VpnProfile) : Except Thrown Text := do
  let authentication ← p.authenticationLines ctx
  let verify ← p.verifyLines
  return managementLines ctx ++ versionLines ctx ++ p.clientLines ++ p.retryLines ++
    p.remoteLines ++ authentication ++ p.authRetryLine ++ p.crlLines ++
    (if p.mUseLzo then fixedLine "comp-lzo" else []) ++ p.tlsAuthLines ++ p.ifconfigLines ++
    p.nopullLine ++ p.routesLines ++ p.dnsLines ++ p.mtuLines ++ p.nobindLine ++ verify ++
    p.cipherLines ++ p.obscureLines ++ p.queryProxyLines ctx ++ p.customLines ++ p.connectionFiles

end VpnProfile

end VpnCore.Config
