import VpnCore.Config.Escape
import VpnCore.Config.ParseConfig

/-!
# VpnCore.Config.Profile — `VpnProfile` and `Connection`

The fields that the import sets or that `getConfigFile` prints, in groups that are imported
together.  A string that may be `null` is an option.
-/

namespace VpnCore.Config

/-- The `TYPE_` constants. -/
inductive AuthenticationType
  | certificates
  | pkcs12
  | keystore
  | userpass
  | statickeys
  | userpassCertificates
  | userpassPkcs12
  | userpassKeystore
  | externalApp
  deriving DecidableEq, Repr

/-- The `X509_VERIFY_TLSREMOTE` constants. -/
inductive X509AuthType
  | tlsremote
  | tlsremoteCompatNoremapping
  | tlsremoteDn
  | tlsremoteRdn
  | tlsremoteRdnPrefix
  deriving DecidableEq, Repr

/-- The `AUTH_RETRY_` constants. -/
inductive AuthRetry
  | noneForget
  | noneKeep
  | nointeract
  | interact
  deriving DecidableEq, Repr

/-! ## Connections -/

inductive ProxyType
  | none
  | http
  | socks5
  | orbot
  deriving DecidableEq, Repr

/-- A remote with its options. -/
structure Connection where
  mServerName : Text := "openvpn.example.com".toList
  mServerPort : Text := "1194".toList
  mUseUdp : Bool := true
  mCustomConfiguration : Text := []
  mUseCustomConfig : Bool := false
  mEnabled : Bool := true
  mConnectTimeout : ℤ := 0
  mProxyType : ProxyType := .none
  mProxyName : Text := "proxy.example.com".toList
  mProxyPort : Text := "8080".toList
  mUseProxyAuth : Bool := false
  mProxyAuthUser : Option Text := none
  mProxyAuthPassword : Option Text := none
  mProType : ℤ := 0
  deriving DecidableEq, Repr

/-- `%s` of a string that may be `null`. -/
def formatString (s : Option Text) : Text := s.getD "null".toList

def httpProxyOption : Text := "http-proxy-option ".toList

namespace Connection

def usesExtraProxyOptions (c : Connection) : Bool :=
  c.mUseCustomConfig && contains c.mCustomConfiguration httpProxyOption

def isOnlyRemote (c : Connection) : Bool := c.mCustomConfiguration.isEmpty || !c.mUseCustomConfig

end Connection

/-! ## The profile -/

/-- The key of the control channel. -/
structure TlsAuth where
  mUseTLSAuth : Bool := false
  mTLSAuthFilename : Option Text := none
  mTLSAuthDirection : Text := []
  deriving DecidableEq, Repr

/-- Which traffic goes through the tunnel. -/
structure Routing where
  mCustomRoutes : Option Text := none
  mExcludedRoutes : Option Text := none
  mCustomRoutesv6 : Text := []
  mRoutenopull : Bool := false
  mUseDefaultRoute : Bool := true
  mUseDefaultRoutev6 : Bool := true
  mAllowLocalLAN : Bool := false
  deriving DecidableEq, Repr

/-- Addresses, name servers and packet size. -/
structure Addressing where
  mMssFix : ℤ := 0
  mTunMtu : ℤ := 0
  mDNS1 : Text := "8.8.8.8".toList
  mDNS2 : Text := "8.8.4.4".toList
  mSearchDomain : Text := "blinkt.de".toList
  mOverrideDNS : Bool := false
  mIPv4Address : Option Text := none
  mIPv6Address : Option Text := none
  deriving DecidableEq, Repr

/-- Certificates and keys. -/
structure Files where
  mCaFilename : Option Text := none
  mClientCertFilename : Option Text := none
  mClientKeyFilename : Option Text := none
  mPKCS12Filename : Option Text := none
  mCrlFilename : Option Text := none
  deriving DecidableEq, Repr

/-- How the server's certificate is verified. -/
structure PeerName where
  mRemoteCN : Text := []
  mCheckRemoteCN : Bool := true
  mX509AuthType : X509AuthType := .tlsremoteRdn
  mx509UsernameField : Option Text := none
  deriving DecidableEq, Repr

/-- How often and how long to try. -/
structure Retrying where
  mConnectRetry : Text := "2".toList
  mConnectRetryMaxTime : Text := "300".toList
  mConnectRetryMax : Text := "-1".toList
  deriving DecidableEq, Repr

/-- The user's credentials. -/
structure UserAuth where
  mUsername : Option Text := some []
  mPassword : Text := []
  mAuthRetry : AuthRetry := .noneForget
  deriving DecidableEq, Repr

/-- A profile, with its fields in groups. -/
structure VpnProfile extends TlsAuth, Routing, Addressing, Files, PeerName, Retrying,
    UserAuth where
  mName : Text
  mAuthenticationType : AuthenticationType := .keystore
  mAlias : Option Text := none
  mUsePull : Bool := true
  mUseLzo : Bool := true
  mExpectTLSCert : Bool := false
  mUseRandomHostname : Bool := false
  mUseFloat : Bool := false
  mCipher : Text := []
  mAuth : Text := []
  mVerb : Text := "1".toList
  mNobind : Bool := true
  mPersistTun : Bool := false
  mPushPeerInfo : Bool := false
  mUseCustomConfig : Bool := false
  mCustomConfigOptions : Text := []
  mConnections : List Connection
  mRemoteRandom : Bool := false
  mServerName : Text := "openvpn.example.com".toList
  deriving DecidableEq, Repr

namespace VpnProfile

/-- The constructor. -/
def named (name : Text) : VpnProfile := { mName := name, mConnections := [{}] }

def clearDefaults (np : VpnProfile) : VpnProfile :=
  { np with
    mServerName := "unknown".toList
    mUsePull := false
    mUseLzo := false
    mUseDefaultRoute := false
    mUseDefaultRoutev6 := false
    mExpectTLSCert := false
    mCheckRemoteCN := false
    mPersistTun := false
    mAllowLocalLAN := true
    mPushPeerInfo := false
    mMssFix := 0
    mNobind := false }

def isUserPWAuth (p : VpnProfile) : Bool :=
  match p.mAuthenticationType with
  | .userpass | .userpassCertificates | .userpassKeystore | .userpassPkcs12 => true
  | _ => false

def usesExtraProxyOptions (p : VpnProfile) : Bool :=
  p.mUseCustomConfig && contains p.mCustomConfigOptions httpProxyOption ||
    p.mConnections.any Connection.usesExtraProxyOptions

end VpnProfile

/-! ## Inline files -/

/-- `DISPLAYNAME_TAG` -/
def displaynameMark : Text := "[[NAME]]".toList

def isEmbedded (data : Text) : Bool := startsWith data inlineMark || startsWith data displaynameMark

def getEmbeddedContent (data : Text) : Text := (textAfter inlineMark data).getD data

/-- `<name>`, the content and `</name>` on lines of their own. -/
def inlineFile (name : String) (content : Text) : Text :=
  '<' :: (name.toList ++ ['>', '\n']) ++ (content ++ ['\n']) ++
    '<' :: '/' :: (name.toList ++ ['>', '\n'])

/-- A line with a value that is printed as it is. -/
def rawLine (name : String) (value : Text) : Text := name.toList ++ ' ' :: (value ++ ['\n'])

def fixedLine (line : String) : Text := line.toList ++ ['\n']

def insertFileData (cfgentry : String) : Option Text → Text
  | none => rawLine cfgentry "file missing in config profile".toList
  | some filedata =>
    if isEmbedded filedata then inlineFile cfgentry (getEmbeddedContent filedata)
    else rawLine cfgentry (openVpnEscape filedata)

end VpnCore.Config
