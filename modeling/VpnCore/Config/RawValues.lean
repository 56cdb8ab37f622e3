import VpnCore.Config.ConfigFile
import VpnCore.Lib.Endings
import VpnCore.Lib.Parts

/-!
# VpnCore.Config.RawValues — what `getConfigFile` prints as it is

`getConfigFile` escapes only some of the values of a profile.  The others (`rawValues`) are printed as they
are, and what follows a newline in them is a line of the file (`strayLines`).  All other lines of the file begin
with words that the code gives them.
-/

namespace VpnCore.Config

open VpnCore.Lib

/-- The lines of a file. -/
def fileLines (file : Text) : List Text := file.splitOn '\n'

/-- The lines of a file that begin with the words. -/
def linesWith (words file : Text) : List Text := (fileLines file).filter (words.isPrefixOf ·)

/-- The lines behind the first one of each value that begin with the words. -/
def strayLines (words : Text) (values : List Text) : List Text :=
  values.flatMap fun value => (fileLines value).tail.filter (words.isPrefixOf ·)

theorem strayLines_append (words : Text) (a b : List Text) :
    strayLines words (a ++ b) = strayLines words a ++ strayLines words b := List.flatMap_append

theorem strayLines_free {words : Text} {values : List Text} (h : ∀ value ∈ values, '\n' ∉ value) :
    strayLines words values = [] := by
  refine List.flatMap_eq_nil_iff.mpr fun value hvalue => ?_
  rw [fileLines, List.splitOn_eq_singleton (h value hvalue)]
  rfl

/-! ## The values -/

/-- A value that begins on a line of its own. -/
def onOwnLine (value : Text) : Text := '\n' :: value

def fileValues : Option Text → List Text
  | none => []
  | some filedata => if isEmbedded filedata then [onOwnLine (getEmbeddedContent filedata)] else []

namespace Connection

def proxyValues (c : Connection) : List Text :=
  let address := c.mProxyName ++ ' ' :: c.mProxyPort
  if c.usesExtraProxyOptions && c.mProxyType == .http then
    address :: if c.mUseProxyAuth then
        [onOwnLine (formatString c.mProxyAuthUser ++ '\n' :: formatString c.mProxyAuthPassword)]
      else []
  else if c.usesExtraProxyOptions && c.mProxyType == .socks5 then [address]
  else []

def customValues (c : Connection) : List Text :=
  if c.isOnlyRemote then [] else [onOwnLine c.mCustomConfiguration]

/-- The values of `getConnectionBlock`. -/
def rawValues (c : Connection) : List Text :=
  [c.mServerName ++ ' ' :: (c.mServerPort ++ (if c.mUseUdp then " udp" else " tcp-client").toList)] ++
    c.proxyValues ++ c.customValues

end Connection

/-- What stands in the route lines. -/
def routeTexts (r : Routing) : List Text :=
  if r.mUseDefaultRoute then ["0.0.0.0 0.0.0.0 vpn_gateway".toList]
  else (getCustomRoutes r.mCustomRoutes).map (· ++ " vpn_gateway".toList) ++
    (getCustomRoutes r.mExcludedRoutes).map (· ++ " net_gateway".toList)

/-- The name servers that `getConfigFile` prints. -/
def printedServers (p : VpnProfile) : List Text :=
  if p.mOverrideDNS || !p.mUsePull then [p.mDNS1, p.mDNS2].filter (!·.isEmpty) else []

namespace VpnProfile

def retryValues (p : VpnProfile) : List Text :=
  let mConnectRetry := if p.mConnectRetry.isEmpty then "2".toList else p.mConnectRetry
  let mConnectRetryMaxTime :=
    if p.mConnectRetryMaxTime.isEmpty then "300".toList else p.mConnectRetryMaxTime
  (if p.mConnectRetryMax ≠ "-1".toList then [p.mConnectRetryMax] else []) ++
    [mConnectRetry ++ ' ' :: mConnectRetryMaxTime]

def remoteValues (p : VpnProfile) : List Text :=
  if p.canUsePlainRemotes then
    (if p.mConnections.length = 1 then p.mConnections else p.mConnections.filter Connection.mEnabled).flatMap
      Connection.rawValues
  else []

def certificateValues (p : VpnProfile) : List Text :=
  fileValues p.mCaFilename ++ fileValues p.mClientKeyFilename ++ fileValues p.mClientCertFilename

def pkcs12Values (p : VpnProfile) : List Text :=
  fileValues p.mPKCS12Filename ++
    if (p.mCaFilename.getD []).isEmpty then [] else fileValues p.mCaFilename

def keystoreValues (ctx : Context) (p : VpnProfile) : List Text :=
  match ctx.externalCertificates with
  | some (ca, extra, cert) =>
    [onOwnLine ca] ++ (if (extra.getD []).isEmpty then [] else [onOwnLine (extra.getD [])]) ++ [onOwnLine cert]
  | none =>
    [onOwnLine ctx.keychainAccess] ++
      if ctx.sdkInt = jellyBean ∧ ¬aliasMatches (p.mAlias.getD []) then [onOwnLine ctx.jellyKeystoreBug] else []

def authenticationValues (ctx : Context) (p : VpnProfile) : List Text :=
  match p.mAuthenticationType with
  | .userpassCertificates | .certificates => p.certificateValues
  | .userpassPkcs12 | .pkcs12 => p.pkcs12Values
  | .userpassKeystore | .keystore | .externalApp => p.keystoreValues ctx
  | .userpass => fileValues p.mCaFilename
  | .statickeys => []

def crlValues (p : VpnProfile) : List Text :=
  if (p.mCrlFilename.getD []).isEmpty then [] else fileValues p.mCrlFilename

def tlsAuthValues (p : VpnProfile) : List Text :=
  if p.mUseTLSAuth then
    fileValues p.mTLSAuthFilename ++
      if !p.mTLSAuthDirection.isEmpty && p.mTLSAuthDirection != tlsCrypt then [p.mTLSAuthDirection] else []
  else []

def ifconfigValues (p : VpnProfile) : List Text :=
  let mIPv4Address := p.mIPv4Address.getD []
  let mIPv6Address := p.mIPv6Address.getD []
  if p.mUsePull then []
  else
    (if mIPv4Address.isEmpty then [] else [formatString (cidrToIPAndNetmask mIPv4Address)]) ++
      if mIPv6Address.isEmpty then [] else [mIPv6Address ++ ' ' :: mIPv6Address.takeWhile (· != '/')]

def routeValuesv6 (p : VpnProfile) : List Text :=
  if p.mUseDefaultRoutev6 then [] else getCustomRoutesv6 p.mCustomRoutesv6

def domainValues (p : VpnProfile) : List Text :=
  if p.mOverrideDNS || !p.mUsePull then (if p.mSearchDomain.isEmpty then [] else [p.mSearchDomain]) else []

def cipherValues (p : VpnProfile) : List Text :=
  (if p.mCipher.isEmpty then [] else [p.mCipher]) ++ if p.mAuth.isEmpty then [] else [p.mAuth]

def customValues (p : VpnProfile) : List Text :=
  if p.mUseCustomConfig then [onOwnLine p.mCustomConfigOptions] else []

def connectionValues (p : VpnProfile) : List Text :=
  if p.canUsePlainRemotes then []
  else (p.mConnections.filter Connection.mEnabled).flatMap Connection.rawValues

/-- The values in front of the routes. -/
def valuesBefore (ctx : Context) (p : VpnProfile) : List Text :=
  [ctx.cacheDir ++ "/mgmtsocket unix".toList] ++ p.retryValues ++ p.remoteValues ++ p.authenticationValues ctx ++
    p.crlValues ++ p.tlsAuthValues ++ p.ifconfigValues

/-- The values behind the name servers. -/
def valuesAfter (p : VpnProfile) : List Text := p.cipherValues ++ p.customValues ++ p.connectionValues

/-- **The values that `getConfigFile` prints as they are**, in the order of the file. -/
def rawValues (ctx : Context) (p : VpnProfile) : List Text :=
  p.valuesBefore ctx ++ routeTexts p.toRouting ++ p.routeValuesv6 ++ printedServers p ++ p.domainValues ++
    p.valuesAfter

end VpnProfile

/-! ## Lines that begin with the words -/

/-- The words of the routes and of the name servers. -/
def routeWords : Text := "route ".toList

def dnsWords : Text := "dhcp-option DNS ".toList

def watchedWords : List Text := [routeWords, dnsWords]

/-- No line that begins with the head begins with the words. -/
def otherWords (words head : Text) : Bool :=
  !head.contains '\n' && !words.isPrefixOf head && !head.isPrefixOf words

theorem otherWords_tag {words t : Text} (hw : words ∈ watchedWords) (h : '\n' ∉ t) :
    otherWords words ('<' :: t) = true := by
  have hroute : routeWords = 'r' :: "oute ".toList := by decide
  have hdns : dnsWords = 'd' :: "hcp-option DNS ".toList := by decide
  have hfree : ('<' :: t).contains '\n' = false := by simpa using h
  rw [watchedWords, hroute, hdns, List.mem_cons, List.mem_singleton] at hw
  rw [otherWords, hfree]
  rcases hw with rfl | rfl <;> rfl

/-- The text is whole lines, and those that begin with the words come out of the values. -/
def Prints (words t : Text) (values : List Text) : Prop :=
  Selects '\n' (words.isPrefixOf ·) t (strayLines words values)

section Prints

variable {words t u : Text} {a b : List Text}

theorem prints_nil : Prints words [] [] := selects_nil

theorem Prints.append (ht : Prints words t a) (hu : Prints words u b) : Prints words (t ++ u) (a ++ b) := by
  rw [Prints, strayLines_append]
  exact Selects.append ht hu

theorem Prints.append_nil (ht : Prints words t a) (hu : Prints words u []) : Prints words (t ++ u) a := by
  have h := ht.append hu
  rwa [List.append_nil] at h

theorem Prints.ite {c : Prop} [Decidable c] (ht : Prints words t a) (hu : Prints words u b) :
    Prints words (if c then t else u) (if c then a else b) := by
  split_ifs <;> assumption

theorem Prints.ite_same {c : Prop} [Decidable c] (ht : Prints words t a) (hu : Prints words u a) :
    Prints words (if c then t else u) a := by
  split_ifs <;> assumption

theorem prints_flatMap {α : Type*} {f : α → Text} {g : α → List Text} {xs : List α}
    (h : ∀ x ∈ xs, Prints words (f x) (g x)) : Prints words (xs.flatMap f) (xs.flatMap g) := by
  have hstray : strayLines words (xs.flatMap g) = xs.flatMap fun x => strayLines words (g x) :=
    List.flatMap_assoc
  rw [Prints, hstray]
  exact Selects.flatMap h

theorem Prints.free {value : Text} (h : Prints words t [value]) (hfree : '\n' ∉ value) : Prints words t [] := by
  have hnone : strayLines words [value] = [] := strayLines_free (by simpa using hfree)
  rwa [Prints, hnone] at h

/-- Values on lines of their own. -/
theorem prints_ownLine (value : Text) : Prints words (value ++ ['\n']) [onOwnLine value] := by
  have hown : strayLines words [onOwnLine value] = (value.splitOn '\n').filter (words.isPrefixOf ·) := by
    rw [strayLines, List.flatMap_singleton, fileLines, onOwnLine, List.splitOn_cons_eq_if_modifyHead]
    rfl
  rw [Prints, hown]
  exact selects_snoc _

theorem prints_headed {head : Text} (h : otherWords words head = true) (value : Text) :
    Prints words (head ++ (value ++ ['\n'])) [value] := by
  simp only [otherWords, Bool.and_eq_true, Bool.not_eq_true', ← Bool.not_eq_true,
    List.isPrefixOf_iff_prefix] at h
  obtain ⟨⟨hfree, hwords⟩, hhead⟩ := h
  have hout : ∀ rest, words.isPrefixOf (head ++ rest) = false := fun rest => by
    rw [← Bool.not_eq_true, List.isPrefixOf_iff_prefix]
    exact fun hlong => (List.prefix_or_prefix_of_prefix hlong (List.prefix_append head rest)).elim hwords hhead
  have hlines := selects_headed (d := '\n') (by simpa using hfree) hout value
  rwa [Prints, strayLines, List.flatMap_singleton]

theorem prints_values (words head : Text) (h : otherWords words head = true) (values : List Text) :
    Prints words (values.flatMap fun value => head ++ (value ++ ['\n'])) values := by
  have hlines : Prints words _ (values.flatMap fun value => [value]) :=
    prints_flatMap fun value _ => prints_headed h value
  rwa [List.flatMap_singleton'] at hlines

/-- Values that stand behind the words themselves. -/
theorem selects_behind {values : List Text} (hwords : '\n' ∉ words) (h : ∀ value ∈ values, '\n' ∉ value) :
    Selects '\n' (words.isPrefixOf ·) (values.flatMap fun value => words ++ (value ++ ['\n']))
      (values.map (words ++ ·)) := by
  have hlines : (values.flatMap fun value => words ++ (value ++ ['\n'])) =
      (values.map (words ++ ·)).flatMap (· ++ ['\n']) := by
    rw [List.flatMap_map]
    exact List.flatMap_congr fun value _ => (List.append_assoc _ _ _).symm
  rw [hlines]
  refine selects_parts fun line hline => ?_
  obtain ⟨value, hvalue, rfl⟩ := List.mem_map.mp hline
  have hvalue := h value hvalue
  exact ⟨by simp [hwords, hvalue], List.isPrefixOf_iff_prefix.mpr (List.prefix_append _ _)⟩

variable (hw : words ∈ watchedWords)

include hw

theorem prints_fixedLine (line : String) (h : ∀ words ∈ watchedWords, linesWith words line.toList = []) :
    Prints words (fixedLine line) [] := by
  have hlines := selects_snoc (d := '\n') (q := (words.isPrefixOf ·)) line.toList
  rwa [show (line.toList.splitOn '\n').filter _ = [] from h words hw] at hlines

theorem prints_rawLine (name : String)
    (h : ∀ words ∈ watchedWords, otherWords words (name.toList ++ [' ']) = true) (value : Text) :
    Prints words (rawLine name value) [value] := by
  have hlines := prints_headed (h words hw) value
  rwa [List.append_assoc, List.singleton_append] at hlines

theorem prints_inlineFile (name : String) (h : '\n' ∉ name.toList) (content : Text) :
    Prints words (inlineFile name content) [onOwnLine content] := by
  have hopen : otherWords words ('<' :: (name.toList ++ ['>'])) = true := otherWords_tag hw (by simpa using h)
  have hclose : otherWords words ('<' :: '/' :: (name.toList ++ ['>'])) = true :=
    otherWords_tag hw (by simpa using h)
  have hlines := (prints_headed hopen (onOwnLine content)).append_nil
    ((prints_headed hclose []).free (by simp))
  simpa [inlineFile, onOwnLine] using hlines

theorem prints_insertFileData (name : String)
    (h : ∀ words ∈ watchedWords, otherWords words (name.toList ++ [' ']) = true) (filedata : Option Text) :
    Prints words (insertFileData name filedata) (fileValues filedata) := by
  have hname : '\n' ∉ name.toList := by
    have hwords := h words hw
    rw [otherWords, Bool.and_eq_true, Bool.and_eq_true] at hwords
    simpa using hwords.1.1
  cases filedata with
  | none => exact (prints_rawLine hw name h _).free (by decide)
  | some filedata =>
    rw [insertFileData, fileValues]
    split_ifs
    · exact prints_inlineFile hw name hname _
    · exact (prints_rawLine hw name h _).free (newline_not_mem_openVpnEscape _)

end Prints

/-! ## The sections -/

section Sections

variable {words : Text} (hw : words ∈ watchedWords)

include hw

namespace Connection

theorem prints_proxyLines (c : Connection) : Prints words c.proxyLines c.proxyValues := by
  unfold proxyLines proxyValues
  refine .ite ((prints_rawLine hw _ (by decide) _).append ?_)
    (.ite (prints_rawLine hw _ (by decide) _) prints_nil)
  exact .ite (prints_inlineFile hw _ (by decide) _) prints_nil

theorem prints_getConnectionBlock (c : Connection) : Prints words c.getConnectionBlock c.rawValues := by
  have htimeout : Prints words c.timeoutLine [] := by
    refine .ite_same ?_ prints_nil
    rw [List.append_assoc]
    have hother : ∀ words ∈ watchedWords, otherWords words " connect-timeout  ".toList = true := by decide
    exact (prints_headed (hother words hw) _).free (newline_not_mem_decimal _)
  have hcustom : Prints words c.customLines c.customValues := .ite prints_nil (prints_ownLine _)
  exact (((prints_rawLine hw _ (by decide) _).append_nil htimeout).append (c.prints_proxyLines hw)).append
    hcustom

end Connection

namespace VpnProfile

theorem prints_clientLines (ctx : Context) (p : VpnProfile) :
    Prints words (managementLines ctx ++ versionLines ctx ++ p.clientLines)
      [ctx.cacheDir ++ "/mgmtsocket unix".toList] := by
  have fixed := prints_fixedLine hw
  have raw := prints_rawLine hw
  have hmanagement : Prints words (managementLines ctx) [ctx.cacheDir ++ "/mgmtsocket unix".toList] :=
    (((((((fixed _ (by decide)).append_nil (fixed _ (by decide))).append (raw _ (by decide) _)).append_nil
      (fixed _ (by decide))).append_nil (fixed _ (by decide))).append_nil (fixed _ (by decide))).append_nil
      (fixed _ (by decide)))
  have hversion : Prints words (versionLines ctx) [] := by
    refine ((((Prints.free (raw _ (by decide) _) ?_).append_nil (Prints.free (raw _ (by decide) _) ?_)).append_nil
      (fixed _ (by decide))).append_nil (fixed _ (by decide))).append_nil (fixed _ (by decide))
    · simpa using newline_not_mem_openVpnEscape ctx.guiVersion
    · simpa using newline_not_mem_openVpnEscape ctx.platformVersion
  have hclient : Prints words p.clientLines [] :=
    (Prints.ite_same (fixed _ (by decide)) (.ite_same (fixed _ (by decide))
      (.ite_same (fixed _ (by decide)) prints_nil))).append_nil (fixed _ (by decide))
  exact (hmanagement.append_nil hversion).append_nil hclient

theorem prints_retryLines (p : VpnProfile) : Prints words p.retryLines p.retryValues :=
  ((Prints.ite (prints_rawLine hw _ (by decide) _) prints_nil).append
    (prints_rawLine hw _ (by decide) _)).append_nil (prints_fixedLine hw _ (by decide)) |>.append_nil
    (prints_fixedLine hw _ (by decide))

theorem prints_remoteLines (p : VpnProfile) : Prints words p.remoteLines p.remoteValues := by
  have hblocks : ∀ conns : List Connection,
      Prints words (conns.flatMap Connection.getConnectionBlock) (conns.flatMap Connection.rawValues) :=
    fun conns => prints_flatMap fun c _ => c.prints_getConnectionBlock hw
  unfold remoteLines
  split
  next conn hone =>
    have hplain : p.canUsePlainRemotes = true := by
      rw [canUsePlainRemotes, hone]
      rfl
    have hvalues : p.remoteValues = [conn].flatMap Connection.rawValues := by
      rw [remoteValues, if_pos hplain, hone]
      rfl
    have hblock := hblocks [conn]
    rwa [List.flatMap_singleton, ← hvalues] at hblock
  next hseveral =>
    have hlength : p.mConnections.length ≠ 1 := fun h =>
      (List.length_eq_one_iff.mp h).elim hseveral
    rw [remoteValues, if_neg hlength]
    exact Prints.append (a := []) (.ite_same (prints_fixedLine hw _ (by decide)) prints_nil)
      (.ite (hblocks _) prints_nil)

theorem prints_certificateLines (p : VpnProfile) : Prints words p.certificateLines p.certificateValues :=
  ((prints_insertFileData hw _ (by decide) _).append (prints_insertFileData hw _ (by decide) _)).append
    (prints_insertFileData hw _ (by decide) _)

theorem prints_pkcs12Lines (p : VpnProfile) : Prints words p.pkcs12Lines p.pkcs12Values :=
  (prints_insertFileData hw _ (by decide) _).append
    (.ite prints_nil (prints_insertFileData hw _ (by decide) _))

theorem prints_keystoreLines {ctx : Context} {p : VpnProfile} {t : Text} (h : p.keystoreLines ctx = .ok t) :
    Prints words t (p.keystoreValues ctx) := by
  have hhead := prints_fixedLine hw "### From Keystore/ext auth app ####" (by decide)
  have hmessage : Prints words (fixedLine "### From Keystore/ext auth app ####" ++ ctx.keychainAccess ++ ['\n'])
      [onOwnLine ctx.keychainAccess] := by
    rw [List.append_assoc]
    exact hhead.append (prints_ownLine _)
  have inline := prints_inlineFile hw
  unfold keystoreLines at h
  unfold keystoreValues
  rcases hext : ctx.externalCertificates with _ | ⟨ca, extra, cert⟩ <;> rw [hext] at h
  · dsimp only at h ⊢
    split_ifs at h with hsdk
    · cases halias : p.mAlias with
      | none =>
        rw [halias] at h
        cases h
      | some mAlias =>
        rw [halias] at h
        rw [← Except.ok.inj h]
        refine hmessage.append ?_
        by_cases hmatches : aliasMatches mAlias = true
        · rw [if_pos hmatches, if_neg fun hbug => hbug.2 hmatches]
          exact prints_nil
        · rw [if_neg hmatches, if_pos ⟨hsdk, hmatches⟩]
          exact prints_ownLine _
    · rw [← Except.ok.inj h, if_neg fun hbug => hsdk hbug.1]
      exact hmessage
  · rw [← Except.ok.inj h]
    exact (((hhead.append (inline _ (by decide) _)).append (.ite prints_nil (inline _ (by decide) _))).append
      (inline _ (by decide) _)).append_nil (prints_fixedLine hw _ (by decide))

theorem prints_authenticationLines {ctx : Context} {p : VpnProfile} {t : Text}
    (h : p.authenticationLines ctx = .ok t) : Prints words t (p.authenticationValues ctx) := by
  have huserpass := prints_fixedLine hw "auth-user-pass" (by decide)
  unfold authenticationLines at h
  unfold authenticationValues
  cases htype : p.mAuthenticationType <;> rw [htype] at h
  case userpassKeystore =>
    obtain ⟨u, hu, h⟩ := bind_eq_ok.mp h
    rw [← Except.ok.inj h]
    exact huserpass.append (prints_keystoreLines hw hu)
  case keystore | externalApp => exact prints_keystoreLines hw h
  all_goals rw [← Except.ok.inj h]
  case userpassCertificates => exact huserpass.append (p.prints_certificateLines hw)
  case certificates => exact p.prints_certificateLines hw
  case userpassPkcs12 => exact huserpass.append (p.prints_pkcs12Lines hw)
  case pkcs12 => exact p.prints_pkcs12Lines hw
  case userpass => exact huserpass.append (prints_insertFileData hw _ (by decide) _)
  case statickeys => exact prints_nil

theorem prints_tlsAuthLines (p : VpnProfile) : Prints words p.tlsAuthLines p.tlsAuthValues := by
  have hentry : ∀ words ∈ watchedWords, otherWords words (p.tlsAuthEntry.toList ++ [' ']) = true := by
    unfold tlsAuthEntry
    split_ifs <;> decide
  exact .ite ((prints_insertFileData hw _ hentry _).append
    (.ite (prints_rawLine hw _ (by decide) _) prints_nil)) prints_nil

theorem prints_ifconfigLines (p : VpnProfile) : Prints words p.ifconfigLines p.ifconfigValues :=
  .ite prints_nil ((Prints.ite prints_nil (prints_rawLine hw _ (by decide) _)).append
    (.ite prints_nil (prints_rawLine hw _ (by decide) _)))

/-- What stands in front of the routes. -/
theorem prints_before {ctx : Context} {p : VpnProfile} {authentication : Text}
    (h : p.authenticationLines ctx = .ok authentication) :
    Prints words (managementLines ctx ++ versionLines ctx ++ p.clientLines ++ p.retryLines ++ p.remoteLines ++
      authentication ++ p.authRetryLine ++ p.crlLines ++ (if p.mUseLzo then fixedLine "comp-lzo" else []) ++
      p.tlsAuthLines ++ p.ifconfigLines ++ p.nopullLine) (p.valuesBefore ctx) := by
  have optional : ∀ line, (∀ words ∈ watchedWords, linesWith words line.toList = []) →
      ∀ {c : Prop} [Decidable c], Prints words (if c then fixedLine line else []) [] :=
    fun line hline _ _ => .ite_same (prints_fixedLine hw line hline) prints_nil
  have hcrl : Prints words p.crlLines p.crlValues := .ite prints_nil (prints_insertFileData hw _ (by decide) _)
  exact (((((((((prints_clientLines hw ctx p).append (p.prints_retryLines hw)).append
    (p.prints_remoteLines hw)).append (prints_authenticationLines hw h)).append_nil
    (optional _ (by decide))).append hcrl).append_nil (optional _ (by decide))).append
    (p.prints_tlsAuthLines hw)).append (p.prints_ifconfigLines hw)).append_nil (optional _ (by decide))

theorem prints_peerNameLines {p : VpnProfile} {peer : Text} (h : p.peerNameLines = .ok peer) :
    Prints words peer [] := by
  have escaped : ∀ name value (tail : String), '\n' ∉ tail.toList →
      (∀ words ∈ watchedWords, otherWords words (String.toList name ++ [' ']) = true) →
        Prints words (rawLine name (openVpnEscape value ++ tail.toList)) [] := by
    intro name value tail htail hname
    have hvalue := newline_not_mem_openVpnEscape value
    exact (prints_rawLine hw name hname _).free (by simp [hvalue, htail])
  have escaped' : ∀ name value, (∀ words ∈ watchedWords, otherWords words (String.toList name ++ [' ']) = true) →
      Prints words (rawLine name (openVpnEscape value)) [] := fun name value hname =>
    (prints_rawLine hw name hname _).free (newline_not_mem_openVpnEscape value)
  unfold peerNameLines at h
  split_ifs at h
  · cases hconns : p.mConnections with
    | nil =>
      rw [hconns] at h
      cases h
    | cons conn conns =>
      rw [hconns] at h
      rw [← Except.ok.inj h]
      exact escaped _ _ _ (by decide) (by decide)
  · dsimp only at h
    cases htype : p.mX509AuthType <;> rw [htype] at h <;> rw [← Except.ok.inj h]
    case tlsremoteCompatNoremapping =>
      exact (prints_fixedLine hw _ (by decide)).append_nil (escaped' _ _ (by decide))
    case tlsremote | tlsremoteDn => exact escaped' _ _ (by decide)
    case tlsremoteRdn | tlsremoteRdnPrefix => exact escaped _ _ _ (by decide) (by decide)

theorem prints_verifyLines {p : VpnProfile} {verify : Text} (h : p.verifyLines = .ok verify) :
    Prints words verify [] := by
  have htls : Prints words (if p.mExpectTLSCert then fixedLine "remote-cert-tls server" else []) [] :=
    .ite_same (prints_fixedLine hw _ (by decide)) prints_nil
  unfold verifyLines at h
  by_cases hstatic : p.mAuthenticationType = .statickeys
  · rw [if_pos hstatic] at h
    rw [← Except.ok.inj h]
    exact prints_nil
  · rw [if_neg hstatic] at h
    dsimp only at h
    by_cases hcheck : p.mCheckRemoteCN = true
    · rw [if_pos hcheck] at h
      obtain ⟨name, hname, h⟩ := bind_eq_ok.mp h
      rw [← Except.ok.inj h]
      exact ((prints_peerNameLines hw hname).append_nil (.ite_same prints_nil
        ((prints_rawLine hw _ (by decide) _).free (newline_not_mem_openVpnEscape _)))).append_nil htls
    · rw [if_neg hcheck] at h
      rw [← Except.ok.inj h]
      exact htls

theorem prints_connectionFiles (p : VpnProfile) : Prints words p.connectionFiles p.connectionValues := by
  have fixed := prints_fixedLine hw
  refine .ite prints_nil (Prints.append (a := []) (fixed _ (by decide +kernel)) (prints_flatMap fun c _ => ?_))
  exact (Prints.append (a := []) (fixed _ (by decide)) (c.prints_getConnectionBlock hw)).append_nil
    (fixed _ (by decide))

/-- What stands behind the name servers. -/
theorem prints_after (ctx : Context) {p : VpnProfile} {verify : Text} (h : p.verifyLines = .ok verify) :
    Prints words (p.mtuLines ++ p.nobindLine ++ verify ++ p.cipherLines ++ p.obscureLines ++
      p.queryProxyLines ctx ++ p.customLines ++ p.connectionFiles) p.valuesAfter := by
  have fixed := prints_fixedLine hw
  have raw := prints_rawLine hw
  have number : ∀ name n, (∀ words ∈ watchedWords, otherWords words (String.toList name ++ [' ']) = true) →
      Prints words (rawLine name (decimal n)) [] := fun name n hname =>
    (raw name hname _).free (newline_not_mem_decimal n)
  have hmtu : Prints words p.mtuLines [] :=
    (Prints.ite_same prints_nil (.ite_same (number _ _ (by decide)) (fixed _ (by decide)))).append_nil
      (.ite_same (number _ _ (by decide)) prints_nil)
  have hnobind : Prints words p.nobindLine [] := .ite_same (fixed _ (by decide)) prints_nil
  have hcipher : Prints words p.cipherLines p.cipherValues :=
    (Prints.ite prints_nil (raw _ (by decide) _)).append (.ite prints_nil (raw _ (by decide) _))
  have hobscure : Prints words p.obscureLines [] :=
    (((Prints.ite_same ((fixed _ (by decide)).append_nil (fixed _ (by decide))) prints_nil).append_nil
      (.ite_same (fixed _ (by decide)) prints_nil)).append_nil (.ite_same (((fixed _ (by decide)).append_nil
      (fixed _ (by decide))).append_nil (fixed _ (by decide))) prints_nil)).append_nil
      (.ite_same (fixed _ (by decide)) prints_nil)
  have hquery : Prints words (p.queryProxyLines ctx) [] :=
    .ite_same ((fixed _ (by decide)).append_nil (fixed _ (by decide))) prints_nil
  have hcustom : Prints words p.customLines p.customValues := by
    refine .ite ?_ prints_nil
    rw [List.append_assoc]
    exact Prints.append (a := []) ((fixed _ (by decide)).append_nil (fixed _ (by decide))) (prints_ownLine _)
  exact ((((((Prints.append (a := []) ((hmtu.append_nil hnobind).append_nil (prints_verifyLines hw h))
    hcipher).append_nil hobscure).append_nil hquery).append hcustom)).append (p.prints_connectionFiles hw))

/-- The routes and the name servers stand between lines that begin with other words. -/
theorem getConfigFile_sections {ctx : Context} {p : VpnProfile} {file : Text}
    (h : p.getConfigFile ctx = .ok file) : ∃ before after, Prints words before (p.valuesBefore ctx) ∧
      Prints words after p.valuesAfter ∧ file = before ++ (p.routesLines ++ (p.dnsLines ++ after)) := by
  obtain ⟨authentication, hauthentication, h⟩ := bind_eq_ok.mp h
  obtain ⟨verify, hverify, h⟩ := bind_eq_ok.mp h
  refine ⟨_, _, prints_before hw hauthentication, prints_after hw ctx hverify, ?_⟩
  rw [← Except.ok.inj h]
  simp only [List.append_assoc]

end VpnProfile

end Sections

/-! ## The routes and the name servers -/

namespace VpnProfile

theorem routesLines_eq (p : VpnProfile) :
    p.routesLines = (if p.mUseDefaultRoutev6 then fixedLine "route-ipv6 ::/0" else []) ++
      ((routeTexts p.toRouting).flatMap (fun t => routeWords ++ (t ++ ['\n'])) ++
        p.routeValuesv6.flatMap fun t => "route-ipv6 ".toList ++ (t ++ ['\n'])) := by
  have hroutes : routeLines p.toRouting =
      (routeTexts p.toRouting).flatMap fun t => routeWords ++ (t ++ ['\n']) := by
    unfold routeLines routeTexts
    split_ifs
    · rfl
    · rw [List.flatMap_append, List.flatMap_map, List.flatMap_map]
      rfl
  rw [routesLines, routeValuesv6, ← hroutes]
  split_ifs
  · rw [List.flatMap_nil, List.append_nil]
  · rfl

theorem dnsLines_eq (p : VpnProfile) :
    p.dnsLines = (printedServers p).flatMap (fun t => dnsWords ++ (t ++ ['\n'])) ++
      p.domainValues.flatMap fun t => "dhcp-option DOMAIN ".toList ++ (t ++ ['\n']) := by
  unfold dnsLines printedServers domainValues
  by_cases hon : (p.mOverrideDNS || !p.mUsePull) = true
  · have hdns : ∀ t : Text, rawLine "dhcp-option" ("DNS ".toList ++ t) = dnsWords ++ (t ++ ['\n']) := fun _ => rfl
    have hdomain : ∀ t : Text, rawLine "dhcp-option" ("DOMAIN ".toList ++ t) =
        "dhcp-option DOMAIN ".toList ++ (t ++ ['\n']) := fun _ => rfl
    simp only [if_pos hon, hdns, hdomain]
    cases h1 : p.mDNS1.isEmpty <;> cases h2 : p.mDNS2.isEmpty <;> cases h3 : p.mSearchDomain.isEmpty <;>
      simp [h1, h2]
  · simp only [if_neg hon, List.flatMap_nil, List.append_nil]

/-- The file has no lines with the words but its own ones and those in the values. -/
theorem linesWith_file {words : Text} (hw : words ∈ watchedWords) {ctx : Context} {p : VpnProfile}
    {file : Text} (h : p.getConfigFile ctx = .ok file) {lines : List Text}
    (hlines : Selects '\n' (words.isPrefixOf ·) (p.routesLines ++ p.dnsLines) lines) :
    linesWith words file =
      strayLines words (p.valuesBefore ctx) ++ lines ++ strayLines words p.valuesAfter := by
  obtain ⟨before, after, hbefore, hafter, rfl⟩ := getConfigFile_sections hw h
  have hall := (Selects.append hbefore hlines).append hafter []
  have hend : (([] : Text).splitOn '\n').filter (words.isPrefixOf ·) = [] := by
    rw [watchedWords, List.mem_cons, List.mem_singleton] at hw
    rcases hw with rfl | rfl <;> decide
  rwa [hend, List.append_nil, List.append_nil, List.append_assoc, List.append_assoc p.routesLines] at hall

/-- **The lines of the file that begin with `route`.** -/
theorem linesWith_route {ctx : Context} {p : VpnProfile} {file : Text} (h : p.getConfigFile ctx = .ok file)
    (hroutes : ∀ t ∈ routeTexts p.toRouting, '\n' ∉ t) : ∃ before after,
      strayLines routeWords (p.rawValues ctx) = before ++ after ∧
        linesWith routeWords file = before ++ (routeTexts p.toRouting).map (routeWords ++ ·) ++ after := by
  have hw : routeWords ∈ watchedWords := by decide
  have hsection := (Selects.append (Prints.ite_same (c := p.mUseDefaultRoutev6 = true)
    (prints_fixedLine hw "route-ipv6 ::/0" (by decide)) prints_nil)
    ((selects_behind (by decide) hroutes).append
      (prints_values routeWords "route-ipv6 ".toList (by decide) p.routeValuesv6))).append
    (Selects.append (prints_values routeWords dnsWords (by decide) (printedServers p))
      (prints_values routeWords "dhcp-option DOMAIN ".toList (by decide) p.domainValues))
  rw [← routesLines_eq, ← dnsLines_eq] at hsection
  refine ⟨strayLines routeWords (p.valuesBefore ctx), strayLines routeWords (p.routeValuesv6 ++ printedServers p ++
    p.domainValues ++ p.valuesAfter), ?_, ?_⟩
  · simp only [rawValues, strayLines_append, strayLines_free hroutes, List.nil_append, List.append_assoc]
  · rw [linesWith_file hw h hsection]
    simp only [strayLines_append, List.append_assoc]
    rfl

/-- **The lines of the file that begin with `dhcp-option DNS`.** -/
theorem linesWith_dns {ctx : Context} {p : VpnProfile} {file : Text} (h : p.getConfigFile ctx = .ok file)
    (hservers : ∀ t ∈ printedServers p, '\n' ∉ t) : ∃ before after,
      strayLines dnsWords (p.rawValues ctx) = before ++ after ∧
        linesWith dnsWords file = before ++ (printedServers p).map (dnsWords ++ ·) ++ after := by
  have hw : dnsWords ∈ watchedWords := by decide
  have hsection := (Selects.append (Prints.ite_same (c := p.mUseDefaultRoutev6 = true)
    (prints_fixedLine hw "route-ipv6 ::/0" (by decide)) prints_nil)
    (Selects.append (prints_values dnsWords routeWords (by decide) (routeTexts p.toRouting))
      (prints_values dnsWords "route-ipv6 ".toList (by decide) p.routeValuesv6))).append
    ((selects_behind (by decide) hservers).append
      (prints_values dnsWords "dhcp-option DOMAIN ".toList (by decide) p.domainValues))
  rw [← routesLines_eq, ← dnsLines_eq] at hsection
  refine ⟨strayLines dnsWords (p.valuesBefore ctx ++ routeTexts p.toRouting ++ p.routeValuesv6),
    strayLines dnsWords (p.domainValues ++ p.valuesAfter), ?_, ?_⟩
  · simp only [rawValues, strayLines_append, strayLines_free hservers, List.nil_append, List.append_assoc]
  · rw [linesWith_file hw h hsection]
    simp only [strayLines_append, List.append_assoc]
    rfl

end VpnProfile

end VpnCore.Config
