import Mathlib.Data.List.AList
import VpnCore.Config.Profile
import VpnCore.Data.Store

/-!
# VpnCore.Profiles.Model — `VpnProfile` objects and the `ProfileManager`

The manager maps UUID texts to profile objects.  Objects are shared: the map holds references, and a
change of an object is seen through the map.  `saveProfile` writes an object to a file that is named
by its UUID, `saveProfileList` writes the keys of the map to the `DataStore`, and `loadVPNList` builds
the map anew from both.  A profile keeps its UUID twice, as `mUuid` and as the text `uuidStr`, from
which `setmUuid` restores it.

Java serialization is faithful: a file holds the profile as it was when it was written.  Transient
fields are left out, and so are the fields that nothing here reads.
-/

namespace VpnCore.Profiles

open Config (Text Thrown isDigit)
open Data (Platform DefaultDataStore)

/-! ## UUIDs -/

def uuidShape : Text := "********-****-****-****-************".toList

def isHexDigit (c : Char) : Bool := isDigit c || 'a' ≤ c && c ≤ 'f'

/-- The texts that `UUID.toString` returns. -/
def isUuidText (t : Text) : Bool :=
  t.length == uuidShape.length &&
    (uuidShape.zip t).all fun (s, c) => if s = '-' then c == '-' else isHexDigit c

/-- A UUID is given by its text. -/
structure UUID where
  toString : Text
  isUuid : isUuidText toString = true
  deriving DecidableEq

/-- `toLowerCase(Locale.ENGLISH)`, as far as the digits of a UUID go. -/
def toLowerCase (t : Text) : Text := t.map Char.toLower

/-- `UUID.fromString`, which reads letters of either case. -/
def UUID.fromString (t : Text) : Except Thrown UUID :=
  if h : isUuidText (toLowerCase t) = true then .ok ⟨toLowerCase t, h⟩
  else .error Config.illegalArgumentException

/-! ## Profiles -/

/-- A profile object; `settings` are the fields that the import sets and `getConfigFile` prints. -/
structure Profile where
  mUuid : UUID
  uuidStr : Text
  mVersion : Int32 := 0
  mProfileVersion : ℤ
  mProfileCreator : Option Text := none
  importedProfileHash : Option Text := none
  mUserEditable : Bool := true
  mServerPort : Text := "1194".toList
  mUseUdp : Bool := true
  mAllowedAppsVpnAreDisallowed : Bool := true
  mAllowAppVpnBypass : Bool := false
  mBlockUnusedAddressFamilies : Bool := true
  settings : Config.VpnProfile
  deriving DecidableEq

/-- `CURRENT_PROFILE_VERSION` -/
def currentProfileVersion : ℤ := 8

namespace Profile

/-- `new VpnProfile(name)`, with the UUID that `randomUUID` returns. -/
def new (name : Text) (random : UUID) : Profile where
  mUuid := random
  uuidStr := random.toString
  mProfileVersion := currentProfileVersion
  settings := .named name

/-- `copy(name)`: `clone` gives the copy a UUID of its own, and keeps the text of the old one. -/
def copy (p : Profile) (name : Text) (random : UUID) : Profile :=
  { p with mUuid := random, settings := { p.settings with mName := name } }

def setUUID (p : Profile) (uuid : UUID) : Profile := { p with mUuid := uuid }

def setmUuid (p : Profile) : Except Thrown Profile :=
  if p.uuidStr.isEmpty then .ok p
  else (UUID.fromString p.uuidStr).map fun uuid => { p with mUuid := uuid }

/-- `getUUIDString` -/
def getUUIDString (p : Profile) : Text := toLowerCase p.mUuid.toString

end Profile

/-- `configProType` -/
def configProType (c : Config.Connection) : Config.Connection :=
  match c.mProxyType with
  | .none => { c with mProType := 0 }
  | .http => { c with mProType := 1 }
  | .socks5 => { c with mProType := 2 }
  | .orbot => { c with mProType := 3 }

/-- `resetProxyType` -/
def resetProxyType (c : Config.Connection) : Config.Connection :=
  if c.mProType = 0 then { c with mProxyType := .none }
  else if c.mProType = 1 then { c with mProxyType := .http }
  else if c.mProType = 2 then { c with mProxyType := .socks5 }
  else if c.mProType = 3 then { c with mProxyType := .orbot }
  else c

namespace Profile

def mapConnections (f : Config.Connection → Config.Connection) (p : Profile) : Profile :=
  { p with settings := { p.settings with mConnections := p.settings.mConnections.map f } }

def setConnections (p : Profile) : Profile := p.mapConnections configProType

def resetConnections (p : Profile) : Profile := p.mapConnections resetProxyType

def moveOptionsToConnection (p : Profile) : Profile :=
  { p with
    settings := { p.settings with
      mConnections := [{ mServerName := p.settings.mServerName
                         mServerPort := p.mServerPort
                         mUseUdp := p.mUseUdp
                         mCustomConfiguration := [] }] } }

/-- The cases of the source fall through: a profile of version `n` passes all cases from `n` on.
`SDK_INT` is at least `KITKAT`, and a proxy type is never `null`. -/
def upgradeProfile (p : Profile) : Profile :=
  let passes (n : ℤ) : Bool := 0 ≤ p.mProfileVersion && p.mProfileVersion ≤ n
  let p := if passes 1 then { p with settings := { p.settings with mAllowLocalLAN := false } } else p
  let p := if passes 3 then { p.moveOptionsToConnection with mAllowedAppsVpnAreDisallowed := true }
    else p
  let p := if passes 5 && (p.mProfileCreator.getD []).isEmpty then { p with mUserEditable := true }
    else p
  let p := if passes 7 && p.mAllowAppVpnBypass then { p with mBlockUnusedAddressFamilies := false }
    else p
  { p with mProfileVersion := currentProfileVersion }

/-- What `loadVPNList` makes of the profile that it reads from a file. -/
def loaded (p : Profile) : Except Thrown Profile :=
  p.setmUuid.map fun p => p.resetConnections.upgradeProfile

/-- What `saveProfile` makes of the profile before it writes it. -/
def saved (p : Profile) : Profile := { p with mVersion := p.mVersion + 1 }.setConnections

end Profile

/-! ## The manager -/

/-- The objects, the fields `profiles` and `tmpprofile` of the manager, and what is stored: the files
and the preferences. -/
structure Manager where
  heap : List Profile
  profiles : AList fun _ : Text => ℕ
  tmpprofile : Option ℕ
  files : Text → Option Profile
  store : DefaultDataStore

/-- Nothing is stored. -/
def Manager.empty : Manager where
  heap := []
  profiles := ∅
  tmpprofile := none
  files := fun _ => none
  store := DefaultDataStore.empty

def vpnlistKey : Text := "vpnlist".toList

def counterKey : Text := "counter".toList

/-- `TEMPORARY_PROFILE_FILENAME` -/
def temporaryProfileFilename : Text := "temporary-vpn-profile".toList

def fileName (vpnentry : Text) : Text := vpnentry ++ ".vp".toList

namespace Manager

variable {F : Type} (P : Platform F)

/-- A new object. -/
def allocate (s : Manager) (p : Profile) : Manager := { s with heap := s.heap ++ [p] }

def keySet (s : Manager) : Finset Text := s.profiles.keys.toFinset

/-- The stored list; `null` is replaced by an empty set. -/
def vpnlist (s : Manager) : Finset Text := Data.DataStore.getStringSet s.store vpnlistKey ∅

/-- `ProfileManager.saveProfileList`. -/
def saveProfileList (s : Manager) : Manager :=
  let m := (Data.DataStore.putStringSet P s.store vpnlistKey s.keySet).1
  let counter := Data.DataStore.getInt m counterKey 0
  { s with store := (Data.DataStore.putInt m counterKey (counter + 1)).1 }

/-- The object `o` has the UUID of `p`. -/
def addProfile (s : Manager) (o : ℕ) (p : Profile) : Manager :=
  { s with profiles := s.profiles.insert p.mUuid.toString o }

/-- The object `o`, which is `p`, is changed and written. -/
def saveProfile (s : Manager) (o : ℕ) (p : Profile) : Manager :=
  { s with
    heap := s.heap.set o p.saved
    files := Function.update s.files (fileName p.mUuid.toString) (some p.saved) }

def removeProfile (s : Manager) (p : Profile) : Manager :=
  let vpnentry := p.mUuid.toString
  let s := { s with profiles := s.profiles.erase vpnentry }
  let s := s.saveProfileList P
  { s with files := Function.update s.files (fileName vpnentry) none }

/-- The profile in the file of an entry, if there is one and its UUID can be read. -/
def loadedEntry (files : Text → Option Profile) (vpnentry : Text) : Option Profile :=
  (files (fileName vpnentry)).bind fun vp => vp.loaded.toOption

def loadEntry (s : Manager) (vpnentry : Text) : Manager :=
  match loadedEntry s.files vpnentry with
  | none => s
  | some vp =>
    let o := s.heap.length
    let s := s.allocate vp
    if vpnentry = temporaryProfileFilename then { s with tmpprofile := some o }
    else s.addProfile o vp

/-- `ProfileManager.loadVPNList`. -/
def loadVPNList (s : Manager) : Manager :=
  (P.toArray (insert temporaryProfileFilename s.vpnlist)).foldl loadEntry { s with profiles := ∅ }

/-- The profile under a key of the map. -/
def view (s : Manager) (k : Text) : Option Profile := (s.profiles.lookup k).bind (s.heap[·]?)

end Manager

end VpnCore.Profiles
