import VpnCore.Config.Convert
import VpnCore.Profiles.Load

/-!
# VpnCore.Profiles.Restrictions — `AppRestrictions.applyRestrictions`

An administrator provisions profiles through a bundle of restrictions.  Every entry is looked up by
the text of its UUID (`ProfileManager.get`, which loads the list again on a miss), imported if it is
missing or has another configuration, and in the end the managed profiles that the bundle does not
have are removed.
-/

namespace VpnCore.Profiles

open Config (Text Thrown)
open Data (Platform)

/-- What the platform provides: the order in which maps and sets are iterated, and the SHA-1 hash of
a configuration. -/
structure Tools (F : Type) where
  platform : Platform F
  order : Config.MapOrder
  hashConfig : Text → Text

variable {F : Type} (T : Tools F)

/-! ## `ProfileManager.get` -/

namespace Manager

/-- The temporary profile. -/
def tmpView (s : Manager) : Option Profile := s.tmpprofile.bind (s.heap[·]?)

/-- `get(key)`: the temporary profile comes first. -/
def find (s : Manager) (key : Text) : Option Profile :=
  match s.tmpView with
  | some tmp => if tmp.getUUIDString = key then some tmp else s.view key
  | none => s.view key

/-- `get(context, profileUUID, version, tries)`: a profile that is missing or too old is looked for
again after loading the list. -/
def get (P : Platform F) (version : Int32) (key : Text) : ℕ → Manager → Manager × Option Profile
  | 0, s => (s, s.find key)
  | tries + 1, s =>
    match s.find key with
    | some profile =>
      if profile.mVersion < version then get P version key tries (s.loadVPNList P)
      else (s, some profile)
    | none => get P version key tries (s.loadVPNList P)

end Manager

/-! ## The bundle -/

/-- An element of `vpn_configuration_list`. -/
inductive Parcel
  /-- not a bundle -/
  | other
  | bundle (uuid ovpn name : Option Text)

/-- What the administrator has set. -/
structure Restrictions where
  version : Option Text
  profileList : Option (List Parcel)

/-- `CONFIG_VERSION` -/
def configVersion : ℤ := 1

/-- `PROFILE_CREATOR` -/
def profileCreator : Text := "com.blinkt.openvpn.api.AppRestrictions".toList

def Profile.managed (p : Profile) : Bool := p.mProfileCreator == some profileCreator

/-! ## `applyRestrictions` -/

/-- The profile that `addProfile` makes of a configuration.  `draw` is the UUID that the constructor
draws during the import; `old` is the profile that is replaced. -/
def managedProfile (config : Text) (uuid draw : UUID) (name : Text) (settings : Config.VpnProfile)
    (old : Option Profile) : Profile :=
  let vp : Profile :=
    { Profile.new name draw with
      settings := { settings with mName := name }
      mProfileCreator := some profileCreator
      mUserEditable := false
      importedProfileHash := some (T.hashConfig config) }
  let vp := vp.setUUID uuid
  match old with
  | some old =>
    { vp with
      mVersion := old.mVersion + 1
      settings := { vp.settings with mAlias := old.settings.mAlias } }
  | none => vp

/-- What the `catch` of `addProfile` catches. -/
def caught : Thrown → Bool
  | .configParseError _ => true
  | e => e.isIllegalArgument

def addManaged (s : Manager) (config uuid name : Text) (draw : UUID) (old : Option Profile) :
    Except Thrown Manager :=
  let imported := do
    let settings ← Config.importProfile T.order config
    let uuid ← UUID.fromString uuid
    return managedProfile T config uuid draw name settings old
  match imported with
  | .ok vp =>
    let o := s.heap.length
    .ok ((((s.allocate vp).addProfile o vp).saveProfile o vp).saveProfileList T.platform)
  | .error e => if caught e then .ok s else .error e

/-- One element of the list, with the UUIDs provisioned so far. -/
def provision (draw : Text → UUID) (sp : Manager × Finset Text) (parcel : Parcel) :
    Except Thrown (Manager × Finset Text) :=
  match parcel with
  | .bundle (some uuid) (some ovpn) (some name) => do
    let ovpnHash := T.hashConfig ovpn
    let provisionedUuids := insert (toLowerCase uuid) sp.2
    let (s, vpnProfile) := sp.1.get T.platform 0 uuid 10
    match vpnProfile with
    | some profile =>
      if profile.importedProfileHash = some ovpnHash then return (s, provisionedUuids)
      else return (← addManaged T s ovpn uuid name (draw uuid) (some profile), provisionedUuids)
    | none => return (← addManaged T s ovpn uuid name (draw uuid) none, provisionedUuids)
  | _ => .ok sp

/-- The managed profiles that are not provisioned any more. -/
def profilesToRemove (s : Manager) (provisionedUuids : Finset Text) : List Profile :=
  (s.profiles.keys.filterMap s.view).filter fun vp =>
    vp.managed && !decide (vp.getUUIDString ∈ provisionedUuids)

def sweep (s : Manager) (provisionedUuids : Finset Text) : Manager :=
  (profilesToRemove s provisionedUuids).foldl (·.removeProfile T.platform) s

/-- The manager exists already; `none` stands for a missing service or bundle. -/
def applyRestrictions (draw : Text → UUID) (restrictions : Option Restrictions) (s : Manager) :
    Except Thrown Manager :=
  match restrictions with
  | none => .ok s
  | some r =>
    if Config.parseInt (r.version.getD "(not set)".toList) = .ok configVersion then
      match r.profileList with
      | none => .ok s
      | some profileList => do
        let (s, provisionedUuids) ← profileList.foldlM (provision T draw) (s, ∅)
        return sweep T s provisionedUuids
    else .ok s

end VpnCore.Profiles
