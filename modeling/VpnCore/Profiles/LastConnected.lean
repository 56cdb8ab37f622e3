import VpnCore.Lib.Runs
import VpnCore.Profiles.Restrictions

/-!
# VpnCore.Profiles.LastConnected — the profile that is connected when the service restarts

`setConnectedVpnProfile` writes the UUID of a profile to the `DataStore`, and
`setConntectedVpnProfileDisconnected` writes `null` over it.  `DataStore.putString` cannot write
`null`: it catches the exception of `data.getBytes` and leaves the old value where it is, so that a
profile is remembered after its session was ended.  `remembered_iff` says that this is the only way
to remember the wrong profile.
-/

namespace VpnCore.Profiles

open Config (Text)
open Data (Platform DefaultDataStore)
open Lib

/-! ## The code -/

/-- `LAST_CONNECTED_PROFILE` -/
def lastConnectedKey : Text := "lastConnectedProfile".toList

def alwaysOnKey : Text := "alwaysOnVpn".toList

/-- `DataStore.putString` of a string that may be `null`: what `data.getBytes` throws is caught. -/
def putStringOrNull (m : DefaultDataStore) (key : Text) (data : Option Text) :
    DefaultDataStore × Bool :=
  match data with
  | some data => Data.DataStore.putString m key data
  | none => (m, false)

namespace Manager

variable {F : Type} (P : Platform F)

def setConntectedVpnProfileDisconnected (s : Manager) : Manager :=
  { s with store := (putStringOrNull s.store lastConnectedKey none).1 }

/-- `mLastConnectedVpn` is left out. -/
def setConnectedVpnProfile (s : Manager) (connectedProfile : Profile) : Manager :=
  { s with
    store := (putStringOrNull s.store lastConnectedKey (some connectedProfile.getUUIDString)).1 }

def getLastConnectedProfile (s : Manager) : Manager × Option Profile :=
  match Data.DataStore.getString s.store lastConnectedKey none with
  | some lastConnectedProfile => get P 0 lastConnectedProfile 10 s
  | none => (s, none)

/-- `getAlwaysOnVPN` -/
def getAlwaysOnVPN (s : Manager) : Option Profile :=
  (Data.DataStore.getString s.store alwaysOnKey none).bind s.find

/-- The profile that `onStartCommand` starts if the intent has none; without one the service
stops. -/
def profileToRestart (s : Manager) : Option Profile :=
  let (s, mProfile) := s.getLastConnectedProfile P
  match mProfile with
  | some profile => some profile
  | none => s.getAlwaysOnVPN

end Manager

/-! ## Sessions -/

/-- A stored profile: the manager finds it by its UUID, and its version has not wrapped around. -/
def Manager.Stored (s : Manager) (p : Profile) : Prop :=
  s.find p.getUUIDString = some p ∧ 0 ≤ p.mVersion

/-- The calls that begin and end the session of a stored profile. -/
inductive SessionCall (s : Manager)
  | connected (p : Profile) (h : s.Stored p)
  | disconnected

variable {s : Manager}

def SessionCall.perform (t : Manager) : SessionCall s → Manager
  | .connected p _ => t.setConnectedVpnProfile p
  | .disconnected => t.setConntectedVpnProfileDisconnected

/-- The profile of the session. -/
def SessionCall.session (_ : Option Profile) : SessionCall s → Option Profile
  | .connected p _ => some p
  | .disconnected => none

/-- A session is ended only if no profile is remembered. -/
def NothingToForget (t : Manager) : SessionCall s → Prop
  | .connected _ _ => True
  | .disconnected => t.store lastConnectedKey = none

/-! ## What is remembered -/

section

variable {F : Type} (P : Platform F)

/-- The profiles are the same, and the UUID of one of them or nothing is remembered. -/
structure Remembers (s t : Manager) (o : Option Profile) : Prop where
  same : t = { s with store := t.store }
  stored : ∀ p ∈ o, s.Stored p ∧ t.store lastConnectedKey = some p.getUUIDString
  nothing : o = none → t.store lastConnectedKey = none

theorem Remembers.getLastConnectedProfile {t : Manager} {o : Option Profile} (h : Remembers s t o) :
    t.getLastConnectedProfile P = (t, o) := by
  unfold Manager.getLastConnectedProfile Data.DataStore.getString
  cases o with
  | none =>
    have hnone : t.store.contains lastConnectedKey = false := by
      simp [DefaultDataStore.contains, h.nothing rfl]
    simp [hnone]
  | some p =>
    obtain ⟨⟨hfind, hversion⟩, hkey⟩ := h.stored p rfl
    have hcontains : t.store.contains lastConnectedKey = true := by
      simp [DefaultDataStore.contains, hkey]
    have hget : t.store.getString lastConnectedKey none = some p.getUUIDString := by
      simp [DefaultDataStore.getString, hkey]
    have hfind' : t.find p.getUUIDString = some p := by
      rw [h.same]
      exact hfind
    simp only [hcontains, if_true, hget, ne_eq, reduceCtorEq, not_false_eq_true,
      Data.DefaultDataEncryptor.decode, Manager.get, hfind', Int32.not_lt.mpr hversion, if_false]

theorem Remembers.connected {t : Manager} {o : Option Profile} (h : Remembers s t o) {p : Profile}
    (hp : s.Stored p) : Remembers s (SessionCall.perform t (.connected p hp)) (some p) := by
  refine ⟨?_, ?_, fun hnone => by cases hnone⟩
  · rw [h.same]
    rfl
  · rintro q ⟨⟩
    exact ⟨hp, by
      simp [SessionCall.perform, Manager.setConnectedVpnProfile, putStringOrNull,
        Data.DataStore.putString, DefaultDataStore.putString, Data.DefaultDataEncryptor.encode]⟩

/-- Writing `null` changes nothing. -/
theorem perform_disconnected (t : Manager) :
    SessionCall.perform t (.disconnected : SessionCall s) = t := rfl

/-- **The remembered profile is that of the session exactly if no session is ended while a profile is
remembered.** -/
theorem remembered_iff (s : Manager) (hs : s.store lastConnectedKey = none)
    (calls : List (SessionCall s)) :
    Throughout SessionCall.perform
        (fun past t => (t.getLastConnectedProfile P).2 = run SessionCall.session none past) s calls ↔
      Along SessionCall.perform NothingToForget s calls := by
  have hstart : Remembers s s none := ⟨rfl, fun p hp => (by cases hp), fun _ => hs⟩
  have hnone : (s.getLastConnectedProfile P).2 = none := by rw [hstart.getLastConnectedProfile P]
  have hview := throughout_view_iff SessionCall.perform SessionCall.session
    (fun t => (t.getLastConnectedProfile P).2) calls s
  rw [hnone] at hview
  rw [hview]
  refine along_congr (I := fun t => ∃ o, Remembers s t o) ?_ ?_ calls s ⟨none, hstart⟩
  · rintro t call ⟨o, h⟩
    cases call with
    | connected p hp =>
      rw [(h.connected hp).getLastConnectedProfile P]
      exact iff_of_true rfl trivial
    | disconnected =>
      rw [perform_disconnected, h.getLastConnectedProfile P]
      change o = none ↔ t.store lastConnectedKey = none
      refine ⟨h.nothing, fun hkey => ?_⟩
      cases o with
      | none => rfl
      | some p =>
        obtain ⟨-, hp⟩ := h.stored p rfl
        rw [hkey] at hp
        cases hp
  · rintro t call ⟨o, h⟩ -
    cases call with
    | connected p hp => exact ⟨some p, h.connected hp⟩
    | disconnected => exact ⟨o, h⟩

end

/-! ## A session that was ended -/

def homeUuid : UUID := ⟨"00000000-0000-4000-8000-0000000000b7".toList, by decide⟩

def home : Profile := Profile.new "home".toList homeUuid

/-- A manager with one profile. -/
def oneProfile : Manager :=
  { Manager.empty with
    heap := [home]
    profiles := AList.singleton homeUuid.toString 0 }

theorem oneProfile_stored : oneProfile.Stored home := ⟨by decide +kernel, by decide⟩

/-- A session that was not ended, after a call that ends none. -/
theorem remembered_home :
    Throughout SessionCall.perform
      (fun past t => (t.getLastConnectedProfile Data.onePlatform).2 = run SessionCall.session none past)
      oneProfile [.disconnected, .connected home oneProfile_stored] :=
  (remembered_iff Data.onePlatform oneProfile rfl [.disconnected, .connected home oneProfile_stored]).2
    ⟨rfl, trivial, trivial⟩

/-- The session of the profile was ended, and a restart connects it again. -/
theorem ended_session_remembered :
    let calls : List (SessionCall oneProfile) := [.connected home oneProfile_stored, .disconnected]
    run SessionCall.session none calls = none ∧
      ((run SessionCall.perform oneProfile calls).getLastConnectedProfile Data.onePlatform).2 =
        some home ∧
      (run SessionCall.perform oneProfile calls).profileToRestart Data.onePlatform = some home := by
  decide +kernel

end VpnCore.Profiles
