import VpnCore.Data.Store
import VpnCore.Lib.Runs

/-!
# VpnCore.Api.ExternalApps — revoking the authorisation of another app

`ExternalAppDatabase` keeps the packages that may control the VPN as one set of strings in the
`DataStore`.  Every change reads the set, changes it and writes it back; an empty set is not written
(`DataStore.putStringSet`), so that the last package cannot be taken away.
-/

namespace VpnCore.Api

open Config (Text Thrown)
open Data (Platform DefaultDataStore)
open Lib (Along Throughout Since since_nil since_append run run_nil run_cons run_append along_congr throughout_view_iff)

variable {F : Type} (P : Platform F)

/-! ## `ExternalAppDatabase` -/

/-- `PREFERENCES_KEY` -/
def preferencesKey : Text := "allowed_apps".toList

def counterKey : Text := "counter".toList

/-- `ConfirmDialog.ANONYMOUS_PACKAGE` -/
def anonymousPackage : Text := "com.blinkt.openvpn.ANYPACKAGE".toList

def getExtAppList (m : DefaultDataStore) : Finset Text := Data.DataStore.getStringSet m preferencesKey ∅

def isAllowed (m : DefaultDataStore) (packagename : Text) : Bool := packagename ∈ getExtAppList m

def saveExtAppList (m : DefaultDataStore) (allowedapps : Finset Text) : DefaultDataStore :=
  let m := (Data.DataStore.putStringSet P m preferencesKey allowedapps).1
  let counter := Data.DataStore.getInt m counterKey 0
  (Data.DataStore.putInt m counterKey (counter + 1)).1

def addApp (m : DefaultDataStore) (packagename : Text) : DefaultDataStore :=
  saveExtAppList P m (insert packagename (getExtAppList m))

def clearAllApiApps (m : DefaultDataStore) : DefaultDataStore := saveExtAppList P m ∅

def removeApp (m : DefaultDataStore) (packagename : Text) : DefaultDataStore :=
  saveExtAppList P m ((getExtAppList m).erase packagename)

def securityException : Thrown := .runtimeException "Unauthorized OpenVPN API Caller".toList

/-- The loop over the packages; `pm` gives the uid of an installed package. -/
def checkPackages (pm : Text → Option ℕ) (callingUid : ℕ) :
    DefaultDataStore → List Text → DefaultDataStore × Except Thrown Text
  | m, [] => (m, .error securityException)
  | m, appPackage :: rest =>
    match pm appPackage with
    | some uid =>
      if callingUid = uid then (m, .ok appPackage) else checkPackages pm callingUid m rest
    -- an app that is not installed any more is removed from the list
    | none => checkPackages pm callingUid (removeApp P m appPackage) rest

def checkOpenVPNPermission (pm : Text → Option ℕ) (callingUid : ℕ) (m : DefaultDataStore) :
    DefaultDataStore × Except Thrown Text :=
  checkPackages P pm callingUid m (P.toArray (getExtAppList m))

/-- The answer, and the package for which the user is asked to confirm. -/
def checkRemoteActionPermission (m : DefaultDataStore) (callingPackage : Option Text) :
    Bool × Option Text :=
  let callingPackage := callingPackage.getD anonymousPackage
  if isAllowed m callingPackage then (true, none) else (false, some callingPackage)

/-- The changes of the list. -/
inductive Call
  | addApp (packagename : Text)
  | removeApp (packagename : Text)
  | clearAllApiApps
  deriving DecidableEq

/-- The preferences after a call. -/
def step (m : DefaultDataStore) : Call → DefaultDataStore
  | .addApp p => addApp P m p
  | .removeApp p => removeApp P m p
  | .clearAllApiApps => clearAllApiApps P m

/-! ## What revocation means -/

/-- `p` was added, and neither removed nor all packages cleared after the last time. -/
def Granted (p : Text) (calls : List Call) : Prop :=
  Since (· = .addApp p) (fun c => c = .removeApp p ∨ c = .clearAllApiApps) calls

/-- The package names that callers pass. -/
def NameOk (p : Text) : Prop := p ≠ [] ∧ ¬ Data.stringSetLineTag <:+: p

/-- The name that the call passes is in order. -/
def Call.Valid : Call → Prop
  | .addApp p | .removeApp p => NameOk p
  | .clearAllApiApps => True

/-- After the calls `past`, exactly the granted packages are allowed, and neither check accepts
another one. -/
structure Revocable (past : List Call) (m : DefaultDataStore) : Prop where
  allowed : ∀ p, isAllowed m p = true ↔ Granted p past
  openVPN : ∀ pm uid p, (checkOpenVPNPermission P pm uid m).2 = .ok p → Granted p past
  remoteAction : ∀ caller, (checkRemoteActionPermission m caller).1 = true →
    Granted (caller.getD anonymousPackage) past

/-- A call that leaves no package has nothing to take away. -/
def Leaves (m : DefaultDataStore) : Call → Prop
  | .addApp _ => True
  | .removeApp p => getExtAppList m ≠ {p}
  | .clearAllApiApps => getExtAppList m = ∅

/-- The granted packages, call by call. -/
def grant (apps : Finset Text) : Call → Finset Text
  | .addApp p => insert p apps
  | .removeApp p => apps.erase p
  | .clearAllApiApps => ∅

theorem mem_grant {p : Text} {apps : Finset Text} {c : Call} :
    p ∈ grant apps c ↔
      c = .addApp p ∨ ¬ (c = .removeApp p ∨ c = .clearAllApiApps) ∧ p ∈ apps := by
  cases c with
  | addApp q => simp [grant, eq_comm]
  | removeApp q => simp [grant, eq_comm]
  | clearAllApiApps => simp [grant]

theorem mem_grants_iff (p : Text) (calls : List Call) : p ∈ run grant ∅ calls ↔ Granted p calls := by
  induction calls using List.reverseRecOn with
  | nil => exact iff_of_false (Finset.notMem_empty p) (since_nil _ _)
  | append_singleton calls c ih =>
    rw [run_append, Granted, since_append, ← Granted, ← ih]
    exact mem_grant

/-! ## What a call does to the list -/

/-- An empty list is not saved. -/
theorem getExtAppList_save {m : DefaultDataStore} {apps : Finset Text} (hok : ∀ p ∈ apps, NameOk p) :
    getExtAppList (saveExtAppList P m apps) = if apps = ∅ then getExtAppList m else apps := by
  unfold saveExtAppList getExtAppList
  rw [Data.getStringSet_putInt, Data.getStringSet_putStringSet P m preferencesKey hok]

/-- The list holds names that callers pass. -/
def ListOk (m : DefaultDataStore) : Prop := ∀ p ∈ getExtAppList m, NameOk p

theorem listOk_empty : ListOk DefaultDataStore.empty := by
  intro p hp
  rw [show getExtAppList DefaultDataStore.empty = ∅ from rfl] at hp
  exact absurd hp (Finset.notMem_empty p)

theorem getExtAppList_step {m : DefaultDataStore} (hm : ListOk m) {c : Call} (hc : c.Valid) :
    getExtAppList (step P m c) =
      if grant (getExtAppList m) c = ∅ then getExtAppList m else grant (getExtAppList m) c := by
  cases c with
  | addApp p =>
    refine getExtAppList_save P fun q hq => ?_
    rcases Finset.mem_insert.1 hq with rfl | hq
    · exact hc
    · exact hm q hq
  | removeApp p => exact getExtAppList_save P fun q hq => hm q (Finset.mem_of_mem_erase hq)
  | clearAllApiApps => exact getExtAppList_save P fun q hq => absurd hq (Finset.notMem_empty q)

theorem ListOk.step {m : DefaultDataStore} (hm : ListOk m) {c : Call} (hc : c.Valid) :
    ListOk (step P m c) := by
  intro p hp
  rw [getExtAppList_step P hm hc] at hp
  split at hp
  · exact hm p hp
  · rcases mem_grant.1 hp with rfl | ⟨-, hp⟩
    · exact hc
    · exact hm p hp

/-- A call has its effect exactly if it leaves a package or there was none. -/
theorem step_follows_iff {m : DefaultDataStore} (hm : ListOk m) {c : Call} (hc : c.Valid) :
    getExtAppList (step P m c) = grant (getExtAppList m) c ↔ Leaves m c := by
  rw [getExtAppList_step P hm hc]
  have hiff : (if grant (getExtAppList m) c = ∅ then getExtAppList m else grant (getExtAppList m) c)
      = grant (getExtAppList m) c ↔
      (grant (getExtAppList m) c = ∅ → getExtAppList m = ∅) := by
    split_ifs with h
    · simp [h]
    · simp [h]
  rw [hiff]
  cases c with
  | addApp p => simp [grant, Leaves]
  | removeApp p =>
    simp only [grant, Leaves, Finset.erase_eq_empty_iff]
    constructor
    · intro h hp
      have := h (.inr hp)
      rw [hp] at this
      exact Finset.singleton_ne_empty p this
    · rintro h (hp | hp)
      · exact hp
      · exact absurd hp h
  | clearAllApiApps => simp [grant, Leaves]

/-! ## The checks -/

theorem checkPackages_mem (pm : Text → Option ℕ) (uid : ℕ) {p : Text} :
    ∀ (apps : List Text) (m : DefaultDataStore), (checkPackages P pm uid m apps).2 = .ok p → p ∈ apps
  | [], _, h => by cases h
  | q :: apps, m, h => by
    unfold checkPackages at h
    cases hq : pm q with
    | none =>
      rw [hq] at h
      exact List.mem_cons_of_mem q (checkPackages_mem pm uid apps _ h)
    | some u =>
      rw [hq] at h
      by_cases hu : uid = u
      · simp only [if_pos hu] at h
        cases h
        exact List.mem_cons_self
      · simp only [if_neg hu] at h
        exact List.mem_cons_of_mem q (checkPackages_mem pm uid apps _ h)

/-- Both checks accept allowed packages only. -/
theorem revocable_iff (past : List Call) (m : DefaultDataStore) :
    Revocable P past m ↔ getExtAppList m = run grant ∅ past := by
  have hallowed : ∀ p, isAllowed m p = true ↔ p ∈ getExtAppList m := fun p => by simp [isAllowed]
  constructor
  · intro h
    ext p
    rw [mem_grants_iff, ← h.allowed, hallowed]
  · intro h
    have hgranted : ∀ p, isAllowed m p = true ↔ Granted p past := fun p => by
      rw [hallowed, h, mem_grants_iff]
    refine ⟨hgranted, fun pm uid p hp => ?_, fun caller hc => ?_⟩
    · have hmem := checkPackages_mem P pm uid _ m hp
      rw [Data.mem_toArray] at hmem
      exact (hgranted p).1 ((hallowed p).2 hmem)
    · rw [checkRemoteActionPermission] at hc
      by_cases ha : isAllowed m (caller.getD anonymousPackage) = true
      · exact (hgranted _).1 ha
      · simp [ha] at hc

/-- **Authorisations are revocable throughout a run exactly if no call takes away the last
package.** -/
theorem revocable_iff_leaves (calls : List Call) (hvalid : ∀ c ∈ calls, c.Valid) :
    Throughout (step P) (Revocable P) DefaultDataStore.empty calls ↔
      Along (step P) Leaves DefaultDataStore.empty calls := by
  have hview : Throughout (step P) (Revocable P) DefaultDataStore.empty calls ↔
      Throughout (step P) (fun past m => getExtAppList m =
        run grant (getExtAppList DefaultDataStore.empty) past) DefaultDataStore.empty calls :=
    forall₂_congr fun past _ => revocable_iff P past _
  rw [hview, throughout_view_iff (step P) grant getExtAppList]
  -- every call is valid, so that the list stays well formed
  have hand : ∀ Q : DefaultDataStore → Call → Prop,
      Along (step P) Q DefaultDataStore.empty calls ↔
        Along (step P) (fun m c => Q m c ∧ c.Valid) DefaultDataStore.empty calls :=
    fun Q => ⟨fun h => h.and_mem hvalid, fun h => h.mono fun _ _ => And.left⟩
  rw [hand, hand Leaves]
  refine along_congr (I := ListOk) (fun m c hm => ?_) (fun m c hm hc => hm.step P hc.2) calls _ ?_
  · exact and_congr_left fun hc => step_follows_iff P hm hc
  · exact listOk_empty

def organizer : Text := "org.organizer".toList

def launcher : Text := "org.launcher".toList

theorem nameOk_examples : NameOk organizer ∧ NameOk launcher := by
  unfold NameOk
  decide

/-- After a call that leaves a package, the list is known. -/
theorem getExtAppList_first {p : Text} (hp : NameOk p) :
    getExtAppList (step P DefaultDataStore.empty (.addApp p)) = {p} := by
  have hne : grant (getExtAppList DefaultDataStore.empty) (.addApp p) ≠ ∅ :=
    Finset.insert_ne_empty p _
  rw [getExtAppList_step P listOk_empty (c := .addApp p) hp, if_neg hne]
  rfl

/-- Of two packages, one is revoked. -/
theorem revocable_iff_leaves_one :
    Along (step Data.onePlatform) Leaves DefaultDataStore.empty
        [.addApp organizer, .addApp launcher, .removeApp organizer] ∧
      Throughout (step Data.onePlatform) (Revocable Data.onePlatform) DefaultDataStore.empty
        [.addApp organizer, .addApp launcher, .removeApp organizer] := by
  have hvalid : ∀ c ∈ [.addApp organizer, .addApp launcher, .removeApp organizer], Call.Valid c := by
    intro c hc
    simp only [List.mem_cons, List.not_mem_nil, or_false] at hc
    rcases hc with rfl | rfl | rfl
    · exact nameOk_examples.1
    · exact nameOk_examples.2
    · exact nameOk_examples.1
  have hfirst := getExtAppList_first Data.onePlatform nameOk_examples.1
  have hsecond := getExtAppList_step Data.onePlatform
    (listOk_empty.step Data.onePlatform (c := .addApp organizer) nameOk_examples.1)
    (c := .addApp launcher) nameOk_examples.2
  rw [hfirst] at hsecond
  have hleaves : Along (step Data.onePlatform) Leaves DefaultDataStore.empty
      [.addApp organizer, .addApp launcher, .removeApp organizer] := by
    refine ⟨trivial, trivial, ?_, trivial⟩
    show getExtAppList _ ≠ _
    rw [hsecond]
    decide
  exact ⟨hleaves, (revocable_iff_leaves Data.onePlatform _ hvalid).2 hleaves⟩

/-- The only package stays allowed when it is removed, and when all packages are cleared. -/
theorem last_package_stays :
    NameOk organizer ∧
      isAllowed (run (step Data.onePlatform) DefaultDataStore.empty
        [.addApp organizer, .removeApp organizer]) organizer = true ∧
      ¬ Granted organizer [.addApp organizer, .removeApp organizer] ∧
      isAllowed (run (step Data.onePlatform) DefaultDataStore.empty
        [.addApp organizer, .clearAllApiApps]) organizer = true ∧
      ¬ Granted organizer [.addApp organizer, .clearAllApiApps] := by
  have hok := listOk_empty.step Data.onePlatform (c := .addApp organizer) nameOk_examples.1
  have hfirst := getExtAppList_first Data.onePlatform nameOk_examples.1
  have hremove := getExtAppList_step Data.onePlatform hok (c := .removeApp organizer) nameOk_examples.1
  have hclear := getExtAppList_step Data.onePlatform hok (c := .clearAllApiApps) trivial
  rw [hfirst] at hremove hclear
  refine ⟨nameOk_examples.1, ?_, ?_, ?_, ?_⟩
  · show decide (organizer ∈ getExtAppList _) = true
    rw [run_cons, run_cons, run_nil, hremove]
    decide
  · rw [← mem_grants_iff]
    decide
  · show decide (organizer ∈ getExtAppList _) = true
    rw [run_cons, run_cons, run_nil, hclear]
    decide
  · rw [← mem_grants_iff]
    decide

end VpnCore.Api
