import VpnCore.Data.Store
import VpnCore.Lib.Runs

/-!
# VpnCore.Apps.Filter — the apps that go through the tunnel

`AppProxyActivity` lets the user choose apps and writes them to the `DataStore` when it is destroyed;
`VPNAppFilterHelper.applyFilter` reads them when a tunnel is built.  An empty choice is not written:
the apps that were chosen before stay, or the filter finds none at all and takes that for all of
them.  `selection_applied_iff` says that this is the only way in which the filter misses the choice.
-/

namespace VpnCore.Apps

open Config (Text)
open Data (Platform DefaultDataStore Kind stringSetLineTag)
open Lib

/-! ## `AppBlackList` -/

def sEmailBlackList : List Text :=
  ["com.android.email", "com.google.android.gm", "com.google.android.gm.lite",
    "com.microsoft.office.outlook", "com.yahoo.mobile.client.android.mail",
    "com.yahoo.mobile.client.android.mail.lite", "com.samsung.android.email.provider",
    "com.my.mail", "com.tencent.androidqqmail", "com.netease.mail", "com.netease.mobimail",
    "com.corp21cn.mail189", "com.alibaba.cloudmail", "cn.cj.pe", "com.asiainfo.android",
    "com.sina.mail.free", "com.sohu.mail.client.cordova", "com.mobile.wmail",
    "com.smartisan.email", "com.kingsoft.email", "com.xunlei.filemail", "cn.mailchat.campus",
    "com.apkpure.aegon", "park.outlook.sign.in.client", "com.mail.emails", "com.syntomo.email",
    "com.easilydo.mail", "org.kman.AquaMail", "eu.faircode.email", "com.criptext.mail",
    "ch.protonmail.android", "com.pingapp.app", "me.bluemail.mail",
    "com.tohsoft.mail.email.emailclient", "com.cleanmail.hotmail",
    "com.tohsoft.mail.email.emailclient.pro", "io.cleanfox.android", "com.fsck.k9",
    "com.ninefolders.hd3", "com.cloudmagic.mail", "com.readdle.spark", "com.trtf.blue",
    "de.tutao.tutanota", "com.yomail.app"].map String.toList

def sBTBlackList : List Text :=
  ["com.xunlei.downloadprovider", "com.modianxiazai", "com.flash.download",
    "idm.internet.download.manager.plus", "com.delphicoder.flud",
    "com.xiajbsou.magnet.torrentsearchdownloadplay", "com.akingi.torrent", "com.dv.adm",
    "com.ap.transmission.btc", "com.halle.torrentdownloader", "com.samp.money.carinsurance",
    "com.bittorrent.client", "com.better.app.torrent", "co.we.torrent",
    "com.vuze.torrent.downloader", "cn.sddman.downloadllsts", "cn.babayu.hotvideo", "com.bt.star",
    "com.checketry.downloadmanager", "com.frostwire.android", "org.proninyaroslav.libretorrent",
    "intelligems.torrdroid", "org.transdroid.lite", "thu.tagsoft.ttorrent.lite"].map String.toList

def getAppList : List Text := sEmailBlackList ++ sBTBlackList

def containerAppList (packName : Text) : Bool :=
  sBTBlackList.contains packName || sEmailBlackList.contains packName

/-! ## `VPNAppProxyList` -/

/-- `APP_LIST` -/
def appList : Text := "app_list".toList

section

variable {F : Type} (P : Platform F)

def setAllowedApps (m : DefaultDataStore) (pkgs : Finset Text) : DefaultDataStore :=
  (Data.DataStore.putStringSet P m appList pkgs).1

def clearAllowedApps (m : DefaultDataStore) : DefaultDataStore := (Data.DataStore.remove m appList).1

def getAllowedApps (m : DefaultDataStore) : Finset Text := Data.DataStore.getStringSet m appList ∅

/-! ## `VPNAppFilterHelper` -/

/-- The installed packages.  The names are as the package manager gives them: not empty, and without
the tag of the `DataStore`. -/
structure Device where
  /-- `context.getPackageName()` -/
  own : Text
  pkgs : List Text
  valid : ∀ p ∈ pkgs, p ≠ [] ∧ ¬ stringSetLineTag <:+: p

/-- The applications that are added to the `VpnService.Builder`.  All packages are installed, so that
the builder knows their names. -/
structure Filter where
  allowed : List Text := []
  disallowed : List Text := []
  deriving DecidableEq

/-- The packages that the interface is told to serve. -/
def applyFilter (d : Device) (m : DefaultDataStore) : Filter :=
  let allowedApps := getAllowedApps m
  if allowedApps.card > 0 then
    { allowed := d.own :: (P.toArray allowedApps).filter fun pkg => !containerAppList pkg }
  else { disallowed := getAppList }

/-! ## `AppProxyActivity` -/

/-- A row of the list. -/
structure AppInfo where
  packageName : Text
  isSelected : Bool
  deriving DecidableEq

def selectAllKey : Text := "select_all".toList

def saveSelectAll (m : DefaultDataStore) (isSelectAll : Bool) : DefaultDataStore :=
  (Data.DataStore.putBoolean m selectAllKey isSelectAll).1

/-- `isSelectAll()` -/
def storedSelectAll (m : DefaultDataStore) : Bool := Data.DataStore.getBoolean m selectAllKey true

/-- The activity and the store; `checkBox` is the state of `mCheckBoxSelectAll`. -/
structure Screen where
  store : DefaultDataStore
  isSelectAll : Bool
  checkBox : Bool
  data : List AppInfo

def getAppInfos (d : Device) (m : DefaultDataStore) (isSelectAll : Bool) : List AppInfo :=
  d.pkgs.map fun pkg =>
    { packageName := pkg,
      isSelected := if isSelectAll then true else decide (pkg ∈ getAllowedApps m) }

def onCreate (d : Device) (m : DefaultDataStore) : Screen where
  store := m
  isSelectAll := storedSelectAll m
  checkBox := storedSelectAll m
  data := getAppInfos d m (storedSelectAll m)

/-- What a check box does: the one for all apps is clicked, or the listener of an app is called (by
the user, or by `setChecked` on a view that is bound anew). -/
inductive Operation
  | clickSelectAll
  | checkedChange (position : ℕ) (isChecked : Bool)
  deriving DecidableEq

def checkSelectAll (data : List AppInfo) : Bool := data.all AppInfo.isSelected

def Operation.perform (s : Screen) : Operation → Screen
  | .clickSelectAll =>
    let isSelectAll := !s.checkBox
    { store := saveSelectAll s.store isSelectAll, isSelectAll := isSelectAll,
      checkBox := isSelectAll,
      data := s.data.map fun appInfo => { appInfo with isSelected := isSelectAll } }
  | .checkedChange position isChecked =>
    let data := s.data.modify position fun appInfo => { appInfo with isSelected := isChecked }
    let isSelectAll := if !isChecked then false else checkSelectAll data
    { store := saveSelectAll s.store isSelectAll, isSelectAll := isSelectAll,
      checkBox := isSelectAll, data := data }

/-- The selected packages. -/
def Screen.selected (s : Screen) : Finset Text :=
  ((s.data.filter AppInfo.isSelected).map AppInfo.packageName).toFinset

/-- The screen is left: the selection is stored. -/
def onDestroy (s : Screen) : DefaultDataStore :=
  if storedSelectAll s.store then clearAllowedApps s.store
  else if s.selected.card > 0 then setAllowedApps P s.store s.selected
  else s.store

/-! ## Visits -/

/-- A visit to the activity up to `onDestroy`. -/
abbrev Visit := List Operation

/-- The screen at the end of a visit. -/
def visitEnd (d : Device) (m : DefaultDataStore) (v : Visit) : Screen :=
  run Operation.perform (onCreate d m) v

def visit (d : Device) (m : DefaultDataStore) (v : Visit) : DefaultDataStore :=
  onDestroy P (visitEnd d m v)

/-- The filter after the visit is what was chosen in it. -/
def SelectionApplied (d : Device) (m : DefaultDataStore) (v : Visit) : Prop :=
  let s := visitEnd d m v
  let f := applyFilter P d (visit P d m v)
  if storedSelectAll s.store then
    f.allowed.toFinset = ∅ ∧ f.disallowed.toFinset = getAppList.toFinset
  else
    f.allowed.toFinset = insert d.own (s.selected \ getAppList.toFinset) ∧ f.disallowed.toFinset = ∅

/-- The visit chooses all apps or some, or the apps that were chosen before do not get through the
tunnel anyway. -/
def ChoosesSome (d : Device) (m : DefaultDataStore) (v : Visit) : Prop :=
  let s := visitEnd d m v
  storedSelectAll s.store = true ∨ s.selected ≠ ∅ ∨
    getAllowedApps m ≠ ∅ ∧ ∀ pkg ∈ getAllowedApps m, pkg = d.own ∨ pkg ∈ getAppList

/-- `app_list` is the key of a set only. -/
def ListOnly (m : DefaultDataStore) : Prop := ∀ t : Kind, t ≠ .set → m (t.key appList) = none

/-! ## What a visit changes in the store -/

theorem selectAllKey_ne (t : Kind) : t.key appList ≠ Kind.boolean.key selectAllKey := by
  cases t <;> decide

theorem saveSelectAll_eq (m : DefaultDataStore) (b : Bool) :
    saveSelectAll m b = Function.update m (Kind.boolean.key selectAllKey)
      (some (Config.decimal (Data.DataStore.bit b).toInt)) :=
  congrArg Prod.fst (Data.putData_eq m _ (Data.decimal_ne_nil _))

theorem saveSelectAll_apply (m : DefaultDataStore) (b : Bool) (t : Kind) :
    saveSelectAll m b (t.key appList) = m (t.key appList) := by
  rw [saveSelectAll_eq]
  exact Function.update_of_ne (selectAllKey_ne t) _ _

/-- The operations do not touch the list, and keep the packages. -/
theorem visitEnd_frame (d : Device) (m : DefaultDataStore) (v : Visit) :
    (∀ t : Kind, (visitEnd d m v).store (t.key appList) = m (t.key appList)) ∧
      ∀ info ∈ (visitEnd d m v).data, info.packageName ∈ d.pkgs := by
  induction v using List.reverseRecOn with
  | nil =>
    refine ⟨fun t => rfl, fun info hinfo => ?_⟩
    obtain ⟨pkg, hpkg, rfl⟩ := List.mem_map.1 hinfo
    exact hpkg
  | append_singleton v op ih =>
    have hlast : visitEnd d m (v ++ [op]) = op.perform (visitEnd d m v) := run_append ..
    rw [hlast]
    generalize visitEnd d m v = s at ih
    cases op with
    | clickSelectAll =>
      refine ⟨fun t => (saveSelectAll_apply _ _ t).trans (ih.1 t), fun info hinfo => ?_⟩
      obtain ⟨old, hold, rfl⟩ := List.mem_map.1 hinfo
      exact ih.2 old hold
    | checkedChange position isChecked =>
      refine ⟨fun t => (saveSelectAll_apply _ _ t).trans (ih.1 t), fun info hinfo => ?_⟩
      obtain ⟨i, hi⟩ := List.mem_iff_getElem?.1 hinfo
      dsimp only [Operation.perform] at hi
      rw [List.getElem?_modify] at hi
      obtain ⟨old, hold, hinfo⟩ := Option.map_eq_some_iff.1 hi
      have := ih.2 old (List.mem_of_getElem? hold)
      rw [← hinfo]
      split_ifs <;> exact this

theorem getAllowedApps_visitEnd (d : Device) (m : DefaultDataStore) (v : Visit) :
    getAllowedApps (visitEnd d m v).store = getAllowedApps m :=
  Data.getStringSet_congr ((visitEnd_frame d m v).1 .set) ∅

theorem listOnly_visitEnd {d : Device} {m : DefaultDataStore} (h : ListOnly m) (v : Visit) :
    ListOnly (visitEnd d m v).store := fun t ht => ((visitEnd_frame d m v).1 t).trans (h t ht)

theorem selected_valid (d : Device) (m : DefaultDataStore) (v : Visit) :
    ∀ p ∈ (visitEnd d m v).selected, p ≠ [] ∧ ¬ stringSetLineTag <:+: p := by
  intro p hp
  obtain ⟨info, hinfo, rfl⟩ := List.mem_map.1 (List.mem_toFinset.1 hp)
  exact d.valid _ ((visitEnd_frame d m v).2 info (List.mem_filter.1 hinfo).1)

/-- Clearing removes the list, and nothing else of the key. -/
theorem clearAllowedApps_apply {m : DefaultDataStore} (h : ListOnly m) (t : Kind) :
    clearAllowedApps m (t.key appList) = none := by
  have habsent : ∀ t : Kind, t ≠ .set → m.contains (Data.assembleInternalKey appList t.dataType) = false :=
    fun t ht => by
      have := h t ht
      simp only [Kind.key] at this
      simp [DefaultDataStore.contains, this]
  have hfind : (Data.typeKeys appList).find? m.contains =
      if m.contains (Kind.set.key appList) then some (Kind.set.key appList) else none := by
    simp only [Data.typeKeys, List.find?_cons, habsent .int (by decide), habsent .long (by decide),
      habsent .float (by decide), habsent .boolean (by decide), List.find?_nil]
    cases hset : m.contains (Data.assembleInternalKey appList Kind.set.dataType) <;>
      simp [Kind.key, hset]
  unfold clearAllowedApps Data.DataStore.remove
  rw [hfind]
  by_cases hset : m.contains (Kind.set.key appList) = true
  · rw [if_pos hset]
    dsimp only
    by_cases ht : t = .set
    · rw [ht]
      exact Function.update_self (Kind.set.key appList) none m
    · have hne : t.key appList ≠ Kind.set.key appList := by
        revert ht
        cases t <;> decide
      exact (Function.update_of_ne hne none m).trans (h t ht)
  · rw [if_neg hset]
    dsimp only
    have hnone : ∀ t : Kind, m (t.key appList) = none := by
      intro t
      by_cases ht : t = .set
      · rw [ht]
        simpa [DefaultDataStore.contains] using hset
      · exact h t ht
    by_cases hkey : t.key appList = appList
    · rw [hkey]
      exact Function.update_self appList none m
    · exact (Function.update_of_ne hkey none m).trans (hnone t)

theorem getAllowedApps_clear {m : DefaultDataStore} (h : ListOnly m) :
    getAllowedApps (clearAllowedApps m) = ∅ :=
  Data.Value.set.inj (Data.get_none Data.onePlatform (d := .set ∅) (clearAllowedApps_apply h .set))

theorem getAllowedApps_set {m : DefaultDataStore} {pkgs : Finset Text} (hne : pkgs ≠ ∅)
    (hok : ∀ p ∈ pkgs, p ≠ [] ∧ ¬ stringSetLineTag <:+: p) :
    getAllowedApps (setAllowedApps P m pkgs) = pkgs := by
  have hget := Data.getStringSet_putStringSet P m appList hok ∅
  rwa [if_neg hne] at hget

/-- The list after the visit. -/
theorem getAllowedApps_visit {d : Device} {m : DefaultDataStore} (h : ListOnly m) (v : Visit) :
    getAllowedApps (visit P d m v) =
      if storedSelectAll (visitEnd d m v).store then ∅
      else if (visitEnd d m v).selected = ∅ then getAllowedApps m
      else (visitEnd d m v).selected := by
  unfold visit onDestroy
  split_ifs with hall hcard hempty hempty
  · exact getAllowedApps_clear (listOnly_visitEnd h v)
  · simp [hempty] at hcard
  · exact getAllowedApps_set P hempty (selected_valid d m v)
  · exact getAllowedApps_visitEnd d m v
  · exact absurd (Finset.card_pos.2 (Finset.nonempty_iff_ne_empty.2 hempty)) hcard

theorem listOnly_visit {d : Device} {m : DefaultDataStore} (h : ListOnly m) (v : Visit) :
    ListOnly (visit P d m v) := by
  have hend := listOnly_visitEnd (d := d) h v
  unfold visit onDestroy
  split_ifs with hall hcard
  · exact fun t _ => clearAllowedApps_apply hend t
  · intro t ht
    have hne : t.key appList ≠ Kind.set.key appList := by
      revert ht
      cases t <;> decide
    unfold setAllowedApps Data.DataStore.putStringSet
    rw [if_pos hcard]
    exact (Function.update_of_ne hne _ _).trans (hend t ht)
  · exact hend

/-! ## The filter -/

theorem containerAppList_iff (pkg : Text) : containerAppList pkg = true ↔ pkg ∈ getAppList := by
  simp only [containerAppList, Bool.or_eq_true, List.contains_iff_mem, getAppList, List.mem_append]
  exact or_comm

theorem applyFilter_some (d : Device) {m : DefaultDataStore} (h : getAllowedApps m ≠ ∅) :
    (applyFilter P d m).allowed.toFinset = insert d.own (getAllowedApps m \ getAppList.toFinset) ∧
      (applyFilter P d m).disallowed.toFinset = ∅ := by
  have hcard : (getAllowedApps m).card > 0 := Finset.card_pos.2 (Finset.nonempty_iff_ne_empty.2 h)
  simp only [applyFilter, if_pos hcard]
  refine ⟨?_, rfl⟩
  ext pkg
  rw [List.toFinset_cons, Finset.mem_insert, Finset.mem_insert, List.mem_toFinset, List.mem_filter,
    Data.mem_toArray, Finset.mem_sdiff, List.mem_toFinset, ← containerAppList_iff]
  simp

theorem applyFilter_none (d : Device) {m : DefaultDataStore} (h : getAllowedApps m = ∅) :
    applyFilter P d m = { disallowed := getAppList } := by
  simp [applyFilter, h]

/-- One visit. -/
theorem selectionApplied_iff (d : Device) {m : DefaultDataStore} (h : ListOnly m) (v : Visit) :
    SelectionApplied P d m v ↔ ChoosesSome d m v := by
  have hlist := getAllowedApps_visit P (d := d) h v
  unfold SelectionApplied ChoosesSome
  dsimp only
  by_cases hall : storedSelectAll (visitEnd d m v).store = true
  · rw [if_pos hall] at hlist ⊢
    rw [applyFilter_none P d hlist]
    exact iff_of_true ⟨rfl, rfl⟩ (.inl hall)
  · rw [if_neg hall] at hlist ⊢
    by_cases hsome : (visitEnd d m v).selected = ∅
    · rw [if_pos hsome] at hlist
      simp only [hall, hsome, ne_eq, not_true_eq_false, Bool.false_eq_true, false_or,
        Finset.empty_sdiff]
      by_cases hold : getAllowedApps m = ∅
      · rw [applyFilter_none P d (hlist.trans hold)]
        refine iff_of_false (fun hf => ?_) fun hf => hf.1 hold
        exact absurd hf.1.symm (Finset.insert_ne_empty _ _)
      · obtain ⟨hallowed, hdis⟩ := applyFilter_some P d (by rw [hlist]; exact hold)
        rw [hallowed, hdis, hlist]
        refine ⟨fun hf => ⟨hold, fun pkg hpkg => ?_⟩, fun hf => ⟨?_, rfl⟩⟩
        · by_cases hblack : pkg ∈ getAppList
          · exact .inr hblack
          · have hmem : pkg ∈ insert d.own (getAllowedApps m \ getAppList.toFinset) :=
              Finset.mem_insert_of_mem (by simp [hpkg, hblack])
            rw [hf.1] at hmem
            exact .inl (by simpa using hmem)
        · ext pkg
          simp only [Finset.mem_insert, Finset.mem_sdiff, List.mem_toFinset, Finset.notMem_empty,
            or_false]
          refine ⟨?_, .inl⟩
          rintro (rfl | ⟨hpkg, hblack⟩)
          · rfl
          · exact (hf.2 pkg hpkg).resolve_right hblack
    · rw [if_neg hsome] at hlist
      obtain ⟨hallowed, hdis⟩ := applyFilter_some P d (by rw [hlist]; exact hsome)
      rw [hallowed, hdis, hlist]
      exact iff_of_true ⟨rfl, rfl⟩ (.inr (.inl hsome))

/-- **Every sequence of visits**: the filter follows the choice after each visit exactly if each visit
chooses some apps. -/
theorem selection_applied_iff (d : Device) (m : DefaultDataStore) (h : ListOnly m)
    (visits : List Visit) :
    Along (visit P d) (SelectionApplied P d) m visits ↔ Along (visit P d) (ChoosesSome d) m visits :=
  along_congr (I := ListOnly) (fun _ v hm => selectionApplied_iff P d hm v)
    (fun _ v hm _ => listOnly_visit P hm v) visits m h

end

/-! ## An empty choice -/

/-- The app itself and a browser. -/
def twoApps : Device where
  own := "com.module.vpncore".toList
  pkgs := ["com.module.vpncore".toList, "org.example.browser".toList]
  valid := by decide

/-- All apps but the app itself stay selected. -/
def browserOnly : Visit := [.checkedChange 0 false]

theorem selection_applied_browser :
    Along (visit Data.onePlatform twoApps) (SelectionApplied Data.onePlatform twoApps)
      DefaultDataStore.empty [browserOnly] :=
  (selection_applied_iff Data.onePlatform twoApps DefaultDataStore.empty (fun _ _ => rfl)
    [browserOnly]).2 ⟨.inr (.inl (by decide +kernel)), trivial⟩

/-- No app is selected, and all but those on the black list are tunnelled. -/
theorem empty_selection_tunnels_all :
    storedSelectAll (visitEnd twoApps DefaultDataStore.empty [.clickSelectAll]).store = false ∧
      (visitEnd twoApps DefaultDataStore.empty [.clickSelectAll]).selected = ∅ ∧
      applyFilter Data.onePlatform twoApps
          (visit Data.onePlatform twoApps DefaultDataStore.empty [.clickSelectAll]) =
        { disallowed := getAppList } := by
  decide +kernel

end VpnCore.Apps
