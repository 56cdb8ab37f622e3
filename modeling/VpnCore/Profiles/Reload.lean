import VpnCore.Profiles.Restrictions

/-!
# VpnCore.Profiles.Reload — the map and the list that is stored

A manager is `Steady` if its map is what loading the stored list gives.  Removing profiles (`swept`) writes the
keys of the map to the list; the map can be loaded again exactly if the files with these names hold its profiles
(`swept_reloads_iff`).
-/

namespace VpnCore.Profiles

open Config (Text Thrown)
open Data (Platform)

variable {F : Type} (T : Tools F)

/-! ## Bundles of valid entries -/

/-- An entry with a valid UUID text. -/
structure Entry where
  uuid : Text
  ovpn : Text
  name : Text
  id : UUID
  fromString_uuid : UUID.fromString uuid = .ok id

def Entry.parcel (e : Entry) : Parcel := .bundle (some e.uuid) (some e.ovpn) (some e.name)

def Entry.key (e : Entry) : Text := e.id.toString

/-- The bundle of the entries. -/
def restrictionsOf (version : Text) (entries : List Entry) : Restrictions where
  version := some version
  profileList := some (entries.map Entry.parcel)

theorem Entry.toLowerCase_uuid (e : Entry) : toLowerCase e.uuid = e.key := by
  have h := e.fromString_uuid
  unfold UUID.fromString at h
  split at h
  · exact congrArg UUID.toString (Except.ok.inj h)
  · cases h

/-! ## The profiles of a manager -/

/-- The profile under a key, unless it is managed. -/
def Manager.unmanaged (s : Manager) (k : Text) : Option Profile := (s.view k).filter (!·.managed)

/-- A process that starts with these files and preferences. -/
def started (files : Text → Option Profile) (store : Data.DefaultDataStore) : Manager :=
  { Manager.empty with files := files, store := store }.loadVPNList T.platform

/-- The same profiles in the map and in storage. -/
structure Same (s s' : Manager) : Prop where
  view : ∀ k, s'.view k = s.view k
  tmpView : s'.tmpView = s.tmpView
  files : s'.files = s.files
  vpnlist : s'.vpnlist = s.vpnlist

/-! ## Loading again -/

theorem Same.refl (s : Manager) : Same s s := ⟨fun _ => rfl, rfl, rfl, rfl⟩

theorem Same.trans {s s' s'' : Manager} (h : Same s s') (h' : Same s' s'') : Same s s'' :=
  ⟨fun k => (h'.view k).trans (h.view k), h'.tmpView.trans h.tmpView, h'.files.trans h.files,
    h'.vpnlist.trans h.vpnlist⟩

theorem Same.find {s s' : Manager} (h : Same s s') (key : Text) : s'.find key = s.find key := by
  unfold Manager.find
  rw [h.tmpView, h.view key]

theorem Same.unmanaged {s s' : Manager} (h : Same s s') (k : Text) :
    s'.unmanaged k = s.unmanaged k := by
  unfold Manager.unmanaged
  rw [h.view k]

/-- The temporary profile is an object. -/
def Manager.TmpOk (s : Manager) : Prop := ∀ o, s.tmpprofile = some o → o < s.heap.length

/-- A manager whose map and temporary profile are what loading the list gives. -/
structure Steady (P : Platform F) (s : Manager) : Prop where
  refs : s.RefsOk
  tmpRef : s.TmpOk
  tmp : s.tmpView = Manager.loadedEntry s.files temporaryProfileFilename
  view : ∀ k, s.view k = (s.entries P).foldl (Manager.pick s.files k) none

namespace Manager

theorem TmpOk.allocate {s : Manager} (h : s.TmpOk) (p : Profile) :
    (s.allocate p).TmpOk ∧ (s.allocate p).tmpView = s.tmpView := by
  refine ⟨fun o ho => ?_, ?_⟩
  · have := h o ho
    simp only [Manager.allocate, List.length_append, List.length_singleton]
    omega
  · unfold tmpView
    cases ht : s.tmpprofile with
    | none => simp [Manager.allocate, ht]
    | some o =>
      simp only [Manager.allocate, ht, Option.bind_some]
      exact List.getElem?_append_left (h o ht)

theorem TmpOk.loadEntry {s : Manager} (h : s.TmpOk) (e : Text) :
    (s.loadEntry e).TmpOk ∧ (s.loadEntry e).tmpView = if e = temporaryProfileFilename then
      (loadedEntry s.files temporaryProfileFilename).or s.tmpView else s.tmpView := by
  cases hl : loadedEntry s.files e with
  | none =>
    rw [show s.loadEntry e = s by rw [Manager.loadEntry, hl]]
    refine ⟨h, ?_⟩
    split
    · next he => rw [← he, hl, Option.none_or]
    · rfl
  | some vp =>
    by_cases he : e = temporaryProfileFilename
    · subst he
      rw [loadEntry_temporary hl, if_pos rfl, hl, Option.some_or]
      refine ⟨fun o ho => ?_, ?_⟩
      · cases ho
        simp [Manager.allocate]
      · simp [tmpView, Manager.allocate]
    · rw [loadEntry_profile hl he, if_neg he]
      exact h.allocate vp

/-- The temporary profile after the entries `es`. -/
theorem foldl_loadEntry_tmp (es : List Text) : ∀ s : Manager, s.TmpOk →
    (es.foldl loadEntry s).TmpOk ∧ (es.foldl loadEntry s).tmpView =
      if temporaryProfileFilename ∈ es then
        (loadedEntry s.files temporaryProfileFilename).or s.tmpView
      else s.tmpView := by
  induction es with
  | nil => exact fun s h => ⟨h, by simp⟩
  | cons e es ih =>
    intro s h
    obtain ⟨hok, hview⟩ := h.loadEntry e
    obtain ⟨href, htmp⟩ := ih (s.loadEntry e) hok
    refine ⟨href, ?_⟩
    rw [List.foldl_cons, htmp, hview, s.loadEntry_files e]
    by_cases he : e = temporaryProfileFilename
    · subst he
      by_cases hmem : temporaryProfileFilename ∈ es
      · cases hl : loadedEntry s.files temporaryProfileFilename <;> simp [hmem]
      · simp [hmem]
    · simp [he, Ne.symm he]

end Manager

theorem Manager.entries_loadVPNList (P : Platform F) (s : Manager) :
    (s.loadVPNList P).entries P = s.entries P := by
  unfold Manager.entries
  rw [Manager.loadVPNList_vpnlist]

/-- Loading the list gives a steady manager. -/
theorem steady_load (P : Platform F) {s : Manager} (href : s.TmpOk)
    (htmp : s.tmpView = none ∨ s.tmpView = Manager.loadedEntry s.files temporaryProfileFilename) :
    Steady P (s.loadVPNList P) := by
  obtain ⟨href', htmp'⟩ := Manager.foldl_loadEntry_tmp (s.entries P) { s with profiles := ∅ } href
  have htemp : temporaryProfileFilename ∈ s.entries P := (s.mem_entries P).2 (.inl rfl)
  refine ⟨s.loadVPNList_refsOk P, href', ?_, fun k => ?_⟩
  · rw [Manager.loadVPNList_files]
    refine htmp'.trans ?_
    rw [if_pos htemp, show ({ s with profiles := ∅ } : Manager).tmpView = s.tmpView from rfl]
    rcases htmp with h | h
    · rw [h, Option.or_none]
    · rw [h, Option.or_self]
  · rw [Manager.view_loadVPNList, Manager.entries_loadVPNList, Manager.loadVPNList_files]

theorem Steady.load {P : Platform F} {s : Manager} (h : Steady P s) :
    Steady P (s.loadVPNList P) ∧ Same s (s.loadVPNList P) := by
  have h' := steady_load P h.tmpRef (.inr h.tmp)
  refine ⟨h', fun k => ?_, ?_, s.loadVPNList_files P, s.loadVPNList_vpnlist P⟩
  · rw [Manager.view_loadVPNList, h.view]
  · rw [h'.tmp, h.tmp, Manager.loadVPNList_files]

theorem steady_started (files : Text → Option Profile) (store : Data.DefaultDataStore) :
    Steady T.platform (started T files store) :=
  steady_load T.platform (fun o h => by cases h) (.inl rfl)

/-- A lookup by text leaves a steady manager as it is. -/
theorem Steady.get (P : Platform F) (version : Int32) (key : Text) :
    ∀ (tries : ℕ) {s : Manager}, Steady P s →
      Steady P (s.get P version key tries).1 ∧ Same s (s.get P version key tries).1 ∧
        (s.get P version key tries).2 = s.find key
  | 0, s, h => ⟨h, Same.refl s, rfl⟩
  | tries + 1, s, h => by
    obtain ⟨hl, hsame⟩ := h.load
    obtain ⟨h1, h2, h3⟩ := Steady.get P version key tries hl
    have hagain : Steady P (Manager.get P version key tries (s.loadVPNList P)).1 ∧
        Same s (Manager.get P version key tries (s.loadVPNList P)).1 ∧
        (Manager.get P version key tries (s.loadVPNList P)).2 = s.find key :=
      ⟨h1, hsame.trans h2, h3.trans (hsame.find key)⟩
    unfold Manager.get
    cases hf : s.find key with
    | none => simpa only [hf] using hagain
    | some profile =>
      by_cases hv : profile.mVersion < version
      · simpa only [hf, if_pos hv] using hagain
      · simp only [if_neg hv]
        exact ⟨h, Same.refl s, trivial⟩

/-! ## Maps in good order -/

/-- The references of the map are objects, whose UUIDs are the keys. -/
structure Ordered (s : Manager) : Prop where
  refs : s.RefsOk
  keys : ∀ k p, s.view k = some p → p.mUuid.toString = k

theorem Ordered.keysOk {s : Manager} (h : Ordered s) : s.KeysOk := by
  intro k hk
  obtain ⟨p, hp⟩ := Option.isSome_iff_exists.1 ((h.refs.isSome_view k).2 hk)
  exact ⟨p.mUuid, (h.keys k p hp).symm⟩

theorem pick_key {files : Text → Option Profile} {k : Text} {p : Profile} :
    ∀ (es : List Text) (found : Option Profile), (∀ q, found = some q → q.mUuid.toString = k) →
      es.foldl (Manager.pick files k) found = some p → p.mUuid.toString = k
  | [], _, hfound, h => hfound p h
  | e :: es, found, hfound, h => by
    refine pick_key es (Manager.pick files k found e) (fun q hq => ?_) h
    unfold Manager.pick at hq
    split at hq
    · split at hq
      · next hk =>
        cases hq
        exact hk.2
      · exact hfound q hq
    · exact hfound q hq

theorem ordered_load (P : Platform F) (s : Manager) : Ordered (s.loadVPNList P) := by
  refine ⟨s.loadVPNList_refsOk P, fun k p hp => ?_⟩
  rw [Manager.view_loadVPNList] at hp
  exact pick_key _ none (fun q hq => by cases hq) hp

theorem Steady.ordered {P : Platform F} {s : Manager} (h : Steady P s) : Ordered s := by
  refine ⟨h.refs, fun k p hp => ?_⟩
  rw [h.view k] at hp
  exact pick_key _ none (fun q hq => by cases hq) hp

/-- Looking up a profile leaves storage as it is and the map in good order. -/
theorem Ordered.get (P : Platform F) (version : Int32) (key : Text) :
    ∀ (tries : ℕ) {s : Manager}, Ordered s →
      Ordered (s.get P version key tries).1 ∧ (s.get P version key tries).1.files = s.files ∧
        (s.get P version key tries).1.vpnlist = s.vpnlist
  | 0, _, h => ⟨h, rfl, rfl⟩
  | tries + 1, s, h => by
    obtain ⟨h1, h2, h3⟩ := Ordered.get P version key tries (ordered_load P s)
    rw [Manager.loadVPNList_files] at h2
    rw [Manager.loadVPNList_vpnlist] at h3
    unfold Manager.get
    split
    · split
      · exact ⟨h1, h2, h3⟩
      · exact ⟨h, rfl, rfl⟩
    · exact ⟨h1, h2, h3⟩

/-! ## The profiles that a bundle does not have -/

/-- The UUIDs that are provisioned after the entries `es`. -/
def provisionedUuids (uuids : Finset Text) (es : List Entry) : Finset Text :=
  es.foldl (fun uuids e => insert e.key uuids) uuids

theorem mem_provisionedUuids {k : Text} :
    ∀ (es : List Entry) (uuids : Finset Text),
      k ∈ provisionedUuids uuids es ↔ k ∈ uuids ∨ ∃ e ∈ es, e.key = k
  | [], uuids => by simp [provisionedUuids]
  | e :: es, uuids => by
    have ih := mem_provisionedUuids (k := k) es (insert e.key uuids)
    unfold provisionedUuids at ih ⊢
    rw [List.foldl_cons, ih, Finset.mem_insert]
    simp only [List.mem_cons, exists_eq_or_imp]
    constructor
    · rintro ((h | h) | h)
      · exact .inr (.inl h.symm)
      · exact .inl h
      · exact .inr (.inr h)
    · rintro (h | h | h)
      · exact .inl (.inr h)
      · exact .inl (.inl h.symm)
      · exact .inr h

theorem mem_keys_iff {entries : List Entry} {k : Text} :
    k ∈ provisionedUuids ∅ entries ↔ ∃ e ∈ entries, e.key = k := by
  rw [mem_provisionedUuids]
  simp

/-- The keys of the managed profiles that the bundle does not have. -/
def staleKeys (entries : List Entry) (s : Manager) : Finset Text :=
  s.keySet.filter fun k => (s.view k).any Profile.managed = true ∧ ∀ e ∈ entries, e.key ≠ k

/-- The keys of the other profiles. -/
def keptKeys (entries : List Entry) (s : Manager) : Finset Text := s.keySet \ staleKeys entries s

/-- The profiles that stay are found again after the stale ones have been removed.  The list that is written
then has the keys of the map, so that the files with these names have to hold the profiles.  A list without
keys is not written: after the only profile has been removed, the old list is read again. -/
inductive SweepKeeps (entries : List Entry) (s : Manager) : Prop
  | untouched : staleKeys entries s = ∅ → SweepKeeps entries s
  | restored : keptKeys entries s ≠ ∅ → (∀ k,
      (T.platform.toArray (insert temporaryProfileFilename (keptKeys entries s))).foldl
        (Manager.pick s.files k) none = if k ∈ keptKeys entries s then s.view k else none) →
      SweepKeeps entries s
  | emptied : keptKeys entries s = ∅ → (∀ key, staleKeys entries s = {key} → ∀ name ∈ s.vpnlist, name ≠ key →
      name ≠ temporaryProfileFilename → Manager.loadedEntry s.files name = none) → SweepKeeps entries s

/-- What is left after the stale profiles have been removed. -/
abbrev swept (entries : List Entry) (s : Manager) : Manager := sweep T s (provisionedUuids ∅ entries)

/-! ## The sweep -/

section Sweep

variable (P : Platform F) {s : Manager}

theorem getUUIDString_eq (p : Profile) : p.getUUIDString = p.mUuid.toString :=
  toLowerCase_toString p.mUuid

theorem view_removeProfile (vp : Profile) (k : Text) :
    (s.removeProfile P vp).view k = if k = vp.mUuid.toString then none else s.view k := by
  show ((s.profiles.erase vp.mUuid.toString).lookup k).bind (s.heap[·]?) = _
  by_cases hk : k = vp.mUuid.toString
  · rw [if_pos hk, hk, AList.lookup_erase]
    rfl
  · rw [if_neg hk, AList.lookup_erase_ne hk]
    rfl

theorem mem_keySet_removeProfile (vp : Profile) (k : Text) :
    k ∈ (s.removeProfile P vp).keySet ↔ k ≠ vp.mUuid.toString ∧ k ∈ s.keySet := by
  show k ∈ (s.profiles.erase vp.mUuid.toString).keys.toFinset ↔ _
  rw [List.mem_toFinset, ← AList.mem_keys, AList.mem_erase, Manager.keySet, List.mem_toFinset,
    ← AList.mem_keys]

theorem Ordered.removeProfile (h : Ordered s) (vp : Profile) : Ordered (s.removeProfile P vp) := by
  refine ⟨fun k o hk => ?_, fun k p hp => ?_⟩
  · by_cases hkey : k = vp.mUuid.toString
    · rw [hkey, show (s.removeProfile P vp).profiles = s.profiles.erase vp.mUuid.toString from rfl,
        AList.lookup_erase] at hk
      cases hk
    · rw [show (s.removeProfile P vp).profiles = s.profiles.erase vp.mUuid.toString from rfl,
        AList.lookup_erase_ne hkey] at hk
      exact h.refs k o hk
  · rw [view_removeProfile] at hp
    split at hp
    · cases hp
    · exact h.keys k p hp

theorem vpnlist_removeProfile (h : Ordered s) (vp : Profile) :
    (s.removeProfile P vp).vpnlist =
      if (s.removeProfile P vp).keySet = ∅ then s.vpnlist else (s.removeProfile P vp).keySet := by
  have hok : ({ s with profiles := s.profiles.erase vp.mUuid.toString } : Manager).KeysOk :=
    fun k hk => h.keysOk k ((mem_keySet_removeProfile P vp k).1 hk).2
  exact Manager.vpnlist_saveProfileList P hok

theorem loadedEntry_removeProfile (vp : Profile) (k : Text) :
    Manager.loadedEntry (s.removeProfile P vp).files k =
      if k = vp.mUuid.toString then none else Manager.loadedEntry s.files k := by
  by_cases hk : k = vp.mUuid.toString
  · rw [if_pos hk, hk, Manager.loadedEntry,
      show (s.removeProfile P vp).files (fileName vp.mUuid.toString) = none from
        Function.update_self _ _ _]
    rfl
  · have hne : fileName k ≠ fileName vp.mUuid.toString :=
      fun he => hk (Manager.fileName_injective he)
    rw [if_neg hk, Manager.loadedEntry,
      show (s.removeProfile P vp).files (fileName k) = s.files (fileName k) from
        Function.update_of_ne hne _ _]
    rfl

theorem mem_profilesToRemove (h : Ordered s) {uuids : Finset Text} {vp : Profile} :
    vp ∈ profilesToRemove s uuids ↔
      s.view vp.mUuid.toString = some vp ∧ vp.managed = true ∧ vp.mUuid.toString ∉ uuids := by
  simp only [profilesToRemove, List.mem_filter, List.mem_filterMap, getUUIDString_eq,
    Bool.and_eq_true, Bool.not_eq_true', decide_eq_false_iff_not]
  constructor
  · rintro ⟨⟨k, -, hk⟩, hm, hu⟩
    exact ⟨h.keys k vp hk ▸ hk, hm, hu⟩
  · rintro ⟨hv, hm, hu⟩
    refine ⟨⟨vp.mUuid.toString, ?_, hv⟩, hm, hu⟩
    have := (h.refs.isSome_view vp.mUuid.toString).1 (by rw [hv]; rfl)
    rwa [Manager.keySet, List.mem_toFinset] at this

/-- What one removal takes away under its key, several take away under theirs. -/
theorem foldl_removeProfile_eq {f : Manager → Text → Option Profile}
    (hf : ∀ s vp k, f (s.removeProfile P vp) k = if k = vp.mUuid.toString then none else f s k)
    (vps : List Profile) : ∀ (s : Manager) (k : Text), f (vps.foldl (·.removeProfile P) s) k =
      if ∃ vp ∈ vps, vp.mUuid.toString = k then none else f s k := by
  induction vps with
  | nil => simp
  | cons vp vps ih =>
    intro s k
    rw [List.foldl_cons, ih, hf]
    by_cases hk : vp.mUuid.toString = k
    · simp [hk]
    · simp [hk, Ne.symm hk]

theorem foldl_removeProfile {I : Manager → Prop} (vps : List Profile)
    (hstep : ∀ s, I s → ∀ vp ∈ vps, I (s.removeProfile P vp)) {s : Manager} (hI : I s) :
    I (vps.foldl (·.removeProfile P) s) := by
  induction vps generalizing s with
  | nil => exact hI
  | cons vp vps ih =>
    exact ih (fun s hs vp' hvp' => hstep s hs vp' (List.mem_cons_of_mem vp hvp'))
      (hstep s hI vp List.mem_cons_self)

section Entries

variable {entries : List Entry}

theorem mem_staleKeys (h : s.RefsOk) {k : Text} : k ∈ staleKeys entries s ↔
    (∃ p, s.view k = some p ∧ p.managed = true) ∧ ∀ e ∈ entries, e.key ≠ k := by
  rw [staleKeys, Finset.mem_filter, ← h.isSome_view]
  cases s.view k <;> simp

/-- The sweep removes the stale keys. -/
theorem removed_iff (h : Ordered s) {k : Text} :
    (∃ vp ∈ profilesToRemove s (provisionedUuids ∅ entries), vp.mUuid.toString = k) ↔
      k ∈ staleKeys entries s := by
  rw [mem_staleKeys h.refs]
  constructor
  · rintro ⟨vp, hvp, rfl⟩
    obtain ⟨hv, hm, hu⟩ := (mem_profilesToRemove h).1 hvp
    exact ⟨⟨vp, hv, hm⟩, fun e he hk => hu (mem_keys_iff.2 ⟨e, he, hk⟩)⟩
  · rintro ⟨⟨vp, hv, hm⟩, hu⟩
    obtain rfl := h.keys k vp hv
    refine ⟨vp, (mem_profilesToRemove h).2 ⟨hv, hm, fun hin => ?_⟩, rfl⟩
    obtain ⟨e, he, hk⟩ := mem_keys_iff.1 hin
    exact hu e he hk

theorem view_swept (h : Ordered s) (k : Text) :
    (swept T entries s).view k = if k ∈ staleKeys entries s then none else s.view k := by
  rw [swept, sweep, foldl_removeProfile_eq T.platform (f := Manager.view)
    (fun s vp k => view_removeProfile T.platform vp k)]
  simp only [removed_iff h]

theorem loadedEntry_swept (h : Ordered s) (k : Text) :
    Manager.loadedEntry (swept T entries s).files k =
      if k ∈ staleKeys entries s then none else Manager.loadedEntry s.files k := by
  rw [swept, sweep, foldl_removeProfile_eq T.platform (f := fun s => Manager.loadedEntry s.files)
    (fun s vp k => loadedEntry_removeProfile T.platform vp k)]
  simp only [removed_iff h]

theorem Ordered.swept (h : Ordered s) : Ordered (swept T entries s) :=
  foldl_removeProfile T.platform _ (fun _ hs vp _ => hs.removeProfile T.platform vp) h

theorem swept_eq_self (h : Ordered s) (hstale : staleKeys entries s = ∅) : swept T entries s = s := by
  have hnone : profilesToRemove s (provisionedUuids ∅ entries) = [] := by
    refine List.eq_nil_iff_forall_not_mem.2 fun vp hvp => ?_
    have hin := (removed_iff h).1 ⟨vp, hvp, rfl⟩
    rw [hstale] at hin
    cases hin
  rw [swept, sweep, hnone]
  rfl

theorem mem_keptKeys (h : Ordered s) {k : Text} :
    k ∈ keptKeys entries s ↔ (s.view k).isSome ∧ k ∉ staleKeys entries s := by
  rw [keptKeys, Finset.mem_sdiff, h.refs.isSome_view]

theorem view_swept_kept (h : Ordered s) (k : Text) :
    (swept T entries s).view k = if k ∈ keptKeys entries s then s.view k else none := by
  rw [view_swept T h]
  simp only [mem_keptKeys h]
  by_cases hk : k ∈ staleKeys entries s
  · simp [hk]
  · cases s.view k <;> simp [hk]

theorem keySet_swept (h : Ordered s) : (swept T entries s).keySet = keptKeys entries s := by
  ext k
  rw [← (h.swept T).refs.isSome_view, view_swept T h, mem_keptKeys h]
  split_ifs with hk <;> simp [hk]

variable (entries) in
/-- The temporary profile stays. -/
theorem Steady.tmp_swept (h : Steady T.platform s) :
    (swept T entries s).TmpOk ∧ (swept T entries s).tmpView = s.tmpView ∧
    (swept T entries s).tmpView = Manager.loadedEntry (swept T entries s).files temporaryProfileFilename := by
  obtain ⟨htmp, hheap⟩ := foldl_removeProfile T.platform (profilesToRemove s (provisionedUuids ∅ entries))
    (I := fun t => t.tmpprofile = s.tmpprofile ∧ t.heap = s.heap) (fun _ ht _ _ => ht) ⟨rfl, rfl⟩
  have hview : (Profiles.swept T entries s).tmpView = s.tmpView := by
    unfold Manager.tmpView
    rw [Profiles.swept, sweep, htmp, hheap]
  have hstale : temporaryProfileFilename ∉ staleKeys entries s := by
    intro hin
    obtain ⟨u, hu⟩ := h.ordered.keysOk _ (Finset.mem_filter.1 hin).1
    exact u.toString_ne_temporary hu.symm
  refine ⟨?_, hview, ?_⟩
  · rw [Profiles.swept, sweep, Manager.TmpOk, htmp, hheap]
    exact h.tmpRef
  · rw [hview, loadedEntry_swept T h.ordered, if_neg hstale, h.tmp]

/-! ## The list after the sweep -/

/-- What every removal of a stale profile keeps, the sweep keeps. -/
theorem swept_induction (h : Ordered s) {I : Manager → Prop}
    (hstep : ∀ t, Ordered t → I t → ∀ vp : Profile, vp.mUuid.toString ∈ staleKeys entries s →
      I (t.removeProfile T.platform vp)) {t : Manager} (ht : Ordered t) (hI : I t) (vps : List Profile)
    (hvps : ∀ vp ∈ vps, vp ∈ profilesToRemove s (provisionedUuids ∅ entries)) :
    I (vps.foldl (·.removeProfile T.platform) t) :=
  (foldl_removeProfile (I := fun t => Ordered t ∧ I t) T.platform vps (fun t ht vp hvp =>
    ⟨ht.1.removeProfile T.platform vp,
      hstep t ht.1 ht.2 vp ((removed_iff h).1 ⟨vp, hvps vp hvp, rfl⟩)⟩) ⟨ht, hI⟩).2

/-- The first of the profiles that are removed. -/
theorem profilesToRemove_eq_cons (h : Ordered s) (hstale : staleKeys entries s ≠ ∅) :
    ∃ vp vps, profilesToRemove s (provisionedUuids ∅ entries) = vp :: vps ∧
      vp.mUuid.toString ∈ staleKeys entries s ∧
      swept T entries s = vps.foldl (·.removeProfile T.platform) (s.removeProfile T.platform vp) := by
  obtain ⟨k, hk⟩ := Finset.nonempty_iff_ne_empty.2 hstale
  obtain ⟨vp', hvp', -⟩ := (removed_iff h).2 hk
  obtain ⟨vp, vps, hvps⟩ := List.exists_cons_of_ne_nil (List.ne_nil_of_mem hvp')
  refine ⟨vp, vps, hvps, (removed_iff h).1 ⟨vp, by rw [hvps]; exact List.mem_cons_self, rfl⟩, ?_⟩
  rw [swept, sweep, hvps]
  rfl

/-- While a key is left, the list has the keys of the map. -/
theorem vpnlist_swept (h : Ordered s) (hstale : staleKeys entries s ≠ ∅) (hkept : keptKeys entries s ≠ ∅) :
    (swept T entries s).vpnlist = keptKeys entries s := by
  obtain ⟨vp, vps, hvps, hvp, hswept⟩ := profilesToRemove_eq_cons T h hstale
  have hwritten : ∀ t, Ordered t → keptKeys entries s ⊆ t.keySet → ∀ vp : Profile,
      vp.mUuid.toString ∈ staleKeys entries s → keptKeys entries s ⊆ (t.removeProfile T.platform vp).keySet ∧
        (t.removeProfile T.platform vp).vpnlist = (t.removeProfile T.platform vp).keySet := by
    intro t ht hsub vp hvp
    have hsub' : keptKeys entries s ⊆ (t.removeProfile T.platform vp).keySet := fun k hk =>
      (mem_keySet_removeProfile T.platform vp k).2 ⟨fun heq => (Finset.mem_sdiff.1 hk).2 (heq ▸ hvp), hsub hk⟩
    refine ⟨hsub', ?_⟩
    rw [vpnlist_removeProfile T.platform ht vp, if_neg]
    intro hnone
    rw [hnone] at hsub'
    exact hkept (Finset.subset_empty.1 hsub')
  have hlist := (swept_induction T h (I := fun t => keptKeys entries s ⊆ t.keySet ∧ t.vpnlist = t.keySet)
    (fun t ht hI => hwritten t ht hI.1) (h.removeProfile T.platform vp)
    (hwritten s h Finset.sdiff_subset vp hvp) vps
    (fun vp' hvp' => by rw [hvps]; exact List.mem_cons_of_mem _ hvp')).2
  rw [← hswept, keySet_swept T h] at hlist
  exact hlist

/-- The list is not written when the only profile is removed. -/
theorem vpnlist_swept_one (h : Ordered s) {key : Text} (hone : staleKeys entries s = {key})
    (hkept : keptKeys entries s = ∅) : (swept T entries s).vpnlist = s.vpnlist := by
  have hkeys : s.keySet ⊆ {key} := by
    rw [← hone]
    exact Finset.sdiff_eq_empty_iff_subset.1 hkept
  refine (swept_induction T h (I := fun t => t.keySet ⊆ {key} ∧ t.vpnlist = s.vpnlist) (fun t ht hI vp hvp => ?_)
    h ⟨hkeys, rfl⟩ (profilesToRemove s (provisionedUuids ∅ entries)) fun _ hvp => hvp).2
  rw [hone, Finset.mem_singleton] at hvp
  have hempty : (t.removeProfile T.platform vp).keySet = ∅ := by
    refine Finset.eq_empty_of_forall_notMem fun k hk => ?_
    obtain ⟨hne, hk⟩ := (mem_keySet_removeProfile T.platform vp k).1 hk
    exact hne ((Finset.mem_singleton.1 (hI.1 hk)).trans hvp.symm)
  refine ⟨by rw [hempty]; exact Finset.empty_subset _, ?_⟩
  rw [vpnlist_removeProfile T.platform ht vp, if_pos hempty, hI.2]

/-- When several profiles are removed and none is left, the list has some of their keys. -/
theorem vpnlist_swept_several (h : Ordered s) (hstale : staleKeys entries s ≠ ∅)
    (hkept : keptKeys entries s = ∅) (hseveral : ∀ key, staleKeys entries s ≠ {key}) :
    (swept T entries s).vpnlist ⊆ staleKeys entries s := by
  obtain ⟨vp, vps, hvps, hvp, hswept⟩ := profilesToRemove_eq_cons T h hstale
  have hkeys : s.keySet ⊆ staleKeys entries s := Finset.sdiff_eq_empty_iff_subset.1 hkept
  have hless : ∀ t : Manager, ∀ vp : Profile, (t.removeProfile T.platform vp).keySet ⊆ t.keySet :=
    fun t vp k hk => ((mem_keySet_removeProfile T.platform vp k).1 hk).2
  have hfirst : (s.removeProfile T.platform vp).vpnlist ⊆ staleKeys entries s := by
    rw [vpnlist_removeProfile T.platform h vp, if_neg]
    · exact (hless s vp).trans hkeys
    · intro hnone
      refine hseveral vp.mUuid.toString (Finset.eq_singleton_iff_unique_mem.2 ⟨hvp, fun k hk => ?_⟩)
      by_contra hne
      have hin := (mem_keySet_removeProfile T.platform vp k).2 ⟨hne, (Finset.mem_filter.1 hk).1⟩
      rw [hnone] at hin
      cases hin
  rw [hswept]
  refine (swept_induction T h (I := fun t => t.keySet ⊆ s.keySet ∧ t.vpnlist ⊆ staleKeys entries s)
    (fun t ht hI vp _ => ?_) (h.removeProfile T.platform vp) ⟨hless s vp, hfirst⟩ vps
    fun vp' hvp' => by rw [hvps]; exact List.mem_cons_of_mem _ hvp').2
  refine ⟨(hless t vp).trans hI.1, ?_⟩
  rw [vpnlist_removeProfile T.platform ht vp]
  split_ifs
  · exact hI.2
  · exact ((hless t vp).trans hI.1).trans hkeys

theorem pick_temporary {files : Text → Option Profile} {k : Text} {found : Option Profile} :
    Manager.pick files k found temporaryProfileFilename = found := by
  unfold Manager.pick
  split <;> simp

theorem foldl_pick_congr {files : Text → Option Profile} (files' : Text → Option Profile) {k : Text} {es : List Text}
    (h : ∀ e ∈ es, e ≠ temporaryProfileFilename →
      Manager.loadedEntry files e = Manager.loadedEntry files' e) (found : Option Profile) :
    es.foldl (Manager.pick files k) found = es.foldl (Manager.pick files' k) found := by
  refine List.foldl_ext _ _ found fun a e he => ?_
  by_cases hne : e = temporaryProfileFilename
  · rw [hne, pick_temporary, pick_temporary]
  · unfold Manager.pick
    rw [h e he hne]

/-- Nothing is found where no file can be loaded. -/
theorem foldl_pick_eq_none_iff {files : Text → Option Profile} {es : List Text} :
    (∀ k, es.foldl (Manager.pick files k) none = none) ↔
      ∀ e ∈ es, e ≠ temporaryProfileFilename → Manager.loadedEntry files e = none := by
  constructor
  · intro h e he hne
    by_contra hl
    obtain ⟨vp, hvp⟩ := Option.ne_none_iff_exists'.1 hl
    have hsome := Manager.pick_isSome (k := vp.mUuid.toString) es none (.inr ⟨e, he, hne, vp, hvp, rfl⟩)
    rw [h] at hsome
    cases hsome
  · intro h k
    rw [foldl_pick_congr (fun _ => none) h]
    exact List.foldlRecOn (motive := (· = none)) es _ rfl fun a ha e _ => by
      rw [ha]
      rfl

/-- What is found after the last profile has been removed. -/
theorem emptied_iff (h : Ordered s) (hkept : keptKeys entries s = ∅) :
    (∀ k, ((swept T entries s).loadVPNList T.platform).view k = (swept T entries s).view k) ↔
      ∀ name ∈ (swept T entries s).vpnlist, name ∉ staleKeys entries s → name ≠ temporaryProfileFilename →
        Manager.loadedEntry s.files name = none := by
  simp only [Manager.view_loadVPNList, view_swept_kept T h, hkept, Finset.notMem_empty, if_false]
  rw [foldl_pick_eq_none_iff]
  simp only [Manager.mem_entries, loadedEntry_swept T h]
  constructor
  · intro hall name hname hstale hne
    have hnone := hall name (.inr hname) hne
    rwa [if_neg hstale] at hnone
  · intro hall name hname hne
    split_ifs with hstale
    · rfl
    · exact hall name (hname.resolve_left hne) hstale hne

/-- **The map after the sweep can be loaded again** exactly if the sweep keeps the profiles that stay. -/
theorem swept_reloads_iff (h : Steady T.platform s) :
    (∀ k, ((swept T entries s).loadVPNList T.platform).view k = (swept T entries s).view k) ↔
      SweepKeeps T entries s := by
  have hord := h.ordered
  by_cases hstale : staleKeys entries s = ∅
  · refine iff_of_true (fun k => ?_) (.untouched hstale)
    rw [swept_eq_self T hord hstale, Manager.view_loadVPNList, h.view]
  by_cases hkept : keptKeys entries s = ∅
  · rw [emptied_iff T hord hkept]
    by_cases hone : ∃ key, staleKeys entries s = {key}
    · obtain ⟨key, hkey⟩ := hone
      rw [vpnlist_swept_one T hord hkey hkept, hkey]
      simp only [Finset.mem_singleton]
      constructor
      · refine fun hall => .emptied hkept fun key' hkey' name hname hne => hall name hname ?_
        rwa [← Finset.singleton_inj.1 (hkey'.symm.trans hkey)]
      · rintro (hnone | ⟨hsome, -⟩ | ⟨-, hall⟩)
        · exact absurd hnone hstale
        · exact absurd hkept hsome
        · exact hall key hkey
    · rw [not_exists] at hone
      refine iff_of_true (fun name hname hnot => ?_) (.emptied hkept fun key hkey => absurd hkey (hone key))
      exact absurd (vpnlist_swept_several T hord hstale hkept hone hname) hnot
  · have hloads : ∀ k, ((swept T entries s).loadVPNList T.platform).view k =
        (T.platform.toArray (insert temporaryProfileFilename (keptKeys entries s))).foldl
          (Manager.pick s.files k) none := by
      intro k
      rw [Manager.view_loadVPNList, Manager.entries, vpnlist_swept T hord hstale hkept]
      refine foldl_pick_congr _ (fun e he hne => ?_) none
      rw [Data.mem_toArray, Finset.mem_insert] at he
      rw [loadedEntry_swept T hord, if_neg (Finset.mem_sdiff.1 (he.resolve_left hne)).2]
    simp only [hloads, view_swept_kept T hord]
    constructor
    · exact fun hall => .restored hkept hall
    · rintro (hnone | ⟨-, hall⟩ | ⟨hnone, -⟩)
      · exact absurd hnone hstale
      · exact hall
      · exact absurd hnone hkept

end Entries

end Sweep

section Keeps

variable {T} {entries : List Entry} {s : Manager}

theorem not_mem_staleKeys {e : Entry} (he : e ∈ entries) : e.key ∉ staleKeys entries s :=
  fun hin => (Finset.mem_filter.1 hin).2.2 e he rfl

theorem Same.sweepKeeps {s' : Manager} (h : Same s s') (hs : s.RefsOk) (hs' : s'.RefsOk) :
    SweepKeeps T entries s' ↔ SweepKeeps T entries s := by
  have hkeys : s'.keySet = s.keySet := by
    ext k
    rw [← hs'.isSome_view, ← hs.isSome_view, h.view]
  have hstale : staleKeys entries s' = staleKeys entries s := by
    simp only [staleKeys, hkeys, h.view]
  have hkept : keptKeys entries s' = keptKeys entries s := by rw [keptKeys, hkeys, hstale, keptKeys]
  constructor
  · rintro (hnone | ⟨hsome, hall⟩ | ⟨hnone, hall⟩)
    · exact .untouched (hstale ▸ hnone)
    · refine .restored (hkept ▸ hsome) fun k => ?_
      have hk := hall k
      simp only [hkept, h.files, h.view] at hk
      exact hk
    · refine .emptied (hkept ▸ hnone) ?_
      rwa [hstale, h.files, h.vpnlist] at hall
  · rintro (hnone | ⟨hsome, hall⟩ | ⟨hnone, hall⟩)
    · exact .untouched (hstale.trans hnone)
    · refine .restored (by rwa [hkept]) fun k => ?_
      simp only [hkept, h.files, h.view]
      exact hall k
    · refine .emptied (hkept.trans hnone) ?_
      rwa [hstale, h.files, h.vpnlist]

end Keeps

end VpnCore.Profiles
