import VpnCore.Lib.Utf8
import VpnCore.Profiles.Model

/-!
# VpnCore.Profiles.Load — what `loadVPNList` finds

The map that `loadVPNList` builds depends on the stored list and the files only.  Under a key it has
the last profile read whose UUID, restored from `uuidStr`, is that key (`view_loadVPNList`); the name
of the file plays no part in it.
-/

namespace VpnCore.Profiles

open Config (Text Thrown)
open Data (Platform DefaultDataStore)

/-! ## UUID texts -/

theorem UUID.mem_toString (u : UUID) {c : Char} (hc : c ∈ u.toString) :
    c = '-' ∨ isHexDigit c = true := by
  have h := u.isUuid
  simp only [isUuidText, Bool.and_eq_true, beq_iff_eq, List.all_eq_true] at h
  obtain ⟨hlen, hall⟩ := h
  have hmem : c ∈ (uuidShape.zip u.toString).map Prod.snd := by
    rwa [List.map_snd_zip hlen.le]
  obtain ⟨⟨s, c'⟩, hsc, rfl⟩ := List.mem_map.1 hmem
  have := hall _ hsc
  by_cases hs : s = '-'
  · left; simpa [hs] using this
  · right; simpa [hs] using this

theorem UUID.length_toString (u : UUID) : u.toString.length = 36 := by
  have h := u.isUuid
  simp only [isUuidText, Bool.and_eq_true, beq_iff_eq] at h
  exact h.1

theorem UUID.ext_toString {u v : UUID} (h : u.toString = v.toString) : u = v := by
  cases u; cases v; cases h; rfl

/-- A UUID can be an element of a stored set. -/
theorem UUID.toString_ok (u : UUID) :
    u.toString ≠ [] ∧ ¬ Data.stringSetLineTag <:+: u.toString := by
  constructor
  · intro h
    have := u.length_toString
    rw [h] at this
    exact absurd this (by decide)
  · intro h
    have hmem : '<' ∈ u.toString := h.subset (by decide)
    rcases u.mem_toString hmem with h | h
    · exact absurd h (by decide)
    · exact absurd h (by decide)

theorem UUID.toString_ne_temporary (u : UUID) : u.toString ≠ temporaryProfileFilename := by
  intro h
  have := u.length_toString
  rw [h] at this
  exact absurd this (by decide)

theorem toLower_of_isHexDigit {c : Char} (h : c = '-' ∨ isHexDigit c = true) : c.toLower = c := by
  rcases h with rfl | h
  · rfl
  · have hlt : c.toNat < 128 := by
      simp only [isHexDigit, Config.isDigit, Bool.or_eq_true, Bool.and_eq_true, decide_eq_true_eq,
        Char.le_def, UInt32.le_iff_toNat_le] at h
      rcases h with h | h
      · exact lt_of_le_of_lt h.2 (by decide)
      · exact lt_of_le_of_lt h.2 (by decide)
    exact Lib.ascii_induction (P := fun c => isHexDigit c = true → c.toLower = c) (by decide) hlt h

theorem toLowerCase_toString (u : UUID) : toLowerCase u.toString = u.toString := by
  refine (List.map_congr_left fun c hc => ?_).trans (List.map_id u.toString)
  exact toLower_of_isHexDigit (u.mem_toString hc)

theorem UUID.fromString_of_toString (u : UUID) : UUID.fromString u.toString = .ok u := by
  have h : isUuidText (toLowerCase u.toString) = true := by rw [toLowerCase_toString, u.isUuid]
  rw [UUID.fromString, dif_pos h]
  exact congrArg Except.ok (UUID.ext_toString (toLowerCase_toString u))

/-! ## A profile through its file -/

theorem resetProxyType_configProType (c : Config.Connection) :
    resetProxyType (configProType c) = configProType c := by
  obtain ⟨name, port, udp, conf, use, en, time, proxy, pname, pport, auth, user, pass, pro⟩ := c
  cases proxy <;> rfl

theorem Profile.resetConnections_setConnections (p : Profile) :
    p.setConnections.resetConnections = p.setConnections := by
  simp only [Profile.setConnections, Profile.resetConnections, Profile.mapConnections, List.map_map]
  have h : resetProxyType ∘ configProType = configProType := funext resetProxyType_configProType
  rw [h]

theorem Profile.upgradeProfile_current {p : Profile} (h : p.mProfileVersion = currentProfileVersion) :
    p.upgradeProfile = p := by
  obtain ⟨uuid, str, version, pv, creator, hash, editable, port, udp, dis, bypass, block, settings⟩ := p
  cases h
  rfl

/-- A profile that carries its UUID in both fields is read back as it was written. -/
theorem Profile.loaded_saved {p : Profile} (hstr : p.uuidStr = p.mUuid.toString)
    (hv : p.mProfileVersion = currentProfileVersion) : p.saved.loaded = .ok p.saved := by
  have hset : p.saved.setmUuid = .ok p.saved := by
    have hne : p.saved.uuidStr.isEmpty = false := by
      rw [List.isEmpty_eq_false_iff]
      show p.uuidStr ≠ []
      rw [hstr]
      exact p.mUuid.toString_ok.1
    have hfrom : UUID.fromString p.saved.uuidStr = .ok p.mUuid := by
      show UUID.fromString p.uuidStr = _
      rw [hstr, UUID.fromString_of_toString]
    unfold Profile.setmUuid
    rw [hne, hfrom]
    rfl
  have hreset : p.saved.resetConnections = p.saved := Profile.resetConnections_setConnections _
  have hup : p.saved.upgradeProfile = p.saved := Profile.upgradeProfile_current hv
  unfold Profile.loaded
  rw [hset]
  show Except.ok (p.saved.resetConnections.upgradeProfile) = _
  rw [hreset, hup]

/-! ## The steps of the manager -/

namespace Manager

variable {F : Type} (P : Platform F)

/-- Every reference of the map is an object. -/
def RefsOk (s : Manager) : Prop := ∀ k o, s.profiles.lookup k = some o → o < s.heap.length

theorem RefsOk.isSome_view {s : Manager} (h : s.RefsOk) (k : Text) :
    (s.view k).isSome ↔ k ∈ s.keySet := by
  rw [keySet, List.mem_toFinset, ← AList.mem_keys, ← AList.lookup_isSome, view]
  cases hk : s.profiles.lookup k with
  | none => simp
  | some o => simpa using h k o hk

/-- The keys of the map are UUIDs. -/
def KeysOk (s : Manager) : Prop := ∀ k ∈ s.keySet, ∃ u : UUID, k = u.toString

theorem KeysOk.ok {s : Manager} (h : s.KeysOk) :
    ∀ k ∈ s.keySet, k ≠ [] ∧ ¬ Data.stringSetLineTag <:+: k := by
  intro k hk
  obtain ⟨u, rfl⟩ := h k hk
  exact u.toString_ok

/-- A list without keys is not saved. -/
theorem vpnlist_saveProfileList {s : Manager} (h : s.KeysOk) :
    (s.saveProfileList P).vpnlist = if s.keySet = ∅ then s.vpnlist else s.keySet := by
  unfold saveProfileList vpnlist
  rw [Data.getStringSet_putInt, Data.getStringSet_putStringSet P s.store vpnlistKey h.ok]

@[simp] theorem keySet_addProfile (s : Manager) (o : ℕ) (p : Profile) :
    (s.addProfile o p).keySet = insert p.mUuid.toString s.keySet := by
  ext k
  rw [keySet, List.mem_toFinset, ← AList.mem_keys, addProfile, AList.mem_insert, Finset.mem_insert,
    keySet, List.mem_toFinset, AList.mem_keys]

theorem fileName_injective {a b : Text} (h : fileName a = fileName b) : a = b :=
  (List.append_inj' h rfl).1

/-! ## `loadVPNList` -/

theorem loadEntry_files (s : Manager) (e : Text) : (s.loadEntry e).files = s.files := by
  unfold loadEntry
  split
  · rfl
  · split <;> rfl

theorem loadEntry_store (s : Manager) (e : Text) : (s.loadEntry e).store = s.store := by
  unfold loadEntry
  split
  · rfl
  · split <;> rfl

theorem foldl_loadEntry_files (es : List Text) (s : Manager) :
    (es.foldl loadEntry s).files = s.files ∧ (es.foldl loadEntry s).store = s.store := by
  induction es generalizing s with
  | nil => exact ⟨rfl, rfl⟩
  | cons e es ih =>
    obtain ⟨h1, h2⟩ := ih (s.loadEntry e)
    exact ⟨h1.trans (s.loadEntry_files e), h2.trans (s.loadEntry_store e)⟩

@[simp] theorem loadVPNList_files (s : Manager) : (s.loadVPNList P).files = s.files :=
  (foldl_loadEntry_files _ _).1

@[simp] theorem loadVPNList_vpnlist (s : Manager) : (s.loadVPNList P).vpnlist = s.vpnlist := by
  unfold vpnlist
  rw [show (s.loadVPNList P).store = s.store from (foldl_loadEntry_files _ _).2]

/-- What an entry adds under the key `k`. -/
def pick (files : Text → Option Profile) (k : Text) (found : Option Profile) (e : Text) :
    Option Profile :=
  match loadedEntry files e with
  | some vp => if e ≠ temporaryProfileFilename ∧ vp.mUuid.toString = k then some vp else found
  | none => found

theorem loadEntry_temporary {s : Manager} {vp : Profile}
    (hl : loadedEntry s.files temporaryProfileFilename = some vp) :
    s.loadEntry temporaryProfileFilename =
      { s.allocate vp with tmpprofile := some s.heap.length } := by
  rw [loadEntry, hl]
  exact if_pos rfl

theorem loadEntry_profile {s : Manager} {e : Text} {vp : Profile}
    (hl : loadedEntry s.files e = some vp) (he : e ≠ temporaryProfileFilename) :
    s.loadEntry e = (s.allocate vp).addProfile s.heap.length vp := by
  rw [loadEntry, hl]
  exact if_neg he

/-- A new object changes nothing that the map refers to. -/
theorem RefsOk.allocate {s : Manager} (h : s.RefsOk) (p : Profile) :
    (s.allocate p).RefsOk ∧ ∀ k, (s.allocate p).view k = s.view k := by
  refine ⟨fun k o hk => ?_, fun k => ?_⟩
  · have := h k o hk
    simp only [Manager.allocate, List.length_append, List.length_singleton]
    omega
  · unfold view
    cases hk : s.profiles.lookup k with
    | none => simp [Manager.allocate, hk]
    | some o =>
      simp only [Manager.allocate, hk, Option.bind_some]
      exact List.getElem?_append_left (h k o hk)

theorem RefsOk.addProfile {s : Manager} (h : s.RefsOk) {o : ℕ} {p : Profile}
    (ho : s.heap[o]? = some p) :
    (s.addProfile o p).RefsOk ∧
      ∀ k, (s.addProfile o p).view k = if p.mUuid.toString = k then some p else s.view k := by
  have hlt : o < s.heap.length := (List.getElem?_eq_some_iff.1 ho).1
  refine ⟨fun k o' hk => ?_, fun k => ?_⟩
  · by_cases hkey : k = p.mUuid.toString
    · subst hkey
      rw [Manager.addProfile, AList.lookup_insert] at hk
      cases hk
      exact hlt
    · rw [Manager.addProfile, AList.lookup_insert_ne hkey] at hk
      exact h k o' hk
  · by_cases hkey : p.mUuid.toString = k
    · subst hkey
      rw [if_pos rfl, view, Manager.addProfile, AList.lookup_insert]
      exact ho
    · rw [if_neg hkey, view, Manager.addProfile, AList.lookup_insert_ne (Ne.symm hkey)]
      rfl

theorem RefsOk.loadEntry {s : Manager} (h : s.RefsOk) (e : Text) :
    (s.loadEntry e).RefsOk ∧ ∀ k, (s.loadEntry e).view k = pick s.files k (s.view k) e := by
  cases hl : loadedEntry s.files e with
  | none =>
    have heq : s.loadEntry e = s := by rw [Manager.loadEntry, hl]
    rw [heq]
    exact ⟨h, fun k => by simp [pick, hl]⟩
  | some vp =>
    obtain ⟨hrefs, hview⟩ := h.allocate vp
    by_cases he : e = temporaryProfileFilename
    · subst he
      rw [loadEntry_temporary hl]
      refine ⟨hrefs, fun k => ?_⟩
      have hpick : pick s.files k (s.view k) temporaryProfileFilename = s.view k := by
        simp [pick, hl]
      rw [hpick]
      exact hview k
    · have hnew : (s.allocate vp).heap[s.heap.length]? = some vp := by simp [Manager.allocate]
      obtain ⟨hrefs', hview'⟩ := hrefs.addProfile hnew
      rw [loadEntry_profile hl he]
      refine ⟨hrefs', fun k => ?_⟩
      rw [hview' k, hview k]
      simp [pick, hl, he]

theorem foldl_loadEntry (es : List Text) :
    ∀ s : Manager, s.RefsOk → (es.foldl Manager.loadEntry s).RefsOk ∧
      ∀ k, (es.foldl Manager.loadEntry s).view k = es.foldl (pick s.files k) (s.view k) := by
  induction es with
  | nil => exact fun s h => ⟨h, fun _ => rfl⟩
  | cons e es ih =>
    intro s h
    obtain ⟨hrefs, hview⟩ := h.loadEntry e
    obtain ⟨hrefs', hview'⟩ := ih (s.loadEntry e) hrefs
    refine ⟨hrefs', fun k => ?_⟩
    rw [List.foldl_cons, hview' k, hview k, s.loadEntry_files e, List.foldl_cons]

/-- The entries that `loadVPNList` reads, in order. -/
def entries (s : Manager) : List Text := P.toArray (insert temporaryProfileFilename s.vpnlist)

theorem mem_entries (s : Manager) {e : Text} :
    e ∈ s.entries P ↔ e = temporaryProfileFilename ∨ e ∈ s.vpnlist := by
  rw [entries, Data.mem_toArray, Finset.mem_insert]

/-- **The map after `loadVPNList`.** -/
theorem view_loadVPNList (s : Manager) (k : Text) :
    (s.loadVPNList P).view k = (s.entries P).foldl (pick s.files k) none := by
  have h : ({ s with profiles := ∅ } : Manager).RefsOk := fun k o hk => by
    rw [AList.lookup_empty] at hk
    cases hk
  exact (foldl_loadEntry (s.entries P) { s with profiles := ∅ } h).2 k

theorem loadVPNList_refsOk (s : Manager) : (s.loadVPNList P).RefsOk := by
  have h : ({ s with profiles := ∅ } : Manager).RefsOk := fun k o hk => by
    rw [AList.lookup_empty] at hk
    cases hk
  exact (foldl_loadEntry (s.entries P) { s with profiles := ∅ } h).1

/-- An entry that loads is found under its key. -/
theorem pick_isSome {files : Text → Option Profile} {k : Text} :
    ∀ (es : List Text) (found : Option Profile),
      (found.isSome ∨ ∃ e ∈ es, e ≠ temporaryProfileFilename ∧
        ∃ vp, loadedEntry files e = some vp ∧ vp.mUuid.toString = k) →
      (es.foldl (pick files k) found).isSome
  | [], found, h => by
    rcases h with h | ⟨e, he, -⟩
    · exact h
    · cases he
  | e :: es, found, h => by
    refine pick_isSome es (pick files k found e) ?_
    have hpick : found.isSome → (pick files k found e).isSome := by
      intro hf
      unfold pick
      split
      · split
        · rfl
        · exact hf
      · exact hf
    rcases h with h | ⟨e', he', hne, vp, hvp, hk⟩
    · exact .inl (hpick h)
    · rcases List.mem_cons.1 he' with rfl | he'
      · left
        simp [pick, hvp, hne, hk]
      · exact .inr ⟨e', he', hne, vp, hvp, hk⟩

/-- Where every entry loads under its own name, the map has the entries of the list. -/
theorem pick_aligned {files : Text → Option Profile} {k : Text} :
    ∀ (es : List Text) (found : Option Profile),
      (∀ e ∈ es, e ≠ temporaryProfileFilename → ∀ vp, loadedEntry files e = some vp →
        vp.mUuid.toString = e) →
      (found = none ∨ found = loadedEntry files k) →
      es.foldl (pick files k) found =
        if k ∈ es ∧ k ≠ temporaryProfileFilename then loadedEntry files k else found
  | [], found, _, _ => by simp
  | e :: es, found, hal, hfound => by
    have hrest : ∀ e ∈ es, e ≠ temporaryProfileFilename → ∀ vp, loadedEntry files e = some vp →
        vp.mUuid.toString = e := fun e' he' => hal e' (List.mem_cons_of_mem e he')
    have hpick : pick files k found e =
        if k = e ∧ k ≠ temporaryProfileFilename then loadedEntry files k else found := by
      unfold pick
      cases hl : loadedEntry files e with
      | none =>
        by_cases hke : k = e
        · subst hke
          rcases hfound with rfl | rfl <;> simp [hl]
        · simp [hke]
      | some vp =>
        by_cases he : e = temporaryProfileFilename
        · simp [he]
        · have hvp := hal e List.mem_cons_self he vp hl
          by_cases hke : k = e
          · subst hke
            simp [he, hvp, hl]
          · simp [he, hvp, hke, Ne.symm hke]
    have hfound' : pick files k found e = none ∨ pick files k found e = loadedEntry files k := by
      rw [hpick]
      split
      · exact .inr rfl
      · exact hfound
    rw [List.foldl_cons, pick_aligned es _ hrest hfound', hpick]
    by_cases hke : k = e
    · subst hke
      by_cases hk : k = temporaryProfileFilename
      · simp [hk]
      · simp [hk]
    · simp [hke]

end Manager

end VpnCore.Profiles
