import VpnCore.Profiles.Reload

/-!
# VpnCore.Profiles.Provision — what provisioning converges to

A managed profile is imported under a UUID that the constructor drew and is then given the UUID of its
entry (`setUUID`); in storage it keeps the drawn one (`Drifted`).  The main theorem says that
`applyRestrictions` converges exactly when there is nothing to import and the profiles that stay can be
loaded again after the others have been removed.
-/

namespace VpnCore.Profiles

open Config (Text Thrown)
open Data (Platform)

variable {F : Type} (T : Tools F)

/-! ## Convergence -/

/-- The managed profiles are exactly one for each entry, with its UUID and the hash of its
configuration. -/
structure Provisioned (entries : List Entry) (s : Manager) : Prop where
  managed : ∀ k p, s.view k = some p → p.managed = true → p.mUuid.toString = k ∧
    ∃ e ∈ entries, e.key = k ∧ p.importedProfileHash = some (T.hashConfig e.ovpn)
  entry : ∀ e ∈ entries, ∃ p, s.view e.key = some p ∧ p.managed = true ∧
    p.importedProfileHash = some (T.hashConfig e.ovpn)

/-- Applying the restrictions to `s` gives the profiles of `s₀`, whatever UUIDs are drawn. -/
def Idle (r : Restrictions) (s₀ s : Manager) : Prop :=
  ∀ draw, ∃ s', applyRestrictions T draw (some r) s = .ok s' ∧ Same s₀ s'

/-- `s'` is what provisioning is to make of `s`: the profiles of the bundle and the unmanaged ones, which
neither a second application changes nor one after loading the list again. -/
structure Converged (entries : List Entry) (r : Restrictions) (s s' : Manager) : Prop where
  provisioned : Provisioned T entries s'
  reloaded : Provisioned T entries (s'.loadVPNList T.platform)
  unmanaged : ∀ k, s'.unmanaged k = s.unmanaged k
  reloadedUnmanaged : ∀ k, (s'.loadVPNList T.platform).unmanaged k = s.unmanaged k
  idle : Idle T r s' s'
  reloadedIdle : Idle T r s' (s'.loadVPNList T.platform)

/-- Every entry is found with its hash, and its managed profile is in the map. -/
def NothingToImport (entries : List Entry) (s : Manager) : Prop :=
  ∀ e ∈ entries,
    (∃ p, s.find e.uuid = some p ∧ p.importedProfileHash = some (T.hashConfig e.ovpn)) ∧
    ∃ p, s.view e.uuid = some p ∧ p.managed = true ∧
      p.importedProfileHash = some (T.hashConfig e.ovpn)

/-! ## Importing an entry -/

/-- The entry is listed, and its file is loaded under the UUID that was drawn for it. -/
structure Drifted (draw : Text → UUID) (e : Entry) (s : Manager) : Prop where
  ordered : Ordered s
  listed : e.key ∈ s.vpnlist
  loads : ∃ vp, Manager.loadedEntry s.files e.key = some vp ∧ vp.mUuid = draw e.uuid

/-- The entry's configuration imports without error. -/
def Imports (e : Entry) : Prop := ∃ settings, Config.importProfile T.order e.ovpn = .ok settings

theorem managedProfile_uuid (config : Text) (uuid draw : UUID) (name : Text)
    (settings : Config.VpnProfile) (old : Option Profile) :
    (managedProfile T config uuid draw name settings old).mUuid = uuid ∧
      (managedProfile T config uuid draw name settings old).uuidStr = draw.toString := by
  cases old <;> exact ⟨rfl, rfl⟩

/-- The stored profile is loaded under the UUID in `uuidStr`. -/
theorem loaded_saved_uuid {p : Profile} {u : UUID} (h : p.uuidStr = u.toString) :
    ∃ q, p.saved.loaded = .ok q ∧ q.mUuid = u := by
  have hne : p.saved.uuidStr.isEmpty = false := by
    rw [List.isEmpty_eq_false_iff]
    show p.uuidStr ≠ []
    rw [h]
    exact u.toString_ok.1
  have hfrom : UUID.fromString p.saved.uuidStr = .ok u := by
    show UUID.fromString p.uuidStr = _
    rw [h, UUID.fromString_of_toString]
  have hset : p.saved.setmUuid = .ok { p.saved with mUuid := u } := by
    unfold Profile.setmUuid
    rw [hne, hfrom]
    rfl
  refine ⟨({ p.saved with mUuid := u }.resetConnections).upgradeProfile, ?_, ?_⟩
  · rw [Profile.loaded, hset]
    rfl
  · simp only [Profile.upgradeProfile]
    split_ifs <;> rfl

theorem Ordered.saveProfileList {s : Manager} (h : Ordered s) (P : Platform F) :
    Ordered (s.saveProfileList P) :=
  ⟨h.refs, h.keys⟩

theorem Ordered.allocate {s : Manager} (h : Ordered s) (p : Profile) : Ordered (s.allocate p) := by
  obtain ⟨hrefs, hview⟩ := h.refs.allocate p
  exact ⟨hrefs, fun k q hq => h.keys k q (hview k ▸ hq)⟩

theorem Ordered.addProfile {s : Manager} (h : Ordered s) {o : ℕ} {p : Profile}
    (ho : s.heap[o]? = some p) : Ordered (s.addProfile o p) := by
  obtain ⟨hrefs, hview⟩ := h.refs.addProfile ho
  refine ⟨hrefs, fun k q hq => ?_⟩
  rw [hview k] at hq
  split at hq
  · next hk => cases hq; exact hk
  · exact h.keys k q hq

theorem Ordered.saveProfile {s : Manager} (h : Ordered s) {o : ℕ} {p : Profile}
    (ho : s.heap[o]? = some p) : Ordered (s.saveProfile o p) := by
  have hlt : o < s.heap.length := (List.getElem?_eq_some_iff.1 ho).1
  refine ⟨fun k o' hk => ?_, fun k q hq => ?_⟩
  · rw [show (s.saveProfile o p).heap.length = s.heap.length from List.length_set]
    exact h.refs k o' hk
  · obtain ⟨o', hk, hq⟩ := Option.bind_eq_some_iff.1 hq
    have hkeys : ∀ q, s.heap[o']? = some q → q.mUuid.toString = k := fun q hq =>
      h.keys k q (Option.bind_eq_some_iff.2 ⟨o', hk, hq⟩)
    by_cases heq : o' = o
    · -- the stored profile has the UUID of the object
      subst heq
      rw [show (s.saveProfile o' p).heap[o']? = some p.saved from List.getElem?_set_self hlt] at hq
      cases hq
      exact hkeys p ho
    · rw [show (s.saveProfile o p).heap[o']? = s.heap[o']? from List.getElem?_set_ne (Ne.symm heq)] at hq
      exact hkeys q hq

theorem addManaged_drifts {s : Manager} (h : Ordered s) (draw : Text → UUID) {e : Entry}
    (himp : Imports T e) (old : Option Profile) :
    ∃ s', addManaged T s e.ovpn e.uuid e.name (draw e.uuid) old = .ok s' ∧ Drifted draw e s' := by
  obtain ⟨settings, hsettings⟩ := himp
  obtain ⟨huuid, hstr⟩ := managedProfile_uuid T e.ovpn e.id (draw e.uuid) e.name settings old
  set vp := managedProfile T e.ovpn e.id (draw e.uuid) e.name settings old
  -- the manager before the list is saved
  have hnew : (s.allocate vp).heap[s.heap.length]? = some vp := by simp [Manager.allocate]
  set s₁ := (s.allocate vp).addProfile s.heap.length vp with hs₁
  set s₂ := s₁.saveProfile s.heap.length vp
  have hord₂ : Ordered s₂ := ((h.allocate vp).addProfile hnew).saveProfile hnew
  have hkey : e.key ∈ s₂.keySet := by
    rw [show s₂.keySet = s₁.keySet from rfl, hs₁, Manager.keySet_addProfile, huuid]
    exact Finset.mem_insert_self _ _
  refine ⟨s₂.saveProfileList T.platform, ?_, hord₂.saveProfileList T.platform, ?_, ?_⟩
  · rw [addManaged, hsettings, e.fromString_uuid]
    rfl
  · rw [Manager.vpnlist_saveProfileList T.platform hord₂.keysOk,
      if_neg (Finset.ne_empty_of_mem hkey)]
    exact hkey
  · obtain ⟨q, hq, hqu⟩ := loaded_saved_uuid hstr
    refine ⟨q, ?_, hqu⟩
    have hfile : (s₂.saveProfileList T.platform).files (fileName e.key) = some vp.saved := by
      show Function.update s₁.files (fileName vp.mUuid.toString) (some vp.saved) (fileName e.key) = _
      rw [huuid]
      exact Function.update_self _ _ _
    rw [Manager.loadedEntry, hfile, Option.bind_some, hq]
    rfl

/-! ## The loop over the entries -/

/-- The lookup of the entry gives a profile with its hash. -/
def Found (s : Manager) (e : Entry) : Prop :=
  ∃ p, s.find e.uuid = some p ∧ p.importedProfileHash = some (T.hashConfig e.ovpn)

section Loop

variable {T} {draw : Text → UUID} {s : Manager}

theorem provision_found {uuids : Finset Text} {e : Entry} {p : Profile}
    (hp : (s.get T.platform 0 e.uuid 10).2 = some p)
    (hhash : p.importedProfileHash = some (T.hashConfig e.ovpn)) :
    provision T draw (s, uuids) e.parcel =
      .ok ((s.get T.platform 0 e.uuid 10).1, insert e.key uuids) := by
  unfold provision Entry.parcel
  simp only [hp, if_pos hhash, e.toLowerCase_uuid]
  rfl

theorem provision_missing (draw : Text → UUID) (uuids : Finset Text) {e : Entry}
    (hmiss : ∀ p, (s.get T.platform 0 e.uuid 10).2 = some p →
      p.importedProfileHash ≠ some (T.hashConfig e.ovpn)) :
    ∃ old, provision T draw (s, uuids) e.parcel =
      (addManaged T (s.get T.platform 0 e.uuid 10).1 e.ovpn e.uuid e.name (draw e.uuid) old).map
        fun s' => (s', insert e.key uuids) := by
  unfold provision Entry.parcel
  cases hp : (s.get T.platform 0 e.uuid 10).2 with
  | none =>
    refine ⟨none, ?_⟩
    simp only [hp, e.toLowerCase_uuid]
    rfl
  | some p =>
    refine ⟨some p, ?_⟩
    simp only [hp, if_neg (hmiss p hp), e.toLowerCase_uuid]
    rfl

/-- From a drifted state on, some entry stays drifted. -/
theorem Drifted.provision (es : List Entry) :
    ∀ {s : Manager} {e₀ : Entry} (uuids : Finset Text), Drifted draw e₀ s →
      (∀ e ∈ es, Imports T e) →
      ∃ s', (es.map Entry.parcel).foldlM (provision T draw) (s, uuids)
          = .ok (s', provisionedUuids uuids es) ∧ ∃ e, (e = e₀ ∨ e ∈ es) ∧ Drifted draw e s' := by
  induction es with
  | nil => exact fun uuids h _ => ⟨_, rfl, _, .inl rfl, h⟩
  | cons e es ih =>
    intro s e₀ uuids h himp
    obtain ⟨hord, hfiles, hlist⟩ := h.ordered.get T.platform 0 e.uuid 10
    have hkeep : Drifted draw e₀ (s.get T.platform 0 e.uuid 10).1 :=
      ⟨hord, hlist ▸ h.listed, hfiles ▸ h.loads⟩
    have himp' : ∀ e ∈ es, Imports T e := fun e' he' => himp e' (List.mem_cons_of_mem e he')
    by_cases hfound : ∃ p, (s.get T.platform 0 e.uuid 10).2 = some p ∧
        p.importedProfileHash = some (T.hashConfig e.ovpn)
    · obtain ⟨p, hp, hhash⟩ := hfound
      obtain ⟨s', hs', e', he', hdrift⟩ := ih (insert e.key uuids) hkeep himp'
      refine ⟨s', ?_, e', he'.imp_right (List.mem_cons_of_mem e), hdrift⟩
      rw [List.map_cons, List.foldlM_cons, provision_found hp hhash]
      exact hs'
    · have hmiss : ∀ p, (s.get T.platform 0 e.uuid 10).2 = some p →
          p.importedProfileHash ≠ some (T.hashConfig e.ovpn) :=
        fun p hp hhash => hfound ⟨p, hp, hhash⟩
      obtain ⟨old, hprov⟩ := provision_missing draw uuids hmiss
      obtain ⟨s₁, hs₁, hdrift₁⟩ :=
        addManaged_drifts T hord draw (himp e List.mem_cons_self) old
      obtain ⟨s', hs', e', he', hdrift⟩ := ih (insert e.key uuids) hdrift₁ himp'
      refine ⟨s', ?_, e', ?_, hdrift⟩
      · rw [List.map_cons, List.foldlM_cons, hprov, hs₁]
        exact hs'
      · rcases he' with rfl | he'
        · exact .inr List.mem_cons_self
        · exact .inr (List.mem_cons_of_mem e he')

/-- If all entries are found, nothing is imported. -/
theorem Steady.provision_found {s : Manager} (h : Steady T.platform s) (draw : Text → UUID) (es : List Entry)
    (uuids : Finset Text) (hfound : ∀ e ∈ es, Found T s e) :
    ∃ s', (es.map Entry.parcel).foldlM (provision T draw) (s, uuids)
        = .ok (s', provisionedUuids uuids es) ∧ Steady T.platform s' ∧ Same s s' := by
  induction es generalizing s uuids with
  | nil => exact ⟨_, rfl, h, Same.refl _⟩
  | cons e es ih =>
    obtain ⟨hsteady, hsame, hget⟩ := h.get T.platform 0 e.uuid 10
    obtain ⟨p, hp, hhash⟩ := hfound e List.mem_cons_self
    have hfound' : ∀ e' ∈ es, Found T (s.get T.platform 0 e.uuid 10).1 e' := by
      intro e' he'
      obtain ⟨p', hp', hhash'⟩ := hfound e' (List.mem_cons_of_mem e he')
      exact ⟨p', (hsame.find e'.uuid).trans hp', hhash'⟩
    obtain ⟨s', hs', hst', hsame'⟩ := ih hsteady (insert e.key uuids) hfound'
    refine ⟨s', ?_, hst', hsame.trans hsame'⟩
    rw [List.map_cons, List.foldlM_cons, Profiles.provision_found (hget.trans hp) hhash]
    exact hs'

/-- If an entry is not found, an entry drifts. -/
theorem Steady.provision_drifts {s : Manager} (h : Steady T.platform s) (draw : Text → UUID) (es : List Entry)
    (uuids : Finset Text) (himp : ∀ e ∈ es, Imports T e) (hnot : ¬ ∀ e ∈ es, Found T s e) :
    ∃ s', (es.map Entry.parcel).foldlM (provision T draw) (s, uuids)
        = .ok (s', provisionedUuids uuids es) ∧ ∃ e ∈ es, Drifted draw e s' := by
  induction es generalizing s uuids with
  | nil => exact absurd (fun e he => by cases he) hnot
  | cons e es ih =>
    obtain ⟨hsteady, hsame, hget⟩ := h.get T.platform 0 e.uuid 10
    have himp' : ∀ e ∈ es, Imports T e := fun e' he' => himp e' (List.mem_cons_of_mem e he')
    by_cases hfound : Found T s e
    · obtain ⟨p, hp, hhash⟩ := hfound
      have hnot' : ¬ ∀ e' ∈ es, Found T (s.get T.platform 0 e.uuid 10).1 e' := by
        intro hall
        refine hnot fun e' he' => ?_
        rcases List.mem_cons.1 he' with rfl | he'
        · exact ⟨p, hp, hhash⟩
        · obtain ⟨p', hp', hhash'⟩ := hall e' he'
          exact ⟨p', (hsame.find e'.uuid).symm.trans hp', hhash'⟩
      obtain ⟨s', hs', e', he', hdrift⟩ := ih hsteady (insert e.key uuids) himp' hnot'
      refine ⟨s', ?_, e', List.mem_cons_of_mem e he', hdrift⟩
      rw [List.map_cons, List.foldlM_cons, Profiles.provision_found (hget.trans hp) hhash]
      exact hs'
    · have hmiss : ∀ p, (s.get T.platform 0 e.uuid 10).2 = some p →
          p.importedProfileHash ≠ some (T.hashConfig e.ovpn) :=
        fun p hp hhash => hfound ⟨p, hget.symm.trans hp, hhash⟩
      obtain ⟨old, hprov⟩ := provision_missing draw uuids hmiss
      obtain ⟨s₁, hs₁, hdrift₁⟩ :=
        addManaged_drifts T hsteady.ordered draw (himp e List.mem_cons_self) old
      obtain ⟨s', hs', e', he', hdrift⟩ := hdrift₁.provision es (insert e.key uuids) himp'
      refine ⟨s', ?_, e', ?_, hdrift⟩
      · rw [List.map_cons, List.foldlM_cons, hprov, hs₁]
        exact hs'
      · rcases he' with rfl | he'
        · exact List.mem_cons_self
        · exact List.mem_cons_of_mem e he'

end Loop

/-! ## The theorem -/

section Main

variable {T} {entries : List Entry} {version : Text} {s : Manager}

theorem applyRestrictions_eq (hversion : Config.parseInt version = .ok configVersion)
    {draw : Text → UUID} {s' : Manager} {uuids : Finset Text}
    (h : (entries.map Entry.parcel).foldlM (provision T draw) (s, ∅) = .ok (s', uuids)) :
    applyRestrictions T draw (some (restrictionsOf version entries)) s = .ok (sweep T s' uuids) := by
  have hv : Config.parseInt ((restrictionsOf version entries).version.getD "(not set)".toList)
      = .ok configVersion := hversion
  rw [applyRestrictions]
  simp only [hv, if_true]
  rw [show (restrictionsOf version entries).profileList = some (entries.map Entry.parcel) from rfl]
  simp only [h]
  rfl

/-- If all entries are found, only the sweep is left. -/
theorem Steady.apply_eq (h : Steady T.platform s)
    (hversion : Config.parseInt version = .ok configVersion) (hfound : ∀ e ∈ entries, Found T s e)
    (draw : Text → UUID) :
    ∃ s', applyRestrictions T draw (some (restrictionsOf version entries)) s
        = .ok (swept T entries s') ∧ Steady T.platform s' ∧ Same s s' := by
  obtain ⟨s', hs', hsteady, hsame⟩ := h.provision_found draw entries ∅ hfound
  exact ⟨s', applyRestrictions_eq hversion hs', hsteady, hsame⟩

/-- Provisioned profiles that are found are left alone. -/
theorem Steady.idle (h : Steady T.platform s) (hversion : Config.parseInt version = .ok configVersion)
    (hfound : ∀ e ∈ entries, Found T s e) (hprov : Provisioned T entries s) :
    Idle T (restrictionsOf version entries) s s := by
  intro draw
  obtain ⟨s', happly, hsteady, hsame⟩ := h.apply_eq hversion hfound draw
  have hnone : staleKeys entries s' = ∅ := by
    refine Finset.eq_empty_of_forall_notMem fun k hk => ?_
    obtain ⟨⟨vp, hv, hm⟩, hother⟩ := (mem_staleKeys hsteady.refs).1 hk
    rw [hsame.view] at hv
    obtain ⟨-, e, he, hkey, -⟩ := hprov.managed k vp hv hm
    exact hother e he hkey
  refine ⟨s', ?_, hsame⟩
  rw [happly, swept_eq_self T hsteady.ordered hnone]

theorem Provisioned.congr {s' : Manager} (h : Provisioned T entries s) (hsame : Same s s') :
    Provisioned T entries s' :=
  ⟨fun k p hp => h.managed k p ((hsame.view k).symm.trans hp),
    fun e he => by rw [hsame.view]; exact h.entry e he⟩

/-- An entry that is found is written in lower case. -/
theorem Found.uuid_eq_key (h : Ordered s) {e : Entry} (hf : Found T s e) : e.uuid = e.key := by
  have hlower : ∀ u : UUID, u.toString = e.uuid → e.uuid = e.key := by
    intro u hu
    rw [← e.toLowerCase_uuid, ← hu, toLowerCase_toString]
  obtain ⟨p, hp, -⟩ := hf
  unfold Manager.find at hp
  have hview : ∀ q, s.view e.uuid = some q → e.uuid = e.key :=
    fun q hq => hlower q.mUuid (h.keys _ q hq)
  cases ht : s.tmpView with
  | none =>
    rw [ht] at hp
    exact hview p hp
  | some tmp =>
    rw [ht] at hp
    by_cases hu : tmp.getUUIDString = e.uuid
    · exact hlower tmp.mUuid ((getUUIDString_eq tmp).symm.trans hu)
    · simp only [if_neg hu] at hp
      exact hview p hp

/-- An entry that was found is still found, in a map that has it with its hash. -/
theorem Found.keep {s' : Manager} {e : Entry} (hf : Found T s e) (htmp : s'.tmpView = s.tmpView)
    (hview : ∃ p, s'.view e.uuid = some p ∧ p.importedProfileHash = some (T.hashConfig e.ovpn)) :
    Found T s' e := by
  unfold Found Manager.find at hf ⊢
  rw [htmp]
  cases ht : s.tmpView with
  | none => exact hview
  | some tmp =>
    rw [ht] at hf
    by_cases hu : tmp.getUUIDString = e.uuid
    · simpa only [if_pos hu] using hf
    · simpa only [if_neg hu] using hview

theorem unmanaged_swept (h : Ordered s) (k : Text) :
    (swept T entries s).unmanaged k = s.unmanaged k := by
  unfold Manager.unmanaged
  rw [view_swept T h]
  split_ifs with hk
  · obtain ⟨⟨p, hv, hm⟩, -⟩ := (mem_staleKeys h.refs).1 hk
    rw [hv, Option.filter_some, if_neg (by rw [hm]; decide)]
    rfl
  · rfl

/-- What the sweep leaves of a steady manager in which nothing is to be imported. -/
theorem provisioned_swept (h : Ordered s) (hn : NothingToImport T entries s) :
    Provisioned T entries (swept T entries s) := by
  refine ⟨fun k p hp hm => ?_, fun e he => ?_⟩
  · rw [view_swept T h] at hp
    split_ifs at hp with hk
    have hentry : ∃ e ∈ entries, e.key = k := by
      by_contra hnone
      exact hk ((mem_staleKeys h.refs).2 ⟨⟨p, hp, hm⟩, fun e he hkey => hnone ⟨e, he, hkey⟩⟩)
    obtain ⟨e, he, hkey⟩ := hentry
    obtain ⟨q, hq, -, hhash⟩ := (hn e he).2
    rw [Found.uuid_eq_key (T := T) h (hn e he).1, hkey, hp] at hq
    cases hq
    exact ⟨h.keys k p hp, e, he, hkey, hhash⟩
  · obtain ⟨q, hq, hm, hhash⟩ := (hn e he).2
    rw [Found.uuid_eq_key (T := T) h (hn e he).1] at hq
    exact ⟨q, by rw [view_swept T h, if_neg (not_mem_staleKeys he), hq], hm, hhash⟩

theorem NothingToImport.congr {s' : Manager} (hn : NothingToImport T entries s) (hsame : Same s s') :
    NothingToImport T entries s' := by
  intro e he
  rw [hsame.find, hsame.view]
  exact hn e he

/-- Nothing is to be imported, and the profiles that stay can be loaded again. -/
theorem NothingToImport.converged (h : Steady T.platform s)
    (hversion : Config.parseInt version = .ok configVersion) (hn : NothingToImport T entries s)
    (hkeeps : SweepKeeps T entries s) (draw : Text → UUID) :
    ∃ s', applyRestrictions T draw (some (restrictionsOf version entries)) s = .ok s' ∧
      Converged T entries (restrictionsOf version entries) s s' := by
  obtain ⟨s', happly, hsteady, hsame⟩ := h.apply_eq hversion (fun e he => (hn e he).1) draw
  have hn' := hn.congr hsame
  obtain ⟨htmpRef, htmpView, htmp⟩ := hsteady.tmp_swept T entries
  set s₁ := swept T entries s' with hs₁
  have hreload := (swept_reloads_iff T hsteady).2 ((hsame.sweepKeeps h.refs hsteady.refs).2 hkeeps)
  have hsteady₁ : Steady T.platform s₁ := by
    refine ⟨(hsteady.ordered.swept T).refs, htmpRef, htmp, fun k => ?_⟩
    rw [← hreload k, Manager.view_loadVPNList]
  have hprov : Provisioned T entries s₁ := provisioned_swept hsteady.ordered hn'
  have hfound₁ : ∀ e ∈ entries, Found T s₁ e := by
    intro e he
    obtain ⟨p, hp, -, hhash⟩ := hprov.entry e he
    refine Found.keep (hn' e he).1 htmpView ⟨p, ?_, hhash⟩
    rw [Found.uuid_eq_key (T := T) hsteady.ordered (hn' e he).1, hp]
  obtain ⟨hsteady₂, hsame₂⟩ := hsteady₁.load
  have hun : ∀ k, s₁.unmanaged k = s.unmanaged k := fun k =>
    (unmanaged_swept hsteady.ordered k).trans (hsame.unmanaged k)
  have hidle := hsteady₂.idle hversion (fun e he => ?_) (hprov.congr hsame₂)
  · refine ⟨s₁, happly, hprov, hprov.congr hsame₂, hun, fun k => ?_, ?_, fun draw' => ?_⟩
    · exact (hsame₂.unmanaged k).trans (hun k)
    · exact hsteady₁.idle hversion hfound₁ hprov
    · obtain ⟨s'', happly', hsame'⟩ := hidle draw'
      exact ⟨s'', happly', hsame₂.trans hsame'⟩
  · obtain ⟨p, hp, hhash⟩ := hfound₁ e he
    exact ⟨p, (hsame₂.find e.uuid).trans hp, hhash⟩

/-- Where provisioning has converged, loading the list again gives the same map. -/
theorem Converged.reloads {s₁ : Manager} (h : Steady T.platform s₁)
    (hversion : Config.parseInt version = .ok configVersion) (hfound : ∀ e ∈ entries, Found T s₁ e)
    (hc : Converged T entries (restrictionsOf version entries) s (swept T entries s₁))
    (draw : Text → UUID) (k : Text) : ((swept T entries s₁).loadVPNList T.platform).view k =
      (swept T entries s₁).view k := by
  obtain ⟨htmpRef, htmpView, htmp⟩ := h.tmp_swept T entries
  set w := swept T entries s₁ with hw
  have hsteady := steady_load T.platform htmpRef (.inr htmp)
  have hfound' : ∀ e ∈ entries, Found T (w.loadVPNList T.platform) e := by
    intro e he
    obtain ⟨p, hp, -, hhash⟩ := hc.reloaded.entry e he
    refine Found.keep (hfound e he) ?_ ⟨p, ?_, hhash⟩
    · rw [hsteady.tmp, Manager.loadVPNList_files, ← htmp, htmpView]
    · rw [Found.uuid_eq_key (T := T) h.ordered (hfound e he), hp]
  -- applying the restrictions once more gives both maps
  obtain ⟨s', happly, hsame⟩ := hsteady.idle hversion hfound' hc.reloaded draw
  obtain ⟨s'', happly', hsame'⟩ := hc.reloadedIdle draw
  rw [happly] at happly'
  cases happly'
  exact (hsame.view k).symm.trans (hsame'.view k)

/-- An entry that drifted stays so, as long as it is in the map. -/
theorem Drifted.afterSweep {draw : Text → UUID} {e : Entry} (h : Drifted draw e s) (he : e ∈ entries)
    (hkey : e.key ∈ s.keySet) : Drifted draw e (swept T entries s) := by
  have hnot : e.key ∉ staleKeys entries s := not_mem_staleKeys he
  refine ⟨h.ordered.swept T, ?_, ?_⟩
  · by_cases hstale : staleKeys entries s = ∅
    · rw [swept_eq_self T h.ordered hstale]
      exact h.listed
    · have hkept : e.key ∈ keptKeys entries s := Finset.mem_sdiff.2 ⟨hkey, hnot⟩
      rwa [vpnlist_swept T h.ordered hstale (Finset.ne_empty_of_mem hkept)]
  · rw [loadedEntry_swept T h.ordered, if_neg hnot]
    exact h.loads

/-- After an entry has drifted, the list is not provisioned when it is loaded again. -/
theorem Drifted.not_converged {draw : Text → UUID} {e : Entry} (he : e ∈ entries) {s' : Manager}
    {r : Restrictions} (h : Drifted draw e s')
    (hnew : (draw e.uuid).toString ∉ s.keySet) (hs : s.RefsOk)
    (hother : ∀ e' ∈ entries, draw e.uuid ≠ e'.id)
    (hc : Converged T entries r s (swept T entries s')) : False := by
  -- the entry is in the map before the sweep
  have hkey : e.key ∈ s'.keySet := by
    obtain ⟨p, hp, -⟩ := hc.provisioned.entry e he
    rw [view_swept T h.ordered, if_neg (not_mem_staleKeys he)] at hp
    exact (h.ordered.refs.isSome_view e.key).1 (by rw [hp]; rfl)
  have hdrift := h.afterSweep (T := T) he hkey
  obtain ⟨vp, hvp, huuid⟩ := hdrift.loads
  set s₁ := swept T entries s' with hs₁
  -- so it is loaded under the UUID that was drawn
  have hsome : ((s₁.loadVPNList T.platform).view (draw e.uuid).toString).isSome := by
    rw [Manager.view_loadVPNList]
    exact Manager.pick_isSome _ none (.inr ⟨e.key, (s₁.mem_entries T.platform).2 (.inr hdrift.listed),
      e.id.toString_ne_temporary, vp, hvp, by rw [huuid]⟩)
  obtain ⟨p, hp⟩ := Option.isSome_iff_exists.1 hsome
  by_cases hm : p.managed = true
  · obtain ⟨-, e', he', hk, -⟩ := hc.reloaded.managed _ p hp hm
    exact hother e' he' (UUID.ext_toString hk.symm)
  · have hun := hc.reloadedUnmanaged (draw e.uuid).toString
    have hleft : (s₁.loadVPNList T.platform).unmanaged (draw e.uuid).toString = some p := by
      simp [Manager.unmanaged, hp, hm]
    rw [hleft] at hun
    have : (s.view (draw e.uuid).toString).isSome := by
      have hfilter := Option.filter_eq_some_iff.1 hun.symm
      rw [hfilter.1]
      rfl
    exact hnew ((hs.isSome_view _).1 this)

end Main

/-- A hash that tells all configurations apart, and maps in the order of insertion. -/
def plainTools : Tools Unit where
  platform := Data.onePlatform
  order := ⟨id, fun _ => List.Perm.refl _⟩
  hashConfig := id

def officeUuid : UUID := ⟨"00000000-0000-4000-8000-0000000000a1".toList, by decide⟩

def branchUuid : UUID := ⟨"00000000-0000-4000-8000-0000000000a2".toList, by decide⟩

def drawnUuid : UUID := ⟨"00000000-0000-4000-8000-0000000000d1".toList, by decide⟩

def drawnUuid' : UUID := ⟨"00000000-0000-4000-8000-0000000000d2".toList, by decide⟩

def officeConfig : Text := "client\nremote vpn.example.com 1194\n".toList

def officeEntry : Entry where
  uuid := officeUuid.toString
  ovpn := officeConfig
  name := "office".toList
  id := officeUuid
  fromString_uuid := by rfl

def branchEntry : Entry where
  uuid := branchUuid.toString
  ovpn := officeConfig
  name := "branch".toList
  id := branchUuid
  fromString_uuid := by rfl

def drawFor (uuid : Text) : UUID := if uuid = officeUuid.toString then drawnUuid else drawnUuid'

theorem imports_office : Imports plainTools officeEntry := by
  have h : ((Config.importProfile plainTools.order officeEntry.ovpn).toOption).isSome = true := by
    decide +kernel
  unfold Imports
  cases hi : Config.importProfile plainTools.order officeEntry.ovpn with
  | ok settings => exact ⟨settings, rfl⟩
  | error e =>
    rw [hi] at h
    cases h

/-- A managed profile that carries its UUID in both fields. -/
def storedProfile (name : String) (uuid : UUID) : Profile :=
  { Profile.new name.toList uuid with
    mProfileCreator := some profileCreator
    importedProfileHash := some officeConfig }

def officeFiles (name : Text) : Option Profile :=
  if name = fileName officeUuid.toString then some (storedProfile "office" officeUuid)
  else if name = fileName branchUuid.toString then some (storedProfile "branch" branchUuid)
  else none

def officeStore : Data.DefaultDataStore :=
  (Data.DataStore.putStringSet Data.onePlatform Data.DefaultDataStore.empty vpnlistKey
    {officeUuid.toString, branchUuid.toString}).1

/-- The keys of the map after `applyRestrictions`, and after loading the list again. -/
def keysAfter (entries : List Entry) : Option (Finset Text × Finset Text) :=
  match applyRestrictions plainTools drawFor (some (restrictionsOf "1".toList entries))
    (started plainTools (fun _ => none) Data.DefaultDataStore.empty) with
  | .ok s => some (s.keySet, (s.loadVPNList plainTools.platform).keySet)
  | .error _ => none

end VpnCore.Profiles
