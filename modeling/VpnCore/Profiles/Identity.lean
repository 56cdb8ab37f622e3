import VpnCore.Lib.Runs
import VpnCore.Profiles.Load

/-!
# VpnCore.Profiles.Identity — profiles keep their identity in storage

What a sequence of calls leaves in the map is to be found again by `loadVPNList`.  A copy and a
profile with an assigned UUID keep the text `uuidStr` of another UUID, under which they are loaded;
the theorem says that nothing else goes wrong as long as such profiles stay out of the map and no two
profiles share a file (`Keeps`).
-/

namespace VpnCore.Profiles

open Config (Text)
open Data (Platform)
open Lib (Along Throughout Since since_nil since_append run run_append)

variable {F : Type} (P : Platform F)

/-! ## Calls -/

/-- The calls; objects are numbered in the order of their creation, and `random` is what `randomUUID`
returns. -/
inductive Call
  | new (name : Text) (random : UUID)
  | copy (o : ℕ) (name : Text) (random : UUID)
  | setUUID (o : ℕ) (uuid : UUID)
  | addProfile (o : ℕ)
  | saveProfile (o : ℕ)
  | saveProfileList
  | removeProfile (o : ℕ)
  deriving DecidableEq

/-- A call on a profile object. -/
def Manager.on (s : Manager) (o : ℕ) (f : Profile → Manager) : Manager :=
  match s.heap[o]? with
  | some p => f p
  | none => s

def step (s : Manager) : Call → Manager
  | .new name random => s.allocate (.new name random)
  | .copy o name random => s.on o fun p => s.allocate (p.copy name random)
  | .setUUID o uuid => s.on o fun p => { s with heap := s.heap.set o (p.setUUID uuid) }
  | .addProfile o => s.on o fun p => s.addProfile o p
  | .saveProfile o => s.on o fun p => s.saveProfile o p
  | .saveProfileList => s.saveProfileList P
  | .removeProfile o => s.on o fun p => s.removeProfile P p

/-! ## What is to hold -/

/-- `loadVPNList` finds the keys of the map, and under each of them the profile of the map. -/
structure Reloads (s : Manager) : Prop where
  keys : (s.loadVPNList P).keySet = s.keySet
  profiles : ∀ k, (s.loadVPNList P).view k = s.view k

/-- The call changes the object or deletes its file. -/
def Call.changes (o : ℕ) : Call → Bool
  | .setUUID o' _ | .removeProfile o' => o' == o
  | _ => false

/-- The call writes the stored list. -/
def Call.writesList : Call → Bool
  | .saveProfileList | .removeProfile _ => true
  | _ => false

/-- The call adds a profile. -/
def Call.adds : Call → Bool
  | .addProfile _ => true
  | _ => false

/-- The object was saved after its last change, and its file was not deleted since. -/
def SavedSince (o : ℕ) (past : List Call) : Prop :=
  Since (· = .saveProfile o) (fun c => c.changes o = true) past

/-- Every profile left in the map was saved after its last change. -/
def AllSaved (past : List Call) (s : Manager) : Prop :=
  ∀ k ∈ s.keySet, ∀ o ∈ s.profiles.lookup k, SavedSince o past

/-- The list was written after the last addition, or nothing was added. -/
def ListSaved (past : List Call) : Prop :=
  Since (fun c => c.writesList = true) (fun c => c.adds = true) past ∨ ∀ c ∈ past, c.adds = false

instance (o : ℕ) (past : List Call) : Decidable (SavedSince o past) :=
  inferInstanceAs (Decidable (Since _ _ past))

instance (past : List Call) (s : Manager) : Decidable (AllSaved past s) :=
  inferInstanceAs (Decidable (∀ k ∈ s.keySet, ∀ o ∈ s.profiles.lookup k, SavedSince o past))

instance (past : List Call) : Decidable (ListSaved past) :=
  inferInstanceAs (Decidable (Since _ _ past ∨ ∀ c ∈ past, c.adds = false))

/-! ## When it holds -/

/-- No other object has the UUID. -/
def Unshared (s : Manager) (o : ℕ) (p : Profile) : Prop :=
  ∀ o' < s.heap.length, o' ≠ o → ∀ p' ∈ s.heap[o']?, p'.mUuid ≠ p.mUuid

/-- The calls that keep files, list and map in step.  A profile whose `uuidStr` is not its UUID stays
out of the map; a profile in the map keeps its UUID; and a profile that is in the stored list only is
not written again. -/
def Keeps (s : Manager) : Call → Prop
  | .new _ _ | .saveProfileList => True
  | .copy o _ _ => o < s.heap.length
  | .setUUID o uuid => ∃ p ∈ s.heap[o]?, p.mUuid = uuid ∨ ∀ k ∈ s.keySet, s.profiles.lookup k ≠ some o
  | .addProfile o => ∃ p ∈ s.heap[o]?, p.uuidStr = p.mUuid.toString ∧ Unshared s o p
  | .saveProfile o => ∃ p ∈ s.heap[o]?, Unshared s o p ∧
      (p.mUuid.toString ∈ s.vpnlist → p.mUuid.toString ∈ s.keySet)
  | .removeProfile o => ∃ p ∈ s.heap[o]?, Unshared s o p

instance (s : Manager) (o : ℕ) (p : Profile) : Decidable (Unshared s o p) :=
  inferInstanceAs (Decidable (∀ o' < s.heap.length, o' ≠ o → ∀ p' ∈ s.heap[o']?, p'.mUuid ≠ p.mUuid))

instance (s : Manager) (c : Call) : Decidable (Keeps s c) := by
  cases c <;> unfold Keeps <;> infer_instance

/-! ## The invariant -/

/-- Files, list and map after the calls `past`. -/
structure InStep (past : List Call) (s : Manager) : Prop where
  key : ∀ k o, s.profiles.lookup k = some o →
    ∃ p, s.heap[o]? = some p ∧ p.uuidStr = k ∧ p.mUuid.toString = k
  version : ∀ (o : ℕ) (p : Profile), s.heap[o]? = some p → p.mProfileVersion = currentProfileVersion
  object : ∀ o, SavedSince o past → o < s.heap.length
  file : ∀ (o : ℕ) (p : Profile), s.heap[o]? = some p → SavedSince o past →
    s.files (fileName p.mUuid.toString) = some p ∧ ∃ q : Profile, p = q.saved
  /-- an entry of the list that is not in the map has no file -/
  stale : ∀ k ∈ s.vpnlist, k ∉ s.keySet → s.files (fileName k) = none
  listed : ListSaved past → s.keySet ⊆ s.vpnlist

section InStep

variable {P} {past : List Call} {s : Manager}

theorem inStep_empty : InStep [] Manager.empty where
  key k o h := by
    rw [show Manager.empty.profiles = ∅ from rfl, AList.lookup_empty] at h
    cases h
  version o p h := by simp [Manager.empty] at h
  object o h := absurd h (since_nil _ _)
  file o p _ h := absurd h (since_nil _ _)
  stale k _ _ := rfl
  listed _ := by simp [Manager.empty, Manager.keySet]

theorem InStep.refsOk (h : InStep past s) : s.RefsOk := by
  intro k o hk
  obtain ⟨p, hp, -, -⟩ := h.key k o hk
  exact (List.getElem?_eq_some_iff.1 hp).1

theorem mem_keySet {k : Text} : k ∈ s.keySet ↔ ∃ o, s.profiles.lookup k = some o := by
  rw [Manager.keySet, List.mem_toFinset, ← AList.mem_keys, ← AList.lookup_isSome,
    Option.isSome_iff_exists]

theorem InStep.keysOk (h : InStep past s) : s.KeysOk := by
  intro k hk
  obtain ⟨o, ho⟩ := mem_keySet.1 hk
  obtain ⟨p, -, -, hu⟩ := h.key k o ho
  exact ⟨p.mUuid, hu.symm⟩

/-- A call that saves or deletes no file keeps what was saved. -/
theorem SavedSince.of_append {o : ℕ} {c : Call} (h : SavedSince o (past ++ [c]))
    (hc : c ≠ .saveProfile o) : c.changes o = false ∧ SavedSince o past := by
  rcases since_append.1 h with h | ⟨hbad, h⟩
  · exact absurd h hc
  · exact ⟨by simpa using hbad, h⟩

theorem ListSaved.of_append {c : Call} (h : ListSaved (past ++ [c])) (hc : c.writesList = false) :
    c.adds = false ∧ ListSaved past := by
  rcases h with h | h
  · rcases since_append.1 h with h | ⟨hbad, h⟩
    · rw [hc] at h
      cases h
    · exact ⟨by simpa using hbad, .inl h⟩
  · exact ⟨h c (by simp), .inr fun d hd => h d (by simp [hd])⟩

theorem Unshared.ne {o : ℕ} {p : Profile} (h : Unshared s o p) {o' : ℕ} {p' : Profile}
    (ho : o' ≠ o) (hp : s.heap[o']? = some p') :
    fileName p'.mUuid.toString ≠ fileName p.mUuid.toString := by
  intro he
  have hu : p'.mUuid = p.mUuid := UUID.ext_toString (Manager.fileName_injective he)
  exact h o' (List.getElem?_eq_some_iff.1 hp).1 ho p' hp hu

/-- A new object changes nothing. -/
theorem InStep.allocate (h : InStep past s) {p : Profile} (hv : p.mProfileVersion = currentProfileVersion)
    {c : Call} (hc : ∀ o, c ≠ .saveProfile o) (hl : c.writesList = false) :
    InStep (past ++ [c]) (s.allocate p) := by
  have hget : ∀ o q, (s.allocate p).heap[o]? = some q → o < s.heap.length ∧ s.heap[o]? = some q ∨
      o = s.heap.length ∧ q = p := by
    intro o q hq
    simp only [Manager.allocate, List.getElem?_append] at hq
    by_cases ho : o < s.heap.length
    · exact .inl ⟨ho, by simpa [ho] using hq⟩
    · rw [if_neg ho] at hq
      obtain ⟨hlt, hq⟩ := List.getElem?_eq_some_iff.1 hq
      simp only [List.length_singleton] at hlt
      exact .inr ⟨by omega, by simpa using hq.symm⟩
  have hobject : ∀ o, SavedSince o (past ++ [c]) → o < s.heap.length :=
    fun o ho => h.object o (ho.of_append (hc o)).2
  refine ⟨fun k o hk => ?_, fun o q hq => ?_, fun o ho => ?_, fun o q hq ho => ?_, h.stale, fun hls => ?_⟩
  · obtain ⟨q, hq, h1, h2⟩ := h.key k o hk
    exact ⟨q, by rw [Manager.allocate, List.getElem?_append_left (h.refsOk k o hk), hq], h1, h2⟩
  · rcases hget o q hq with ⟨-, hq⟩ | ⟨-, rfl⟩
    · exact h.version o q hq
    · exact hv
  · have := hobject o ho
    simp only [Manager.allocate, List.length_append, List.length_singleton]
    omega
  · have hlt := hobject o ho
    rcases hget o q hq with ⟨-, hq⟩ | ⟨heq, -⟩
    · exact h.file o q hq (ho.of_append (hc o)).2
    · omega
  · exact h.listed (hls.of_append hl).2

theorem InStep.setUUID (h : InStep past s) {o : ℕ} {p : Profile} (hp : s.heap[o]? = some p) {u : UUID}
    (hu : p.mUuid = u ∨ ∀ k ∈ s.keySet, s.profiles.lookup k ≠ some o) :
    InStep (past ++ [.setUUID o u]) { s with heap := s.heap.set o (p.setUUID u) } := by
  have hlt : o < s.heap.length := (List.getElem?_eq_some_iff.1 hp).1
  have hother : ∀ o', o' ≠ o → (s.heap.set o (p.setUUID u))[o']? = s.heap[o']? :=
    fun o' ho => List.getElem?_set_ne (Ne.symm ho)
  have hself : (s.heap.set o (p.setUUID u))[o]? = some (p.setUUID u) :=
    List.getElem?_set_self hlt
  refine ⟨fun k o' hk => ?_, fun o' q hq => ?_, fun o' ho => ?_, fun o' q hq ho => ?_, h.stale,
    fun hls => ?_⟩
  · by_cases ho : o' = o
    · subst ho
      rcases hu with rfl | hu
      · obtain ⟨q, hq, h1, h2⟩ := h.key k o' hk
        rw [hp] at hq
        cases hq
        exact ⟨p, hself, h1, h2⟩
      · exact absurd hk (hu k (mem_keySet.2 ⟨o', hk⟩))
    · rw [show ({ s with heap := s.heap.set o (p.setUUID u) } : Manager).heap[o']? = _ from
        hother o' ho]
      exact h.key k o' hk
  · by_cases ho : o' = o
    · subst ho
      rw [show ({ s with heap := s.heap.set o' (p.setUUID u) } : Manager).heap[o']? = _ from
        hself] at hq
      cases hq
      exact h.version o' p hp
    · exact h.version o' q ((hother o' ho).symm.trans hq)
  · rw [show ({ s with heap := s.heap.set o (p.setUUID u) } : Manager).heap.length = s.heap.length
      from List.length_set]
    exact h.object o' (ho.of_append (fun h => by cases h)).2
  · obtain ⟨hset, ho'⟩ := ho.of_append (fun h => by cases h)
    have hoo : o' ≠ o := fun he => by simp [Call.changes, he] at hset
    exact h.file o' q ((hother o' hoo).symm.trans hq) ho'
  · exact h.listed (hls.of_append rfl).2

theorem InStep.addProfile (h : InStep past s) {o : ℕ} {p : Profile} (hp : s.heap[o]? = some p)
    (hstr : p.uuidStr = p.mUuid.toString) : InStep (past ++ [.addProfile o]) (s.addProfile o p) := by
  have hsaved : ∀ o', SavedSince o' (past ++ [.addProfile o]) → SavedSince o' past :=
    fun o' ho => (ho.of_append (fun h => by cases h)).2
  refine ⟨fun k o' hk => ?_, h.version, fun o' ho => h.object o' (hsaved o' ho),
    fun o' q hq ho => h.file o' q hq (hsaved o' ho), fun k hk hkey => ?_, fun hls => ?_⟩
  · by_cases hkey : k = p.mUuid.toString
    · subst hkey
      rw [Manager.addProfile, AList.lookup_insert] at hk
      cases hk
      exact ⟨p, hp, hstr, rfl⟩
    · rw [Manager.addProfile, AList.lookup_insert_ne hkey] at hk
      exact h.key k o' hk
  · rw [Manager.keySet_addProfile, Finset.mem_insert, not_or] at hkey
    exact h.stale k hk hkey.2
  · cases (hls.of_append rfl).1

theorem InStep.saveProfile (h : InStep past s) {o : ℕ} {p : Profile} (hp : s.heap[o]? = some p)
    (hun : Unshared s o p) (hlist : p.mUuid.toString ∈ s.vpnlist → p.mUuid.toString ∈ s.keySet) :
    InStep (past ++ [.saveProfile o]) (s.saveProfile o p) := by
  have hlt : o < s.heap.length := (List.getElem?_eq_some_iff.1 hp).1
  have hother : ∀ o', o' ≠ o → (s.saveProfile o p).heap[o']? = s.heap[o']? :=
    fun o' ho => List.getElem?_set_ne (Ne.symm ho)
  have hself : (s.saveProfile o p).heap[o]? = some p.saved := List.getElem?_set_self hlt
  have hfile : ∀ name, name ≠ fileName p.mUuid.toString → (s.saveProfile o p).files name = s.files name :=
    fun name hne => Function.update_of_ne hne _ _
  refine ⟨fun k o' hk => ?_, fun o' q hq => ?_, fun o' ho => ?_, fun o' q hq ho => ?_,
    fun k hk hkey => ?_, fun hls => ?_⟩
  · obtain ⟨q, hq, h1, h2⟩ := h.key k o' hk
    by_cases ho : o' = o
    · subst ho
      rw [hp] at hq
      cases hq
      exact ⟨p.saved, hself, h1, h2⟩
    · exact ⟨q, (hother o' ho).trans hq, h1, h2⟩
  · by_cases ho : o' = o
    · subst ho
      rw [hself] at hq
      cases hq
      exact h.version o' p hp
    · exact h.version o' q ((hother o' ho).symm.trans hq)
  · rw [show (s.saveProfile o p).heap.length = s.heap.length from List.length_set]
    by_cases hoo : o' = o
    · rw [hoo]
      exact hlt
    · exact h.object o' (ho.of_append (fun he => hoo (Call.saveProfile.inj he).symm)).2
  · by_cases hoo : o' = o
    · subst hoo
      rw [hself] at hq
      cases hq
      exact ⟨Function.update_self _ _ _, p, rfl⟩
    · have hq' : s.heap[o']? = some q := (hother o' hoo).symm.trans hq
      rw [hfile _ (hun.ne hoo hq')]
      exact h.file o' q hq' (ho.of_append (fun he => hoo (Call.saveProfile.inj he).symm)).2
  · have hne : fileName k ≠ fileName p.mUuid.toString := by
      intro he
      have hkp := Manager.fileName_injective he
      subst hkp
      exact hkey (hlist hk)
    rw [hfile _ hne]
    exact h.stale k hk hkey
  · exact h.listed (hls.of_append rfl).2

theorem InStep.saveProfileList (h : InStep past s) (P : Platform F) :
    InStep (past ++ [.saveProfileList]) (s.saveProfileList P) := by
  have hsaved : ∀ o', SavedSince o' (past ++ [.saveProfileList]) → SavedSince o' past :=
    fun o' ho => (ho.of_append (fun h => by cases h)).2
  have hlist := Manager.vpnlist_saveProfileList P h.keysOk
  refine ⟨h.key, h.version, fun o' ho => h.object o' (hsaved o' ho),
    fun o' q hq ho => h.file o' q hq (hsaved o' ho), fun k hk hkey => ?_, fun _ => ?_⟩
  · rw [hlist] at hk
    split at hk
    · exact h.stale k hk hkey
    · exact absurd hk hkey
  · rw [hlist]
    split
    · next hempty =>
      rw [show (s.saveProfileList P).keySet = s.keySet from rfl, hempty]
      exact Finset.empty_subset _
    · exact Finset.Subset.refl _

theorem InStep.removeProfile (h : InStep past s) (P : Platform F) {o : ℕ} {p : Profile}
    (hun : Unshared s o p) :
    InStep (past ++ [.removeProfile o]) (s.removeProfile P p) := by
  -- the map without the key, before the list is saved
  have hkeys : ∀ k, k ∈ (s.removeProfile P p).keySet ↔ k ≠ p.mUuid.toString ∧ k ∈ s.keySet := by
    intro k
    show k ∈ (s.profiles.erase p.mUuid.toString).keys.toFinset ↔ _
    rw [List.mem_toFinset, ← AList.mem_keys, AList.mem_erase, Manager.keySet, List.mem_toFinset,
      ← AList.mem_keys]
  have hlookup : ∀ k o', (s.removeProfile P p).profiles.lookup k = some o' →
      s.profiles.lookup k = some o' := by
    intro k o' hk
    by_cases hkey : k = p.mUuid.toString
    · rw [hkey, show (s.removeProfile P p).profiles = s.profiles.erase p.mUuid.toString from rfl,
        AList.lookup_erase] at hk
      cases hk
    · rwa [show (s.removeProfile P p).profiles = s.profiles.erase p.mUuid.toString from rfl,
        AList.lookup_erase_ne hkey] at hk
  have hfile : ∀ name, name ≠ fileName p.mUuid.toString →
      (s.removeProfile P p).files name = s.files name := fun name hne => Function.update_of_ne hne _ _
  have hok : ({ s with profiles := s.profiles.erase p.mUuid.toString } : Manager).KeysOk :=
    fun k hk => h.keysOk k ((hkeys k).1 hk).2
  have hlist := Manager.vpnlist_saveProfileList P hok
  refine ⟨fun k o' hk => h.key k o' (hlookup k o' hk), h.version, fun o' ho => ?_,
    fun o' q hq ho => ?_, fun k hk hkey => ?_, fun _ => ?_⟩
  · exact h.object o' (ho.of_append (fun h => by cases h)).2
  · obtain ⟨hrem, ho'⟩ := ho.of_append (fun h => by cases h)
    have hoo : o' ≠ o := fun he => by simp [Call.changes, he] at hrem
    rw [hfile _ (hun.ne hoo hq)]
    exact h.file o' q hq ho'
  · by_cases hkp : k = p.mUuid.toString
    · rw [hkp]
      exact Function.update_self _ _ _
    · rw [hfile _ (fun he => hkp (Manager.fileName_injective he))]
      have hknot : k ∉ s.keySet := fun hin => hkey ((hkeys k).2 ⟨hkp, hin⟩)
      rw [show (s.removeProfile P p).vpnlist = _ from hlist] at hk
      split at hk
      · exact h.stale k hk hknot
      · exact absurd hk hkey
  · rw [show (s.removeProfile P p).vpnlist = _ from hlist]
    split
    · next hempty =>
      rw [show (s.removeProfile P p).keySet = ∅ from hempty]
      exact Finset.empty_subset _
    · exact Finset.Subset.refl _

theorem Manager.on_of_mem {o : ℕ} {p : Profile} (hp : s.heap[o]? = some p) (f : Profile → Manager) :
    s.on o f = f p := by
  rw [Manager.on, hp]

/-- **One call.** -/
theorem InStep.step (h : InStep past s) (P : Platform F) {c : Call} (hc : Keeps s c) :
    InStep (past ++ [c]) (step P s c) := by
  cases c with
  | new name random =>
    exact h.allocate rfl (fun _ h => by cases h) rfl
  | copy o name random =>
    obtain ⟨p, hp⟩ : ∃ p, s.heap[o]? = some p := ⟨s.heap[o], List.getElem?_eq_getElem hc⟩
    rw [Profiles.step, Manager.on_of_mem hp]
    exact h.allocate (p := p.copy name random) (c := .copy o name random) (h.version o p hp)
      (fun _ h => by cases h) rfl
  | setUUID o u =>
    obtain ⟨p, hp, hu⟩ := hc
    rw [Profiles.step, Manager.on_of_mem hp]
    exact h.setUUID hp hu
  | addProfile o =>
    obtain ⟨p, hp, hstr, -⟩ := hc
    rw [Profiles.step, Manager.on_of_mem hp]
    exact h.addProfile hp hstr
  | saveProfile o =>
    obtain ⟨p, hp, hun, hlist⟩ := hc
    rw [Profiles.step, Manager.on_of_mem hp]
    exact h.saveProfile hp hun hlist
  | saveProfileList => exact h.saveProfileList P
  | removeProfile o =>
    obtain ⟨p, hp, hun⟩ := hc
    rw [Profiles.step, Manager.on_of_mem hp]
    exact h.removeProfile P hun

/-! ## Reloading -/

/-- A saved profile of the map is loaded from its file. -/
theorem InStep.loadedEntry (h : InStep past s) (hall : AllSaved past s) {k : Text} {o : ℕ}
    (hk : s.profiles.lookup k = some o) : Manager.loadedEntry s.files k = s.heap[o]? := by
  obtain ⟨p, hp, hstr, hu⟩ := h.key k o hk
  obtain ⟨hfile, q, rfl⟩ := h.file o p hp (hall k (mem_keySet.2 ⟨o, hk⟩) o hk)
  have hq : q.uuidStr = q.mUuid.toString := hstr.trans hu.symm
  have hload := Profile.loaded_saved hq (h.version o q.saved hp)
  rw [Manager.loadedEntry, ← hu, hfile, hp, Option.bind_some, hload]
  rfl

theorem InStep.reloads (h : InStep past s) (P : Platform F) (hall : AllSaved past s)
    (hls : ListSaved past) : Reloads P s := by
  have hview : ∀ k, (s.loadVPNList P).view k = s.view k := by
    intro k
    have hal : ∀ e ∈ s.entries P, e ≠ temporaryProfileFilename → ∀ vp,
        Manager.loadedEntry s.files e = some vp → vp.mUuid.toString = e := by
      intro e he hne vp hvp
      have hlist : e ∈ s.vpnlist := ((s.mem_entries P).1 he).resolve_left hne
      by_cases hkey : e ∈ s.keySet
      · obtain ⟨o, ho⟩ := mem_keySet.1 hkey
        obtain ⟨p, hp, -, hu⟩ := h.key e o ho
        rw [h.loadedEntry hall ho, hp] at hvp
        cases hvp
        exact hu
      · rw [Manager.loadedEntry, h.stale e hlist hkey] at hvp
        cases hvp
    rw [Manager.view_loadVPNList, Manager.pick_aligned _ none hal (.inl rfl)]
    simp only [s.mem_entries P]
    by_cases hkey : k ∈ s.keySet
    · obtain ⟨o, ho⟩ := mem_keySet.1 hkey
      obtain ⟨u, hu⟩ := h.keysOk k hkey
      have hne : k ≠ temporaryProfileFilename := hu ▸ u.toString_ne_temporary
      rw [if_pos ⟨.inr (h.listed hls hkey), hne⟩, h.loadedEntry hall ho, Manager.view, ho,
        Option.bind_some]
    · have hnone : s.view k = none := by
        have := h.refsOk.isSome_view k
        rwa [← not_iff_not, iff_true_intro hkey, iff_true, Option.not_isSome_iff_eq_none] at this
      rw [hnone]
      split
      · next hin =>
        rw [Manager.loadedEntry, h.stale k (hin.1.resolve_left hin.2) hkey]
        rfl
      · rfl
  refine ⟨?_, hview⟩
  ext k
  rw [← (s.loadVPNList_refsOk P).isSome_view k, hview k, h.refsOk.isSome_view k]

end InStep

/-- **Reloading finds the saved profiles** in every state of a run that keeps files, list and map in
step, if the profiles left in the map and the list were saved. -/
theorem reloads_of_keeps (calls : List Call) (hkeeps : Along (step P) Keeps Manager.empty calls) :
    Throughout (step P) (fun past s => AllSaved past s → ListSaved past → Reloads P s) Manager.empty
      calls := by
  have hinv := Lib.throughout_of_step inStep_empty (fun _ _ _ h hc => InStep.step h P hc) calls hkeeps
  exact fun past hpast hall hls => (hinv past hpast).reloads P hall hls

def firstUuid : UUID := ⟨"00000000-0000-4000-8000-000000000001".toList, by decide⟩

def secondUuid : UUID := ⟨"00000000-0000-4000-8000-000000000002".toList, by decide⟩

def assignedUuid : UUID := ⟨"00000000-0000-4000-8000-00000000000a".toList, by decide⟩

/-- Two profiles are stored, and one is removed again. -/
def twoProfiles : List Call :=
  [.new "home".toList firstUuid, .addProfile 0, .saveProfileList, .saveProfile 0,
   .new "work".toList secondUuid, .addProfile 1, .saveProfile 1, .saveProfileList, .removeProfile 0]

theorem reloads_of_keeps_two :
    Reloads Data.onePlatform (run (step Data.onePlatform) Manager.empty twoProfiles) :=
  reloads_of_keeps Data.onePlatform twoProfiles (by decide) twoProfiles (List.prefix_refl _)
    (by decide) (by decide)

/-- A profile with an assigned UUID. -/
def assignedProfile : List Call :=
  [.new "home".toList firstUuid, .setUUID 0 assignedUuid, .addProfile 0, .saveProfile 0,
   .saveProfileList]

/-- A profile and its copy. -/
def copiedProfile : List Call :=
  [.new "home".toList firstUuid, .addProfile 0, .saveProfile 0, .copy 0 "copy".toList secondUuid,
   .addProfile 1, .saveProfile 1, .saveProfileList]

/-- The assigned UUID is lost in storage, and so is one of a profile and its copy. -/
theorem reload_loses_identity :
    AllSaved assignedProfile (run (step Data.onePlatform) Manager.empty assignedProfile) ∧
      ListSaved assignedProfile ∧
      (run (step Data.onePlatform) Manager.empty assignedProfile).keySet = {assignedUuid.toString} ∧
      ((run (step Data.onePlatform) Manager.empty assignedProfile).loadVPNList Data.onePlatform).keySet
        = {firstUuid.toString} ∧
    AllSaved copiedProfile (run (step Data.onePlatform) Manager.empty copiedProfile) ∧
      ListSaved copiedProfile ∧
      (run (step Data.onePlatform) Manager.empty copiedProfile).keySet
        = {firstUuid.toString, secondUuid.toString} ∧
      ((run (step Data.onePlatform) Manager.empty copiedProfile).loadVPNList Data.onePlatform).keySet
        = {firstUuid.toString} := by
  refine ⟨?_, ?_, ?_, ?_, ?_, ?_, ?_, ?_⟩ <;> decide +kernel

end VpnCore.Profiles
