import VpnCore.Lib.Runs
import Mathlib.Logic.Function.Basic

/-!
# VpnCore.Certs.Manager — the cache of CA certificates

`reset()` sets `mReload` without the lock, and `load()` clears it under the lock before it scans the key
stores, which change while it does.  Threads change the stores and call `reset()`, or call `load()`; a step is
an access to a field, to the lock or to a store.

A certificate that is in its store when the flag is set, and stays there, is in `mCACerts` when a later
`load()` returns.  Until the flag is cleared a scan that runs may miss it; all scans that run once the flag is
cleared have begun after that.
-/

namespace VpnCore.Certs

open Lib

abbrev Thread := ℕ

/-! ## Key stores -/

/-- The stores that the constructor opens. -/
inductive KeyStore
  | localCertificateStore
  | androidCAStore
  deriving DecidableEq

def mKeyStores : List KeyStore := [.localCertificateStore, .androidCAStore]

theorem mem_mKeyStores (store : KeyStore) : store ∈ mKeyStores := by
  cases store <;> decide

/-- An entry of a key store. -/
inductive Certificate (X : Type)
  | x509 (cert : X)
  | other
  deriving DecidableEq

/-- What is in the stores; no alias is in both. -/
structure Contents (X : Type) where
  entries : KeyStore → List (String × Certificate X)
  distinct : ∀ {s t key}, key ∈ (entries s).map Prod.fst → key ∈ (entries t).map Prod.fst → s = t

namespace Contents

variable {X : Type} (c : Contents X)

def aliases (store : KeyStore) : List String := (c.entries store).map Prod.fst

def getCertificate (store : KeyStore) (key : String) : Option (Certificate X) :=
  (c.entries store).lookup key

def empty : Contents X where
  entries _ := []
  distinct h := nomatch h

/-- One certificate in the local store. -/
def single (key : String) (cert : X) : Contents X where
  entries
    | .localCertificateStore => [(key, .x509 cert)]
    | .androidCAStore => []
  distinct {s t _} hs ht := by
    cases s <;> cases t <;> simp_all

theorem mem_aliases {store : KeyStore} {key : String} {cert : Certificate X}
    (h : c.getCertificate store key = some cert) : key ∈ c.aliases store := by
  by_contra hmem
  have hnone : (c.entries store).lookup key = none := by
    rw [List.lookup_eq_none_iff]
    intro p hp
    rw [bne_iff_ne]
    rintro rfl
    exact hmem (List.mem_map_of_mem hp)
  rw [getCertificate, hnone] at h
  cases h

end Contents

/-! ## Threads -/

/-- Where a thread is.  In `enumerate` the aliases that are `due` were there when the enumeration began and
since, and have not been listed. -/
inductive Phase (X : Type)
  | idle
  | editing
  | resetting
  | notifying
  | locking
  | testLoaded
  | testReload
  | clearReload
  | loadCertificates (stores : List KeyStore) (certs : String → Option X)
  | enumerate (store : KeyStore) (stores : List KeyStore) (certs : String → Option X) (due : List String)
  | fetch (key : String) (store : KeyStore) (stores : List KeyStore) (certs : String → Option X)
      (due : List String)
  | checkLoaded
  | setLoaded
  | unlocking
  | returning

/-- What all threads see. -/
structure Shared (X : Type) where
  mReload : Bool := false
  mLoaded : Bool := false
  mCACerts : String → Option X := fun _ => none
  writer : Option Thread := none
  stores : Contents X

inductive Choice (X : Type)
  /-- the thread begins to change the stores -/
  | callEdit
  | edit (stores : Contents X)
  | callLoad
  /-- the enumeration lists this alias next -/
  | nextElement (key : String)
  | go

variable {X : Type}

/-- `certs.put(alias, cert)`, for an `X509Certificate`. -/
def put (certs : String → Option X) (key : String) : Option (Certificate X) → String → Option X
  | some (.x509 cert) => Function.update certs key (some cert)
  | _ => certs

/-- The next step of a thread.  An enumeration ends when no alias is due. -/
def advance (s : Shared X) (t : Thread) : Phase X → Choice X → Option (Shared X × Phase X)
  | .idle, .callEdit => some (s, .editing)
  | .editing, .edit stores => some ({ s with stores }, .editing)
  -- reset()
  | .editing, .go => some (s, .resetting)
  | .resetting, .go => some ({ s with mReload := true }, .notifying)
  | .notifying, .go => some (s, .idle)
  -- load()
  | .idle, .callLoad => some (s, .locking)
  | .locking, .go =>
    if s.writer = none then some ({ s with writer := some t }, .testLoaded) else none
  | .testLoaded, .go => some (s, if s.mLoaded then .testReload else .clearReload)
  | .testReload, .go => some (s, if s.mReload then .clearReload else .unlocking)
  | .clearReload, .go =>
    some ({ s with mReload := false }, .loadCertificates mKeyStores fun _ => none)
  | .loadCertificates (store :: stores) certs, .go =>
    some (s, .enumerate store stores certs (s.stores.aliases store))
  | .loadCertificates [] certs, .go => some ({ s with mCACerts := certs }, .checkLoaded)
  | .enumerate store stores certs due, .nextElement key =>
    some (s, .fetch key store stores certs (due.filter (· ≠ key)))
  | .enumerate _ stores certs [], .go => some (s, .loadCertificates stores certs)
  | .fetch key store stores certs due, .go =>
    some (s, .enumerate store stores (put certs key (s.stores.getCertificate store key)) due)
  | .checkLoaded, .go => some (s, if s.mLoaded then .unlocking else .setLoaded)
  | .setLoaded, .go => some ({ s with mLoaded := true }, .unlocking)
  | .unlocking, .go => some ({ s with writer := none }, .returning)
  | .returning, .go => some (s, .idle)
  | _, _ => none

/-- An alias that is removed is not due any more. -/
def Phase.prune (stores : Contents X) : Phase X → Phase X
  | .enumerate store rest certs due =>
    .enumerate store rest certs (due.filter (· ∈ stores.aliases store))
  | .fetch key store rest certs due =>
    .fetch key store rest certs (due.filter (· ∈ stores.aliases store))
  | p => p

/-- The manager and where each thread is. -/
structure State (X : Type) where
  shared : Shared X
  phase : Thread → Phase X

def State.move (s : State X) (t : Thread) (shared : Shared X) (p : Phase X) : State X :=
  { shared, phase := Function.update (fun u => (s.phase u).prune shared.stores) t p }

/-- A step that is not possible changes nothing. -/
def step (s : State X) (e : Thread × Choice X) : State X :=
  match advance s.shared e.1 (s.phase e.1) e.2 with
  | some (shared, p) => s.move e.1 shared p
  | none => s

def initial (stores : Contents X) : State X := { shared := { stores }, phase := fun _ => .idle }

@[simp] theorem State.phase_move_self (s : State X) (t : Thread) (shared : Shared X) (p : Phase X) :
    (s.move t shared p).phase t = p := by
  simp [State.move]

theorem State.phase_move_of_ne (s : State X) {t u : Thread} (h : u ≠ t) (shared : Shared X)
    (p : Phase X) : (s.move t shared p).phase u = (s.phase u).prune shared.stores := by
  simp [State.move, h]

/-! ## The lock -/

namespace Phase

def locked : Phase X → Bool
  | .idle | .editing | .resetting | .notifying | .locking | .returning => false
  | _ => true

def scanning : Phase X → Bool
  | .loadCertificates .. | .enumerate .. | .fetch .. => true
  | _ => false

/-- In `load()`, before it is decided whether to scan. -/
def waiting : Phase X → Bool
  | .locking | .testLoaded | .testReload | .clearReload => true
  | _ => false

@[simp] theorem locked_prune (stores : Contents X) (p : Phase X) :
    (p.prune stores).locked = p.locked := by
  cases p <;> rfl

@[simp] theorem scanning_prune (stores : Contents X) (p : Phase X) :
    (p.prune stores).scanning = p.scanning := by
  cases p <;> rfl

@[simp] theorem waiting_prune (stores : Contents X) (p : Phase X) :
    (p.prune stores).waiting = p.waiting := by
  cases p <;> rfl

theorem locked_of_scanning {p : Phase X} (h : p.scanning = true) : p.locked = true := by
  cases p <;> first | rfl | cases h

theorem not_scanning_of_not_locked {p : Phase X} (h : p.locked = false) : p.scanning = false :=
  Bool.eq_false_iff.mpr fun hscan => absurd (h.symm.trans (locked_of_scanning hscan)) (by decide)

theorem not_scanning_of_waiting {p : Phase X} (h : p.waiting = true) : p.scanning = false := by
  cases p <;> first | rfl | cases h

end Phase

/-- What a step can do. -/
inductive Move (s : Shared X) (t : Thread) : Phase X → Shared X → Phase X → Prop
  /-- A step without the lock. -/
  | outside {p p' : Phase X} {s' : Shared X} (hp : p.locked = false) (hp' : p'.locked = false)
      (hwaiting : p.waiting = false) (hreload : s.mReload = true → s'.mReload = true)
      (hwriter : s'.writer = s.writer) (hcerts : s'.mCACerts = s.mCACerts) : Move s t p s' p'
  | lock (h : s.writer = none) : Move s t .locking { s with writer := some t } .testLoaded
  | test {p p' : Phase X} (hp : p.locked = true) (hp' : p'.locked = true) (hwaiting : p.waiting = true)
      (hwaiting' : p'.waiting = true) : Move s t p s p'
  | skip (h : s.mReload = false) : Move s t .testReload s .unlocking
  | clear : Move s t .clearReload { s with mReload := false } (.loadCertificates mKeyStores fun _ => none)
  | openStore (store : KeyStore) (stores : List KeyStore) (certs : String → Option X) :
      Move s t (.loadCertificates (store :: stores) certs) s
        (.enumerate store stores certs (s.stores.aliases store))
  | next (key : String) (store : KeyStore) (stores : List KeyStore) (certs : String → Option X)
      (due : List String) :
      Move s t (.enumerate store stores certs due) s
        (.fetch key store stores certs (due.filter (· ≠ key)))
  | get (key : String) (store : KeyStore) (stores : List KeyStore) (certs : String → Option X)
      (due : List String) :
      Move s t (.fetch key store stores certs due) s
        (.enumerate store stores (put certs key (s.stores.getCertificate store key)) due)
  | close (store : KeyStore) (stores : List KeyStore) (certs : String → Option X) :
      Move s t (.enumerate store stores certs []) s (.loadCertificates stores certs)
  | publish (certs : String → Option X) :
      Move s t (.loadCertificates [] certs) { s with mCACerts := certs } .checkLoaded
  | finish {p p' : Phase X} {s' : Shared X} (hp : p.locked = true) (hp' : p'.locked = true)
      (hscanning : p.scanning = false) (hscanning' : p'.scanning = false) (hwaiting : p.waiting = false)
      (hwaiting' : p'.waiting = false) (hreload : s'.mReload = s.mReload)
      (hwriter : s'.writer = s.writer) (hcerts : s'.mCACerts = s.mCACerts) : Move s t p s' p'
  | unlock : Move s t .unlocking { s with writer := none } .returning

section

variable {s s' : Shared X} {t : Thread} {p p' : Phase X}

theorem move_of_advance {ch : Choice X} (h : advance s t p ch = some (s', p')) : Move s t p s' p' := by
  unfold advance at h
  split at h
  case h_7 =>
    split at h
    · cases h
      exact .lock ‹_›
    · cases h
  case h_8 =>
    cases h
    split <;> exact .test rfl rfl rfl rfl
  case h_9 =>
    cases h
    split
    · exact .test rfl rfl rfl rfl
    · exact .skip (Bool.eq_false_iff.mpr ‹_›)
  case h_16 =>
    cases h
    split <;> exact .finish rfl rfl rfl rfl rfl rfl rfl rfl rfl
  case h_20 => cases h
  all_goals
    cases h
    first
    | exact .outside rfl rfl rfl id rfl rfl
    | exact .outside rfl rfl rfl (fun _ => rfl) rfl rfl
    | exact .clear
    | exact .openStore ..
    | exact .next ..
    | exact .get ..
    | exact .close ..
    | exact .publish ..
    | exact .finish rfl rfl rfl rfl rfl rfl rfl rfl rfl
    | exact .unlock

/-- A thread is in the critical section after its step iff it is the writer, and for other threads its step
changes nothing. -/
theorem Move.writer (h : Move s t p s' p') (hp : p.locked = true ↔ s.writer = some t) :
    (p'.locked = true ↔ s'.writer = some t) ∧ ∀ u ≠ t, (s'.writer = some u ↔ s.writer = some u) := by
  cases h with
  | outside hp₁ hp' _ _ hwriter =>
    rw [hp', hwriter, ← hp, hp₁]
    exact ⟨Iff.rfl, fun _ _ => Iff.rfl⟩
  | lock hnone =>
    refine ⟨iff_of_true rfl rfl, fun u hu => ?_⟩
    rw [hnone]
    exact iff_of_false (fun h => hu (Option.some.inj h).symm) fun h => nomatch h
  | test hp₁ hp' => exact ⟨iff_of_true hp' (hp.mp hp₁), fun _ _ => Iff.rfl⟩
  | finish hp₁ hp' _ _ _ _ _ hwriter =>
    rw [hwriter]
    exact ⟨iff_of_true hp' (hp.mp hp₁), fun _ _ => Iff.rfl⟩
  | unlock =>
    refine ⟨iff_of_false (fun h => nomatch h) fun h => (nomatch h), fun u hu => ?_⟩
    rw [hp.mp rfl]
    exact iff_of_false (fun h => nomatch h) fun h => hu (Option.some.inj h).symm
  | _ => exact ⟨iff_of_true rfl (hp.mp rfl), fun _ _ => Iff.rfl⟩

end

/-- A step that is possible moves its thread. -/
theorem step_cases (s : State X) (e : Thread × Choice X) :
    step s e = s ∨ ∃ shared p, Move s.shared e.1 (s.phase e.1) shared p ∧
      step s e = s.move e.1 shared p := by
  cases h : advance s.shared e.1 (s.phase e.1) e.2 with
  | none => exact .inl (by rw [step, h])
  | some next => exact .inr ⟨next.1, next.2, move_of_advance h, by rw [step, h]⟩

/-- The writer, and no other thread, is in the critical section. -/
def Exclusive (s : State X) : Prop :=
  ∀ t, (s.phase t).locked = true ↔ s.shared.writer = some t

theorem Exclusive.eq {s : State X} (h : Exclusive s) {t u : Thread} (ht : (s.phase t).locked = true)
    (hu : (s.phase u).locked = true) : u = t :=
  Option.some.inj (((h u).mp hu).symm.trans ((h t).mp ht))

theorem exclusive_step (s : State X) (e : Thread × Choice X) (h : Exclusive s) :
    Exclusive (step s e) := by
  obtain hs | ⟨shared, p, hmove, hs⟩ := step_cases s e
  · rwa [hs]
  obtain ⟨hown, hothers⟩ := hmove.writer (h e.1)
  rw [hs]
  intro u
  by_cases hue : u = e.1
  · subst hue
    rw [s.phase_move_self]
    exact hown
  · rw [s.phase_move_of_ne hue, Phase.locked_prune, h u]
    exact (hothers u hue).symm

theorem exclusive_run (stores : Contents X) (es : List (Thread × Choice X)) :
    Exclusive (run step (initial stores) es) :=
  run_inv (fun s e h _ => exclusive_step s e h) es _
    (fun _ => iff_of_false (fun h => nomatch h) fun h => nomatch h)
    (along_of_forall (fun _ _ => trivial) es _)

/-! ## One certificate -/

section

variable (store : KeyStore) (key : String) (cert : X)

/-- The certificate is in its store. -/
def Present (s : State X) : Prop := s.shared.stores.getCertificate store key = some (.x509 cert)

instance [DecidableEq X] (s : State X) : Decidable (Present store key cert s) :=
  inferInstanceAs (Decidable (_ = _))

/-- The cache has the certificate. -/
def Cached (s : State X) : Prop := s.shared.mCACerts key = some cert

/-- The scan has found the certificate or will do so. -/
def Phase.Good : Phase X → Prop
  | .loadCertificates stores certs => store ∈ stores ∨ certs key = some cert
  | .enumerate current stores certs due =>
    (store ∈ stores ∨ certs key = some cert) ∨ current = store ∧ key ∈ due
  | .fetch listed current stores certs due =>
    (store ∈ stores ∨ certs key = some cert) ∨ current = store ∧ (listed = key ∨ key ∈ due)
  | _ => True

/-- Every scan has found the certificate or will. -/
def AllGood (s : State X) : Prop := ∀ t, (s.phase t).Good store key cert

/-- The certificate is in the cache, or will be when the scan that runs or a next one ends. -/
def Pending (s : State X) : Prop :=
  s.shared.mReload = true ∨
    AllGood store key cert s ∧ (Cached key cert s ∨ ∃ t, (s.phase t).scanning = true)

variable {store key cert}

theorem Phase.good_of_not_scanning {p : Phase X} (h : p.scanning = false) : p.Good store key cert := by
  cases p <;> trivial

/-- Changes of the stores do not matter to a scan as long as the certificate stays. -/
theorem Phase.Good.prune {stores : Contents X} (hstores : key ∈ stores.aliases store) {p : Phase X}
    (h : p.Good store key cert) : (p.prune stores).Good store key cert := by
  cases p with
  | enumerate current rest certs due =>
    refine h.imp_right ?_
    rintro ⟨rfl, hdue⟩
    exact ⟨rfl, List.mem_filter.mpr ⟨hdue, decide_eq_true hstores⟩⟩
  | fetch listed current rest certs due =>
    refine h.imp_right ?_
    rintro ⟨rfl, hlisted⟩
    exact ⟨rfl, hlisted.imp_right fun hdue => List.mem_filter.mpr ⟨hdue, decide_eq_true hstores⟩⟩
  | _ => exact h

/-- What is fetched for the key is the certificate, or nothing if the store is another one. -/
theorem put_getCertificate {c : Contents X} (hc : c.getCertificate store key = some (.x509 cert))
    {certs : String → Option X} {listed : String} {current : KeyStore}
    (h : certs key = some cert ∨ current = store ∧ listed = key) :
    put certs listed (c.getCertificate current listed) key = some cert := by
  by_cases hkey : listed = key
  · subst hkey
    cases hget : c.getCertificate current listed with
    | none =>
      refine h.resolve_right ?_
      rintro ⟨rfl, -⟩
      rw [hc] at hget
      cases hget
    | some found =>
      -- no other store has the key
      obtain rfl := c.distinct (c.mem_aliases hget) (c.mem_aliases hc)
      rw [hc] at hget
      cases hget
      exact Function.update_self ..
  · have hcerts := h.resolve_right fun h => hkey h.2
    cases c.getCertificate current listed with
    | none => exact hcerts
    | some found =>
      cases found with
      | x509 found => exact (Function.update_of_ne (Ne.symm hkey) ..).trans hcerts
      | other => exact hcerts

section

variable {s s' : Shared X} {t : Thread} {p p' : Phase X}

theorem Move.good (h : Move s t p s' p') (hp : p.Good store key cert)
    (hs : s.stores.getCertificate store key = some (.x509 cert)) : p'.Good store key cert := by
  cases h with
  | outside _ hp' => exact Phase.good_of_not_scanning (Phase.not_scanning_of_not_locked hp')
  | test _ _ _ hwaiting' => exact Phase.good_of_not_scanning (Phase.not_scanning_of_waiting hwaiting')
  | clear => exact .inl (mem_mKeyStores store)
  | openStore current stores certs =>
    rcases hp with hstore | hcerts
    · rcases List.mem_cons.mp hstore with rfl | hstore
      · exact .inr ⟨rfl, s.stores.mem_aliases hs⟩
      · exact .inl (.inl hstore)
    · exact .inl (.inr hcerts)
  | next listed current stores certs due =>
    refine hp.imp_right ?_
    rintro ⟨rfl, hdue⟩
    by_cases hkey : listed = key
    · exact ⟨rfl, .inl hkey⟩
    · exact ⟨rfl, .inr (List.mem_filter.mpr ⟨hdue, decide_eq_true (Ne.symm hkey)⟩)⟩
  | get listed current stores certs due =>
    rcases hp with (hstore | hcerts) | ⟨hcurrent, hlisted | hdue⟩
    · exact .inl (.inl hstore)
    · exact .inl (.inr (put_getCertificate hs (.inl hcerts)))
    · exact .inl (.inr (put_getCertificate hs (.inr ⟨hcurrent, hlisted⟩)))
    · exact .inr ⟨hcurrent, hdue⟩
  | close current stores certs => exact hp.resolve_right fun h => nomatch h.2
  | finish _ _ _ hscanning' => exact Phase.good_of_not_scanning hscanning'
  | _ => trivial

theorem Move.mCACerts (h : Move s t p s' p') (hp : p.Good store key cert)
    (hs : s.mCACerts key = some cert) : s'.mCACerts key = some cert := by
  cases h with
  | outside _ _ _ _ _ hcerts => exact hcerts ▸ hs
  | publish certs => exact hp.resolve_left fun h => nomatch h
  | finish _ _ _ _ _ _ _ _ hcerts => exact hcerts ▸ hs
  | _ => exact hs

/-- A scan goes on, or ends with the certificate in the cache. -/
theorem Move.scanning (h : Move s t p s' p') (hp : p.Good store key cert) (hscan : p.scanning = true) :
    p'.scanning = true ∨ s'.mCACerts key = some cert := by
  cases h with
  | outside hp _ => exact absurd ((Phase.not_scanning_of_not_locked hp).symm.trans hscan) (by decide)
  | test _ _ hwaiting =>
    exact absurd ((Phase.not_scanning_of_waiting hwaiting).symm.trans hscan) (by decide)
  | finish _ _ hscanning => exact absurd (hscanning.symm.trans hscan) (by decide)
  | publish certs => exact .inr (hp.resolve_left fun h => nomatch h)
  | openStore | next | get | close => exact .inl rfl
  | _ => cases hscan

/-- The flag stays set until a scan begins. -/
theorem Move.mReload (h : Move s t p s' p') (store : KeyStore) (key : String) (cert : X)
    (hs : s.mReload = true) :
    s'.mReload = true ∨ p.locked = true ∧ p'.scanning = true ∧ p'.Good store key cert := by
  cases h with
  | outside _ _ _ hreload => exact .inl (hreload hs)
  | finish _ _ _ _ _ _ hreload => exact .inl (hreload.trans hs)
  | clear => exact .inr ⟨rfl, rfl, .inl (mem_mKeyStores store)⟩
  | _ => exact .inl hs

/-- A thread that has decided not to scan has seen that the flag is not set. -/
theorem Move.waiting (h : Move s t p s' p') (store : KeyStore) (key : String) (cert : X)
    (hp : p.waiting = true) :
    p'.waiting = true ∨ p.locked = true ∧ (s.mReload = false ∧ s' = s ∨
      p'.scanning = true ∧ p'.Good store key cert) := by
  cases h with
  | outside _ _ hwaiting => exact absurd (hwaiting.symm.trans hp) (by decide)
  | lock => exact .inl rfl
  | test _ _ _ hwaiting' => exact .inl hwaiting'
  | skip hreload => exact .inr ⟨rfl, .inl ⟨hreload, rfl⟩⟩
  | clear => exact .inr ⟨rfl, .inr ⟨rfl, .inl (mem_mKeyStores store)⟩⟩
  | finish _ _ _ _ hwaiting => exact absurd (hwaiting.symm.trans hp) (by decide)
  | _ => cases hp

end

/-! ### Steps of the machine -/

section

variable {s : State X} (e : Thread × Choice X)

theorem AllGood.step (h : AllGood store key cert s) (hs : Present store key cert s)
    (hs' : Present store key cert (step s e)) : AllGood store key cert (step s e) := by
  obtain heq | ⟨shared, p, hmove, heq⟩ := step_cases s e
  · rwa [heq]
  rw [heq] at hs' ⊢
  intro u
  by_cases hu : u = e.1
  · rw [hu, s.phase_move_self]
    exact hmove.good (h e.1) hs
  · rw [s.phase_move_of_ne hu]
    exact (h u).prune (shared.stores.mem_aliases hs')

theorem Cached.step (h : Cached key cert s) (hgood : AllGood store key cert s) :
    Cached key cert (step s e) := by
  obtain heq | ⟨shared, p, hmove, heq⟩ := step_cases s e
  · rwa [heq]
  · rw [heq]
    exact hmove.mCACerts (hgood e.1) h

variable {e}

/-- A scan that begins is the only one. -/
theorem allGood_of_locked (h : Exclusive s) {t : Thread} (ht : (s.phase t).locked = true)
    (shared : Shared X) {p : Phase X} (hp : p.Good store key cert) :
    AllGood store key cert (s.move t shared p) := by
  intro u
  by_cases hu : u = t
  · rw [hu, s.phase_move_self]
    exact hp
  · have hunlocked : (s.phase u).locked = false :=
      Bool.eq_false_iff.mpr fun hlocked => hu (h.eq ht hlocked)
    rw [s.phase_move_of_ne hu]
    apply Phase.good_of_not_scanning
    rw [Phase.scanning_prune]
    exact Phase.not_scanning_of_not_locked hunlocked

/-- **One step keeps a certificate pending.** -/
theorem Pending.step (h : Pending store key cert s) (hex : Exclusive s) (hs : Present store key cert s)
    (hs' : Present store key cert (step s e)) : Pending store key cert (step s e) := by
  obtain heq | ⟨shared, p, hmove, heq⟩ := step_cases s e
  · rwa [heq]
  rcases h with hreload | ⟨hgood, hcached | ⟨t, ht⟩⟩
  · rw [heq]
    rcases hmove.mReload store key cert hreload with hreload | ⟨hlocked, hscan, hp⟩
    · exact .inl hreload
    · refine .inr ⟨allGood_of_locked hex hlocked shared hp, .inr ⟨e.1, ?_⟩⟩
      rw [s.phase_move_self]
      exact hscan
  · exact .inr ⟨hgood.step e hs hs', .inl (hcached.step e hgood)⟩
  · refine .inr ⟨hgood.step e hs hs', ?_⟩
    rw [heq]
    by_cases hte : t = e.1
    · subst hte
      refine (hmove.scanning (hgood e.1) ht).symm.imp id fun hscan => ⟨e.1, ?_⟩
      rw [s.phase_move_self]
      exact hscan
    · refine .inr ⟨t, ?_⟩
      rw [s.phase_move_of_ne hte, Phase.scanning_prune]
      exact ht

variable (store key cert)

/-- The certificate from the view of a thread that calls `load()`: pending until the thread has decided
whether to scan, and then in its scan or in the cache. -/
def Follows (t : Thread) (s : State X) : Prop :=
  if (s.phase t).waiting then Pending store key cert s
  else AllGood store key cert s ∧ ((s.phase t).scanning = true ∨ Cached key cert s)

variable {store key cert}

theorem Follows.pending {t : Thread} (h : Follows store key cert t s) : Pending store key cert s := by
  unfold Follows at h
  split at h
  · exact h
  · exact .inr ⟨h.1, h.2.symm.imp id fun hscan => ⟨t, hscan⟩⟩

/-- A thread with the lock that does not scan knows that no other does. -/
theorem Pending.cached_of_locked (h : Pending store key cert s) (hex : Exclusive s)
    (hreload : s.shared.mReload = false) {t : Thread} (hlocked : (s.phase t).locked = true)
    (hscan : (s.phase t).scanning = false) : AllGood store key cert s ∧ Cached key cert s := by
  rcases h with h | ⟨hgood, hcached | ⟨u, hu⟩⟩
  · exact absurd (hreload.symm.trans h) (by decide)
  · exact ⟨hgood, hcached⟩
  · rw [hex.eq hlocked (Phase.locked_of_scanning hu), hscan] at hu
    cases hu

/-- **One step, from the view of a thread.** -/
theorem Follows.step {t : Thread} (h : Follows store key cert t s) (hex : Exclusive s)
    (hs : Present store key cert s) (hs' : Present store key cert (step s e)) :
    Follows store key cert t (step s e) := by
  have hpending := h.pending.step hex hs hs'
  obtain heq | ⟨shared, p, hmove, heq⟩ := step_cases s e
  · rwa [heq]
  unfold Follows at h ⊢
  by_cases hw' : ((Certs.step s e).phase t).waiting = true
  · rwa [if_pos hw']
  rw [if_neg hw']
  by_cases hte : t = e.1
  · subst hte
    rw [heq, s.phase_move_self] at hw'
    split at h
    · rename_i hw
      rcases hmove.waiting store key cert hw with hw | ⟨hlocked, ⟨hreload, hsame⟩ | ⟨hscan, hp⟩⟩
      · exact absurd hw hw'
      · obtain ⟨hgood, hcached⟩ :=
          h.cached_of_locked hex hreload hlocked (Phase.not_scanning_of_waiting hw)
        exact ⟨hgood.step e hs hs', .inr (hcached.step e hgood)⟩
      · rw [heq, s.phase_move_self]
        exact ⟨allGood_of_locked hex hlocked shared hp, .inl hscan⟩
    · refine ⟨h.1.step e hs hs', ?_⟩
      rcases h.2 with hscan | hcached
      · rw [heq, s.phase_move_self]
        exact hmove.scanning (h.1 e.1) hscan
      · exact .inr (hcached.step e h.1)
  · rw [heq, s.phase_move_of_ne hte, Phase.waiting_prune] at hw'
    rw [if_neg hw'] at h
    refine ⟨h.1.step e hs hs', h.2.imp (fun hscan => ?_) fun hcached => hcached.step e h.1⟩
    rw [heq, s.phase_move_of_ne hte, Phase.scanning_prune]
    exact hscan

end

/-! ### Runs -/

/-- The certificate stays in its store. -/
abbrev Stays (store : KeyStore) (key : String) (cert : X) : State X → List (Thread × Choice X) → Prop :=
  Along step fun s e => Present store key cert s ∧ Present store key cert (step s e)

theorem pending_run {s : State X} (h : Pending store key cert s) (hex : Exclusive s)
    {es : List (Thread × Choice X)} (hstays : Stays store key cert s es) :
    Pending store key cert (run step s es) :=
  (run_inv (fun s e (h : Exclusive s ∧ Pending store key cert s) hs =>
    ⟨exclusive_step s e h.1, h.2.step h.1 hs.1 hs.2⟩) es s ⟨hex, h⟩ hstays).2

theorem follows_run {t : Thread} {s : State X} (h : Follows store key cert t s) (hex : Exclusive s)
    {es : List (Thread × Choice X)} (hstays : Stays store key cert s es) :
    Follows store key cert t (run step s es) :=
  (run_inv (fun s e (h : Exclusive s ∧ Follows store key cert t s) hs =>
    ⟨exclusive_step s e h.1, h.2.step h.1 hs.1 hs.2⟩) es s ⟨hex, h⟩ hstays).2

end

/-! ## `load()` can return -/

section

variable {s : State X} {t : Thread}

theorem step_eq {ch : Choice X} {shared : Shared X} {p : Phase X}
    (h : advance s.shared t (s.phase t) ch = some (shared, p)) : step s (t, ch) = s.move t shared p := by
  simp only [step, h]

/-- The thread can end its call by its own steps. -/
def Ends (t : Thread) (s : State X) : Prop :=
  ∃ es : List (Thread × Choice X), (∀ e ∈ es, e.1 = t) ∧
    (run step s es).phase t = .returning ∧ (run step s es).shared.writer = none

theorem Ends.of_step (ch : Choice X) {shared : Shared X} {p : Phase X}
    (hstep : advance s.shared t (s.phase t) ch = some (shared, p)) (h : Ends t (s.move t shared p)) :
    Ends t s := by
  obtain ⟨es, hes, hend⟩ := h
  refine ⟨(t, ch) :: es, ?_, ?_⟩
  · rintro e (_ | ⟨_, he⟩)
    · rfl
    · exact hes e he
  · rwa [run_cons, step_eq hstep]

theorem ends_of_unlocking (h : s.phase t = .unlocking) : Ends t s := by
  have hstep : advance s.shared t (s.phase t) .go =
      some ({ s.shared with writer := none }, .returning) := by rw [h]; rfl
  refine ⟨[(t, .go)], by simp, ?_⟩
  rw [run_cons, run_nil, step_eq hstep, s.phase_move_self]
  exact ⟨rfl, rfl⟩

theorem ends_of_checkLoaded (h : s.phase t = .checkLoaded) : Ends t s := by
  refine Ends.of_step .go (by rw [h]; rfl) ?_
  split
  · exact ends_of_unlocking (s.phase_move_self ..)
  · refine Ends.of_step .go (by rw [s.phase_move_self]; rfl) ?_
    exact ends_of_unlocking (State.phase_move_self ..)

/-- An enumeration that lists what is due ends. -/
theorem ends_of_enumerate {stores : List KeyStore}
    (hnext : ∀ (s : State X) certs, s.phase t = .loadCertificates stores certs → Ends t s)
    (store : KeyStore) (due : List String) (s : State X) (certs : String → Option X)
    (h : s.phase t = .enumerate store stores certs due) : Ends t s := by
  induction hn : due.length using Nat.strong_induction_on generalizing due s certs with
  | _ n ih =>
    cases due with
    | nil => exact Ends.of_step .go (by rw [h]; rfl) (hnext _ certs (s.phase_move_self ..))
    | cons key due =>
      refine Ends.of_step (.nextElement key) (by rw [h]; rfl) ?_
      refine Ends.of_step .go (by rw [s.phase_move_self]; rfl) ?_
      refine ih _ ?_ _ _ _ (State.phase_move_self ..) rfl
      have hle := List.length_filter_le (fun x => decide (x ≠ key)) due
      rw [List.filter_cons_of_neg (by simp), ← hn, List.length_cons]
      omega

theorem ends_of_loadCertificates (stores : List KeyStore) (s : State X) (certs : String → Option X)
    (h : s.phase t = .loadCertificates stores certs) : Ends t s := by
  induction stores generalizing s certs with
  | nil => exact Ends.of_step .go (by rw [h]; rfl) (ends_of_checkLoaded (s.phase_move_self ..))
  | cons store stores ih =>
    exact Ends.of_step .go (by rw [h]; rfl) (ends_of_enumerate ih store _ _ _ (s.phase_move_self ..))

theorem ends_of_clearReload (h : s.phase t = .clearReload) : Ends t s :=
  Ends.of_step .go (by rw [h]; rfl) (ends_of_loadCertificates _ _ _ (s.phase_move_self ..))

theorem ends_of_testReload (h : s.phase t = .testReload) : Ends t s := by
  refine Ends.of_step .go (by rw [h]; rfl) ?_
  split
  · exact ends_of_clearReload (s.phase_move_self ..)
  · exact ends_of_unlocking (s.phase_move_self ..)

theorem ends_of_testLoaded (h : s.phase t = .testLoaded) : Ends t s := by
  refine Ends.of_step .go (by rw [h]; rfl) ?_
  split
  · exact ends_of_testReload (s.phase_move_self ..)
  · exact ends_of_clearReload (s.phase_move_self ..)

theorem ends_of_locked (h : (s.phase t).locked = true) : Ends t s := by
  cases hp : s.phase t with
  | testLoaded => exact ends_of_testLoaded hp
  | testReload => exact ends_of_testReload hp
  | clearReload => exact ends_of_clearReload hp
  | loadCertificates stores certs => exact ends_of_loadCertificates stores s certs hp
  | enumerate store stores certs due =>
    exact ends_of_enumerate (ends_of_loadCertificates stores) store due s certs hp
  | fetch key store stores certs due =>
    refine Ends.of_step .go (by rw [hp]; rfl) ?_
    exact ends_of_enumerate (ends_of_loadCertificates stores) store due _ _ (s.phase_move_self ..)
  | checkLoaded => exact ends_of_checkLoaded hp
  | setLoaded => exact Ends.of_step .go (by rw [hp]; rfl) (ends_of_unlocking (s.phase_move_self ..))
  | unlocking => exact ends_of_unlocking hp
  | _ =>
    rw [hp] at h
    cases h

/-- Other threads do not move a thread that waits for the lock. -/
theorem run_phase_locking {u : Thread} (hut : u ≠ t) (h : s.phase u = .locking)
    {es : List (Thread × Choice X)} (hes : ∀ e ∈ es, e.1 = t) :
    (run step s es).phase u = .locking := by
  refine run_inv (I := fun s : State X => s.phase u = .locking) (P := fun _ e => e.1 = t) ?_ es s h ?_
  · intro s e hs he
    obtain heq | ⟨shared, p, _, heq⟩ := step_cases s e
    · rwa [heq]
    · rw [heq, s.phase_move_of_ne (he ▸ hut), hs]
      rfl
  · exact (along_of_forall (fun _ _ => trivial) es s : Along step (fun _ _ => True) s es).and_mem hes
      |>.mono fun _ _ h => h.2

/-- **A thread that waits for the lock can get it and return.** -/
theorem load_can_return (hex : Exclusive s) {j : Thread} (h : s.phase j = .locking) :
    ∃ es, (run step s es).phase j = .returning := by
  have hfree : ∀ s : State X, s.phase j = .locking → s.shared.writer = none →
      ∃ es, (run step s es).phase j = .returning := by
    intro s h hnone
    have hstep : advance s.shared j (s.phase j) .go =
        some ({ s.shared with writer := some j }, .testLoaded) := by
      rw [h]
      exact if_pos hnone
    obtain ⟨es, -, hend, -⟩ := Ends.of_step .go hstep (ends_of_testLoaded (s.phase_move_self ..))
    exact ⟨es, hend⟩
  cases hwriter : s.shared.writer with
  | none => exact hfree s h hwriter
  | some t =>
    -- the writer ends first
    have hlocked := (hex t).mpr hwriter
    have hjt : j ≠ t := by
      rintro rfl
      rw [h] at hlocked
      cases hlocked
    obtain ⟨es, hes, -, hnone⟩ := ends_of_locked hlocked
    obtain ⟨fs, hend⟩ := hfree _ (run_phase_locking hjt h hes) hnone
    exact ⟨es ++ fs, by rwa [run_append]⟩

end

/-- **A certificate that is in its store when `reset()` sets the flag, and stays there, is in the cache
when a `load()` that is called later returns; and the call can return.** -/
theorem load_returns_certificate (stores : Contents X) (before between : List (Thread × Choice X))
    (i j : Thread) (store : KeyStore) (key : String) (cert : X) (s₁ s₂ : State X)
    (h₁ : run step (initial stores) before = s₁) (hreset : s₁.phase i = .resetting)
    (h₂ : run step s₁ ((i, .go) :: between) = s₂) (hload : s₂.phase j = .idle) :
    (∃ during, (run step s₂ ((j, .callLoad) :: during)).phase j = .returning) ∧
    ∀ during, (run step s₂ ((j, .callLoad) :: during)).phase j = .returning →
      Stays store key cert s₁ ((i, .go) :: between ++ (j, .callLoad) :: during) →
      (run step s₂ ((j, .callLoad) :: during)).shared.mCACerts key = some cert := by
  have hex₁ : Exclusive s₁ := h₁ ▸ exclusive_run stores before
  have hex₂ : Exclusive s₂ := h₂ ▸ (run_inv (fun s e h _ => exclusive_step s e h) _ s₁ hex₁
    (along_of_forall (fun _ _ => trivial) _ _))
  have hcall : step s₂ (j, .callLoad) = s₂.move j s₂.shared .locking := step_eq (by rw [hload]; rfl)
  have hlocking : (step s₂ (j, .callLoad)).phase j = .locking := by rw [hcall, s₂.phase_move_self]
  refine ⟨load_can_return (exclusive_step _ _ hex₂) hlocking, fun during hreturn hstays => ?_⟩
  obtain ⟨hstays₁, hstays₂⟩ := along_append.mp hstays
  have hset : Pending store key cert (step s₁ (i, .go)) := by
    rw [step_eq (by rw [hreset]; rfl)]
    exact .inl rfl
  have hpending : Pending store key cert s₂ :=
    h₂ ▸ pending_run hset (exclusive_step _ _ hex₁) hstays₁.2
  rw [h₂] at hstays₂
  have hfollows : Follows store key cert j (step s₂ (j, .callLoad)) := by
    rw [Follows, hlocking]
    exact hpending.step hex₂ hstays₂.1.1 hstays₂.1.2
  have hend := follows_run hfollows (exclusive_step _ _ hex₂) hstays₂.2
  rw [run_cons] at hreturn ⊢
  rw [Follows, hreturn] at hend
  exact hend.2.resolve_left fun h => nomatch h

/-- The certificates are loaded, and one is added. -/
def added : List (Thread × Choice ℕ) :=
  (1, .callLoad) :: List.replicate 12 (1, .go) ++
    [(0, .callEdit), (0, .edit (.single "local:a" 7)), (0, .go)]

/-- Another thread clears the flag that `reset()` has set. -/
def cleared : List (Thread × Choice ℕ) :=
  [(0, .go), (2, .callLoad), (2, .go), (2, .go), (2, .go), (2, .go)]

/-- The first thread waits for the lock while the other one scans the stores, and finds the flag clear. -/
def waited : List (Thread × Choice ℕ) :=
  [(1, .go), (2, .go), (2, .nextElement "local:a"), (2, .go), (2, .go), (1, .go), (2, .go), (2, .go), (2, .go),
    (2, .go), (2, .go), (1, .go), (1, .go), (1, .go), (1, .go)]

theorem load_returns_certificate_added :
    (run step (run step (run step (initial .empty) added) ((0, .go) :: cleared))
      ((1, .callLoad) :: waited)).shared.mCACerts "local:a" = some 7 :=
  (load_returns_certificate .empty added cleared 0 1 .localCertificateStore "local:a" 7 _ _ rfl rfl rfl
    rfl).2 waited rfl (by decide +kernel)

end VpnCore.Certs
