import VpnCore.Lib.Runs

/-!
# VpnCore.Service.Tunnel — the TUN device of `android_service`

`setup_tun_device` takes a new descriptor from the builder, closes the old one, and registers the
callbacks and queues the reader job unless there was an old one.  `setup_tun_device_without_dns`
replaces the descriptor and registers nothing.  The reader `handle_plain` ends itself when the device
is closed or `select` fails.  `plumbed_iff` says in which runs an open device always has its
callbacks and one reader, and each earlier descriptor was closed once.
-/

namespace VpnCore.Service

open VpnCore.Lib

/-! ## The service -/

/-- The fields of `private_android_service_t`; for each callback whether it is in its slot, which
holds one callback; the `handle_plain` jobs in the queue of the processor; the descriptors that the
builder returned, and those given to `close`. -/
structure Tunnel (SA : Type) where
  ikeSa : SA
  tunfd : ℤ := -1
  useDnsProxy : Bool := false
  espCb : Bool := false
  inboundCb : Bool := false
  outboundCb : Bool := false
  dnsCb : Bool := false
  jobs : ℕ := 0
  obtained : List ℤ := []
  closed : List ℤ := []
  deriving DecidableEq

/-- What the builder answers: for each virtual IP whether it is the any-address and whether it was
added, whether all routes were added, whether the MTU was set, and the descriptor of `establish`. -/
structure Answers where
  vips : List (Bool × Bool)
  routesAdded : Bool
  mtuSet : Bool
  established : Option ℕ
  deriving DecidableEq

/-- The loop over the virtual IPs, which ends at the first that is not added. -/
def vipFound : List (Bool × Bool) → Bool → Bool
  | [], found => found
  | (anyaddr, added) :: vips, found =>
    if anyaddr then vipFound vips found else if added then vipFound vips true else found

/-- The descriptor `establish` returns; -1 is a failure. -/
def descriptor : Option ℕ → ℤ
  | none => -1
  | some fd => fd

namespace Tunnel

variable {SA : Type} [DecidableEq SA]

/-- The old descriptor is closed and the new one kept. -/
def replace (s : Tunnel SA) (tunfd : ℤ) : Tunnel SA :=
  { s with
    tunfd := tunfd
    obtained := s.obtained ++ [tunfd]
    closed := if 0 < s.tunfd then s.closed ++ [s.tunfd] else s.closed }

/-- The callbacks are registered and the reader is queued. -/
def register (s : Tunnel SA) : Tunnel SA :=
  { s with
    espCb := true, inboundCb := true, outboundCb := true, dnsCb := true
    jobs := s.jobs + 1 }

def setupTunDevice (s : Tunnel SA) (answers : Answers) : Tunnel SA × Bool :=
  if !vipFound answers.vips false then (s, false)
  else if !answers.routesAdded || !answers.mtuSet then (s, false)
  else
    let tunfd := descriptor answers.established
    if tunfd = -1 then (s, false)
    else
      let alreadyRegistered := 0 < s.tunfd
      let s := s.replace tunfd
      (if alreadyRegistered then s else s.register, true)

def setupTunDeviceWithoutDns (s : Tunnel SA) (established : Option ℕ) : Tunnel SA × Bool :=
  let tunfd := descriptor established
  if tunfd = -1 then (s, false) else (s.replace tunfd, true)

def closeTunDevice (s : Tunnel SA) : Tunnel SA :=
  if s.tunfd < 0 then s
  else
    { s with
      tunfd := -1
      espCb := false, inboundCb := false, outboundCb := false, dnsCb := false
      closed := s.closed ++ [s.tunfd] }

end Tunnel

/-! ## The steps -/

/-- How `select` and `read` end in `handle_plain`. -/
inductive Reading
  /-- `select` fails with `EBADF` -/
  | badDescriptor
  /-- `select` fails with another error -/
  | selectFailed
  | timeout
  | readFailed
  | packet
  deriving DecidableEq

/-- `JOB_REQUEUE_NONE`, and `JOB_REQUEUE_FAIR` or `JOB_REQUEUE_DIRECT`. -/
def handlePlain (tunfd : ℤ) (reading : Reading) : Bool :=
  if tunfd < 0 then false
  else
    match reading with
    | .badDescriptor => true
    | .selectFailed => false
    | .timeout => true
    | .readFailed => true
    | .packet => true

/-- What happens to the service. -/
inductive Event (SA : Type)
  | childUpdown (ikeSa : SA) (up : Bool) (answers : Answers)
  | ikeReestablishPre (old : SA) (established : Option ℕ)
  | ikeReestablishPost (old new : SA) (initiated : Bool)
  | closeTunDevice
  /-- a queued job runs -/
  | handlePlain (reading : Reading)
  deriving DecidableEq

variable {SA : Type} [DecidableEq SA]

def Tunnel.step (s : Tunnel SA) : Event SA → Tunnel SA
  | .childUpdown ikeSa up answers =>
    if s.ikeSa = ikeSa ∧ up then ({ s with useDnsProxy := false }.setupTunDevice answers).1 else s
  | .ikeReestablishPre old established =>
    if s.ikeSa = old then ({ s with useDnsProxy := true }.setupTunDeviceWithoutDns established).1
    else s
  | .ikeReestablishPost old new initiated =>
    if s.ikeSa = old ∧ initiated then { s with ikeSa := new } else s
  | .closeTunDevice => s.closeTunDevice
  | .handlePlain reading =>
    if s.jobs = 0 then s
    else if Service.handlePlain s.tunfd reading then s
    else { s with jobs := s.jobs - 1 }

/-- The device is open: the callbacks are registered, one reader is queued, and every descriptor but
the current one was closed once. -/
structure Tunnel.Plumbing (s : Tunnel SA) : Prop where
  esp : s.espCb = true
  inbound : s.inboundCb = true
  outbound : s.outboundCb = true
  dns : s.dnsCb = true
  reader : s.jobs = 1
  closed : (s.tunfd :: s.closed).Perm s.obtained

/-- An open interface is plumbed. -/
def Tunnel.Plumbed (s : Tunnel SA) : Prop := 0 ≤ s.tunfd → s.Plumbing

/-- The step takes a new descriptor for the interface. -/
def Event.obtains (s : Tunnel SA) : Event SA → Bool
  | .childUpdown ikeSa up answers => s.ikeSa = ikeSa && up && vipFound answers.vips false &&
    answers.routesAdded && answers.mtuSet && answers.established.isSome
  | .ikeReestablishPre old established => s.ikeSa = old && established.isSome
  | _ => false

/-- A setup does not replace the descriptor 0 and finds no reader of a closed device; a setup without
DNS finds an open device; `select` does not fail on an open device. -/
def Careful (s : Tunnel SA) (e : Event SA) : Prop :=
  match e with
  | .childUpdown _ _ _ => e.obtains s = true → s.tunfd ≠ 0 ∧ (s.tunfd < 0 → s.jobs = 0)
  | .ikeReestablishPre _ _ => e.obtains s = true → 0 < s.tunfd
  | .handlePlain reading => 0 ≤ s.tunfd → reading ≠ .selectFailed
  | _ => True

/-! ## The invariant -/

/-- A closed device has no callbacks, at most the reader of the device before, and all its
descriptors were closed. -/
structure Tunnel.Idle (s : Tunnel SA) : Prop where
  tunfd : s.tunfd = -1
  esp : s.espCb = false
  reader : s.jobs ≤ 1
  closed : s.closed.Perm s.obtained

/-- Either idle, or open and plumbed. -/
def Tunnel.Inv (s : Tunnel SA) : Prop := s.Idle ∨ 0 ≤ s.tunfd ∧ s.Plumbing

/-! ## What a step does -/

variable {s : Tunnel SA} {e : Event SA}

/-- The descriptor is replaced by a new one, with the other flag. -/
def Tunnel.obtain (s : Tunnel SA) (useDnsProxy : Bool) (fd : ℕ) : Tunnel SA :=
  { s with useDnsProxy := useDnsProxy }.replace fd

theorem descriptor_eq_neg_one {o : Option ℕ} : descriptor o = -1 ↔ o = none := by
  cases o with
  | none => exact iff_of_true rfl rfl
  | some fd =>
    refine iff_of_false ?_ (by simp)
    change (fd : ℤ) ≠ -1
    omega

theorem childUpdown_obtains {ikeSa : SA} {up : Bool} {answers : Answers}
    (h : (Event.childUpdown ikeSa up answers).obtains s = true) :
    ∃ fd, s.step (.childUpdown ikeSa up answers) =
      if 0 < s.tunfd then s.obtain false fd else (s.obtain false fd).register := by
  simp only [Event.obtains, Bool.and_eq_true, decide_eq_true_eq, Option.isSome_iff_exists] at h
  obtain ⟨⟨⟨⟨⟨hsa, hup⟩, hvip⟩, hroutes⟩, hmtu⟩, fd, hfd⟩ := h
  have hne : ¬ (fd : ℤ) = -1 := by omega
  refine ⟨fd, ?_⟩
  simp [Tunnel.step, hsa, hup, Tunnel.setupTunDevice, hvip, hroutes, hmtu, hfd, descriptor, hne,
    Tunnel.obtain]

theorem ikeReestablishPre_obtains {old : SA} {established : Option ℕ}
    (h : (Event.ikeReestablishPre old established).obtains s = true) :
    ∃ fd, s.step (.ikeReestablishPre old established) = s.obtain true fd := by
  simp only [Event.obtains, Bool.and_eq_true, decide_eq_true_eq, Option.isSome_iff_exists] at h
  obtain ⟨hsa, fd, hfd⟩ := h
  have hne : ¬ (fd : ℤ) = -1 := by omega
  refine ⟨fd, ?_⟩
  simp [Tunnel.step, hsa, Tunnel.setupTunDeviceWithoutDns, hfd, descriptor, hne, Tunnel.obtain]

/-- The states differ at most in the SA and the use of the DNS proxy. -/
structure Alike (s t : Tunnel SA) : Prop where
  tunfd : t.tunfd = s.tunfd
  esp : t.espCb = s.espCb
  inbound : t.inboundCb = s.inboundCb
  outbound : t.outboundCb = s.outboundCb
  dns : t.dnsCb = s.dnsCb
  jobs : t.jobs = s.jobs
  obtained : t.obtained = s.obtained
  closed : t.closed = s.closed

omit [DecidableEq SA] in
theorem Alike.refl (s : Tunnel SA) : Alike s s := ⟨rfl, rfl, rfl, rfl, rfl, rfl, rfl, rfl⟩

/-- Without a new descriptor the three hooks change nothing else. -/
theorem alike_of_not_obtains (h : e.obtains s = false)
    (he : e ≠ .closeTunDevice ∧ ∀ reading, e ≠ .handlePlain reading) : Alike s (s.step e) := by
  cases e with
  | childUpdown ikeSa up answers =>
    simp only [Tunnel.step, Tunnel.setupTunDevice, descriptor_eq_neg_one]
    split_ifs with hsa hvip hroutes hnone
    · exact ⟨rfl, rfl, rfl, rfl, rfl, rfl, rfl, rfl⟩
    · exact ⟨rfl, rfl, rfl, rfl, rfl, rfl, rfl, rfl⟩
    · exact ⟨rfl, rfl, rfl, rfl, rfl, rfl, rfl, rfl⟩
    · simp_all [Event.obtains]
    · simp_all [Event.obtains]
    · exact .refl s
  | ikeReestablishPre old established =>
    simp only [Tunnel.step, Tunnel.setupTunDeviceWithoutDns, descriptor_eq_neg_one]
    split_ifs with hsa hnone
    · exact ⟨rfl, rfl, rfl, rfl, rfl, rfl, rfl, rfl⟩
    · simp_all [Event.obtains]
    · exact .refl s
  | ikeReestablishPost old new initiated =>
    simp only [Tunnel.step]
    split_ifs
    · exact ⟨rfl, rfl, rfl, rfl, rfl, rfl, rfl, rfl⟩
    · exact .refl s
  | closeTunDevice => exact absurd rfl he.1
  | handlePlain reading => exact absurd rfl (he.2 reading)

/-! ## The invariant is kept -/

omit [DecidableEq SA] in
theorem Tunnel.Idle.not_open (h : s.Idle) : ¬ 0 ≤ s.tunfd := by
  rw [h.tunfd]
  decide

omit [DecidableEq SA] in
theorem Tunnel.Inv.plumbed (h : s.Inv) : s.Plumbed := fun hopen =>
  h.elim (fun hidle => absurd hopen hidle.not_open) And.right

omit [DecidableEq SA] in
theorem Alike.inv {t : Tunnel SA} (h : Alike s t) (hs : s.Inv) : t.Inv := by
  obtain ⟨h1, h2, h3, h4⟩ | ⟨h0, h1, h2, h3, h4, h5, h6⟩ := hs
  · exact .inl ⟨h.tunfd.trans h1, h.esp.trans h2, h.jobs ▸ h3, h.closed ▸ h.obtained ▸ h4⟩
  · refine .inr ⟨h.tunfd ▸ h0, h.esp.trans h1, h.inbound.trans h2, h.outbound.trans h3,
      h.dns.trans h4, h.jobs.trans h5, ?_⟩
    rw [h.tunfd, h.closed, h.obtained]
    exact h6

theorem perm_concat {fd : ℤ} {l m : List ℤ} (h : l.Perm m) : (fd :: l).Perm (m ++ [fd]) :=
  (h.cons fd).trans (List.perm_append_singleton fd m).symm

omit [DecidableEq SA] in
/-- A device that was closed is opened again. -/
theorem Tunnel.Idle.register_obtain (h : s.Idle) (hjobs : s.jobs = 0) (b : Bool) (fd : ℕ) :
    (s.obtain b fd).register.Inv := by
  have hneg : ¬ 0 < s.tunfd := fun hpos => h.not_open hpos.le
  refine .inr ⟨Int.natCast_nonneg fd, rfl, rfl, rfl, rfl, by simp [register, obtain, replace, hjobs], ?_⟩
  simp only [register, obtain, replace, if_neg hneg]
  exact perm_concat h.closed

omit [DecidableEq SA] in
/-- The descriptor of an open device is replaced. -/
theorem Tunnel.Plumbing.obtain (h : s.Plumbing) (hpos : 0 < s.tunfd) (b : Bool) (fd : ℕ) :
    (s.obtain b fd).Inv := by
  refine .inr ⟨Int.natCast_nonneg fd, h.esp, h.inbound, h.outbound, h.dns, h.reader, ?_⟩
  simp only [Tunnel.obtain, replace, if_pos hpos]
  exact perm_concat ((List.perm_append_singleton s.tunfd s.closed).trans h.closed)

omit [DecidableEq SA] in
theorem Tunnel.Inv.closeTunDevice (h : s.Inv) : s.closeTunDevice.Inv := by
  rcases h with h | ⟨hopen, h⟩
  · rw [Tunnel.closeTunDevice, if_pos (by rw [h.tunfd]; decide)]
    exact .inl h
  · rw [Tunnel.closeTunDevice, if_neg (not_lt.mpr hopen)]
    exact .inl ⟨rfl, rfl, h.reader.le,
      (List.perm_append_singleton s.tunfd s.closed).trans h.closed⟩

theorem inv_step (h : s.Inv) (hc : Careful s e) : (s.step e).Inv := by
  cases e with
  | childUpdown ikeSa up answers =>
    by_cases ho : (Event.childUpdown ikeSa up answers).obtains s = true
    · obtain ⟨hzero, hreader⟩ := hc ho
      obtain ⟨fd, hstep⟩ := childUpdown_obtains ho
      rw [hstep]
      rcases h with h | ⟨hopen, h⟩
      · have hneg : s.tunfd < 0 := by rw [h.tunfd]; decide
        rw [if_neg hneg.not_gt]
        exact h.register_obtain (hreader hneg) false fd
      · have hpos : 0 < s.tunfd := lt_of_le_of_ne hopen hzero.symm
        rw [if_pos hpos]
        exact h.obtain hpos false fd
    · exact (alike_of_not_obtains (by simpa using ho) ⟨by simp, by simp⟩).inv h
  | ikeReestablishPre old established =>
    by_cases ho : (Event.ikeReestablishPre old established).obtains s = true
    · have hpos := hc ho
      obtain ⟨fd, hstep⟩ := ikeReestablishPre_obtains ho
      rw [hstep]
      rcases h with h | ⟨-, h⟩
      · exact absurd hpos.le h.not_open
      · exact h.obtain hpos true fd
    · exact (alike_of_not_obtains (by simpa using ho) ⟨by simp, by simp⟩).inv h
  | ikeReestablishPost old new initiated => exact (alike_of_not_obtains rfl ⟨by simp, by simp⟩).inv h
  | closeTunDevice => exact h.closeTunDevice
  | handlePlain reading =>
    simp only [Tunnel.step]
    split_ifs with hjobs hrequeue
    · exact h
    · exact h
    · rcases h with h | ⟨hopen, h⟩
      · exact .inl ⟨h.tunfd, h.esp, (Nat.sub_le _ _).trans h.reader, h.closed⟩
      · -- the reader of an open device ends only when `select` fails
        have hne := hc hopen
        cases reading <;> simp_all [handlePlain, not_lt.mpr hopen]

/-! ## No other step keeps it -/

/-- A step that leaves the plumbing in order meets the condition. -/
theorem careful_of_plumbed (h : s.Inv) (hp : (s.step e).Plumbed) : Careful s e := by
  cases e with
  | childUpdown ikeSa up answers =>
    intro ho
    obtain ⟨fd, hstep⟩ := childUpdown_obtains ho
    rw [hstep] at hp
    rcases h with h | ⟨hopen, h⟩
    · have hneg : s.tunfd < 0 := by rw [h.tunfd]; decide
      rw [if_neg hneg.not_gt] at hp
      have hjobs : s.jobs + 1 = 1 := (hp (Int.natCast_nonneg fd)).reader
      exact ⟨hneg.ne, fun _ => by omega⟩
    · refine ⟨fun hzero => ?_, fun hneg => absurd hopen hneg.not_ge⟩
      rw [if_neg (by rw [hzero]; decide)] at hp
      have hjobs : s.jobs + 1 = 1 := (hp (Int.natCast_nonneg fd)).reader
      have := h.reader
      omega
  | ikeReestablishPre old established =>
    intro ho
    obtain ⟨fd, hstep⟩ := ikeReestablishPre_obtains ho
    rw [hstep] at hp
    have hplumbing := hp (Int.natCast_nonneg fd)
    rcases h with h | ⟨hopen, h⟩
    · have hesp : s.espCb = true := hplumbing.esp
      rw [h.esp] at hesp
      exact absurd hesp Bool.false_ne_true
    · refine lt_of_le_of_ne hopen fun hzero => ?_
      -- the descriptor 0 was obtained and is neither kept nor closed
      have hlen := hplumbing.closed.length_eq
      have hlen' := h.closed.length_eq
      simp only [Tunnel.obtain, Tunnel.replace, ← hzero, lt_irrefl, if_false, List.length_cons,
        List.length_append, List.length_nil] at hlen hlen'
      omega
  | ikeReestablishPost old new initiated => trivial
  | closeTunDevice => trivial
  | handlePlain reading =>
    rintro hopen rfl
    rcases h with h | ⟨-, h⟩
    · exact h.not_open hopen
    · have hstep : s.step (.handlePlain .selectFailed) = { s with jobs := 0 } := by
        simp [Tunnel.step, h.reader, handlePlain]
      rw [hstep] at hp
      exact absurd (hp hopen).reader (by simp)

/-- **Every state of a run with an open device has its plumbing exactly if every step is careful.** -/
theorem plumbed_iff (ikeSa : SA) (events : List (Event SA)) :
    Throughout Tunnel.step (fun _ s => s.Plumbed) { ikeSa := ikeSa } events ↔
      Along Tunnel.step Careful { ikeSa := ikeSa } events :=
  throughout_iff_along (I := Tunnel.Inv) (fun _ h => h.plumbed) (fun _ _ h hc => inv_step h hc)
    (fun _ _ h hp => careful_of_plumbed h hp) events { ikeSa := ikeSa }
    (.inl ⟨rfl, rfl, Nat.zero_le 1, .refl []⟩)

/-! ## Runs that lose the plumbing -/

/-- The SA `()` comes up, with the descriptor `fd`. -/
def comesUp (fd : ℕ) : Event Unit := .childUpdown () true ⟨[(false, true)], true, true, some fd⟩

/-- The state after the events. -/
def after (events : List (Event Unit)) : Tunnel Unit := run Tunnel.step { ikeSa := () } events

/-- `select` is interrupted, and nothing reads from the device; the device is opened again before the
reader sees that it was closed, and there are two readers; the device is replaced before
re-authentication after it was closed, and nothing is registered; the descriptor 0 is never closed. -/
theorem plumbing_lost :
    (0 ≤ (after [comesUp 5, .handlePlain .selectFailed]).tunfd ∧
      (after [comesUp 5, .handlePlain .selectFailed]).jobs = 0) ∧
    (0 ≤ (after [comesUp 5, .closeTunDevice, comesUp 5]).tunfd ∧
      (after [comesUp 5, .closeTunDevice, comesUp 5]).jobs = 2) ∧
    (0 ≤ (after [comesUp 5, .closeTunDevice, .ikeReestablishPre () (some 5)]).tunfd ∧
      (after [comesUp 5, .closeTunDevice, .ikeReestablishPre () (some 5)]).espCb = false) ∧
    0 ≤ (after [comesUp 0, comesUp 5]).tunfd ∧ (after [comesUp 0, comesUp 5]).closed = [] ∧
      (after [comesUp 0, comesUp 5]).obtained = [0, 5] := by
  decide

end VpnCore.Service
