import VpnCore.Route.Rounds

/-!
# VpnCore.Route.Separated — the sets of networks that `generateIPList` serves right

Three steps of the loop can go wrong.  A network that is ignored inside the current one may also lie
inside a queued network of the other kind with the same first address.  The upper half of a split
current network is queued without the check for a network of the same range.  The split of a single
address queues the address behind it.  `Separated` says of a set of networks that the sweep over it
meets none of these; then the result is right for every choice of the queue.
-/

namespace VpnCore.Route

open VpnCore.Lib VpnCore.Config IpAddress

/-! ## The condition on the set -/

/-- The longest prefix of `S` that contains the network `n` has the kind of `n`. -/
structure Part (v : Bool) (S : List IpAddress) (n : IpAddress) : Prop where
  family : n.isV4 = v
  mask : n.networkMask ≤ n.width
  kind : Kind (S.filter fun m => m.networkMask ≤ n.networkMask) n.getFirstAddress n.included

/-- The longest prefix of the address `a` is included iff `n` is. -/
def Agrees (S : List IpAddress) (n : IpAddress) (a : ℤ) : Prop :=
  Kind S a true ↔ n.included = true

/-- **The networks of the set are separated** enough for the sweep. -/
structure Separated (v : Bool) (S : List IpAddress) : Prop where
  /-- a part of the other kind inside `n` comes only after an address that does not agree with `n`,
  or starts with one -/
  nested : ∀ n m, Part v S n → Part v S m → n.included ≠ m.included →
    n.getFirstAddress < m.getFirstAddress → m.getFirstAddress ≤ n.getLastAddress →
    ∃ a, n.getFirstAddress ≤ a ∧ a ≤ m.getFirstAddress ∧ ¬ Agrees S n a
  /-- where a network `y` with the first address of `n` has an upper half of the other kind, that half
  starts with the first address `f` that does not agree with `n`, and is the least network there -/
  upperHalf : ∀ (n y : IpAddress) (f : ℤ), Part v S n → n.getFirstAddress = y.getFirstAddress →
    n.networkMask ≤ y.networkMask → n.included ≠ y.included → Part v S y.split.2 →
    n.getFirstAddress < f → f ≤ y.split.2.getFirstAddress →
    (∀ a, n.getFirstAddress ≤ a → a < f → Agrees S n a) → ¬ Agrees S n f →
    f = y.split.2.getFirstAddress ∧
      ∀ k ∈ S, k.getFirstAddress = f → k.networkMask ≤ y.networkMask + 1
  /-- where half an address is in the set beside the address with the other kind, the set has the
  address behind it too, or that one agrees with the address, and so do the parts that contain both -/
  address : ∀ x ∈ S, ∀ y, Part v S y → y.networkMask = y.width → x.networkMask = x.width + 1 →
    x.getFirstAddress = y.getFirstAddress → x.included ≠ y.included →
    (y ∈ S ∨ ∃ k : IpAddress, y = k.split.2) →
    (∃ z ∈ S, y.split.2.equals z = true) ∨
      Agrees S y (y.getFirstAddress + 1) ∧ ∀ n, Part v S n → n.getFirstAddress = y.getFirstAddress →
        y.getFirstAddress < n.getLastAddress → n.included = y.included

variable {v : Bool} {S rest networks done : List IpAddress} {cur next m n : IpAddress}

theorem OneKind.of_distinct (hv : OfFamily v S) (hd : Distinct S) : OneKind S := by
  intro m hm n hn a hma hna hmask
  have hfam : n.isV4 = m.isV4 := by rw [hv m hm, hv n hn]
  have he : m.equals n = true :=
    equals_iff.mpr ⟨hmask, Covers.first_eq_of_mask hfam hmask.symm hna hma⟩
  rw [hd m hm n hn (compareTo_eq_iff.mpr he)]

theorem mem_shorter {k : ℤ} : m ∈ (S.filter fun m => m.networkMask ≤ k) ↔ m ∈ S ∧ m.networkMask ≤ k := by
  simp

/-- A part lies inside a network of the set. -/
theorem Part.base (h : Part v S n) (hv : OfFamily v S) :
    ∃ k ∈ S, k.networkMask ≤ n.networkMask ∧ ∀ a, n.Covers a → k.Covers a := by
  obtain ⟨k, hk, -⟩ := h.kind
  obtain ⟨hkS, hkm⟩ := mem_shorter.mp hk.mem
  have hfam : k.isV4 = n.isV4 := by rw [hv k hkS, h.family]
  exact ⟨k, hkS, hkm, fun a ha => Covers.nested hfam hkm hk.hits n.covers_first ha⟩

theorem Part.of_mem (hv : OfFamily v S) (hn : n ∈ S) (hmask : n.networkMask ≤ n.width) :
    Part v S n :=
  ⟨hv n hn, hmask, n, ⟨mem_shorter.mpr ⟨hn, le_rfl⟩, n.covers_first,
    fun _ hm _ => (mem_shorter.mp hm).2⟩, rfl⟩

theorem Part.unique (hone : OneKind S) (hm : Part v S m) (hn : Part v S n)
    (he : m.equals n = true) : m.included = n.included := by
  obtain ⟨hmask, hfirst⟩ := equals_iff.mp he
  have hk := hn.kind
  rw [← hmask, hfirst] at hk
  exact Shows.unique (hone.mono fun _ hk => (mem_shorter.mp hk).1) hm.kind hk

/-- A half of a part is one, unless the set has a network of the other kind with its range. -/
theorem Part.half {k : IpAddress} (h : Part v S n) (hv : OfFamily v S) (hw : n.networkMask < n.width)
    (hk : k = n.split.1 ∨ k = n.split.2)
    (hS : ∀ z ∈ S, k.equals z = true → z.included = n.included) : Part v S k := by
  obtain ⟨hkv, hkm, hkw, hki⟩ : k.isV4 = n.isV4 ∧ k.networkMask = n.networkMask + 1 ∧
      k.width = n.width ∧ k.included = n.included := by
    rcases hk with rfl | rfl <;> exact ⟨rfl, rfl, rfl, rfl⟩
  have hin : n.Covers k.getFirstAddress := by
    refine (covers_split hw).mpr ?_
    rcases hk with rfl | rfl
    · exact .inl (covers_first _)
    · exact .inr (covers_first _)
  refine ⟨hkv.trans h.family, by omega, ?_⟩
  by_cases hz : ∃ z ∈ S, k.equals z = true
  · obtain ⟨z, hzS, he⟩ := hz
    obtain ⟨hmask, hfirst⟩ := equals_iff.mp he
    refine ⟨z, ⟨mem_shorter.mpr ⟨hzS, hmask.ge⟩, hfirst ▸ z.covers_first, fun m hm _ => ?_⟩,
      (hS z hzS he).trans hki.symm⟩
    exact (mem_shorter.mp hm).2.trans hmask.le
  · obtain ⟨b, hb, hbi⟩ := h.kind
    obtain ⟨hbS, hbm⟩ := mem_shorter.mp hb.mem
    have hfam : ∀ m ∈ S, m.isV4 = n.isV4 := fun m hm => by rw [hv m hm, h.family]
    refine ⟨b, ⟨mem_shorter.mpr ⟨hbS, by omega⟩,
      Covers.nested (hfam b hbS) hbm hb.hits n.covers_first hin, fun m hm hma => ?_⟩, hbi.trans hki.symm⟩
    obtain ⟨hmS, hmm⟩ := mem_shorter.mp hm
    -- a network of the length of the half has its range
    have hle : m.networkMask ≤ n.networkMask := by
      by_contra hgt
      have hmask : m.networkMask = k.networkMask := by omega
      refine hz ⟨m, hmS, equals_iff.mpr ⟨hmask.symm, ?_⟩⟩
      exact Covers.first_eq_of_mask ((hfam m hmS).trans hkv.symm) hmask hma k.covers_first
    exact hb.le m (mem_shorter.mpr ⟨hmS, hle⟩) (Covers.nested (hfam m hmS) hle hma hin n.covers_first)

/-- The network with the other kind. -/
def IpAddress.other (n : IpAddress) : IpAddress := { n with included := !n.included }

/-- A network inside a part is a part, or the one with the other kind is. -/
theorem Part.inside (h : Part v S n) (hv : OfFamily v S) (hm : m.isV4 = v)
    (hmask : m.networkMask ≤ m.width) (hle : n.networkMask ≤ m.networkMask)
    (hin : n.Covers m.getFirstAddress) : Part v S m ∨ Part v S m.other := by
  obtain ⟨b, hbS, hbm, hcov⟩ := h.base hv
  obtain ⟨k, hk⟩ : ∃ k, Longest _ m.getFirstAddress k := exists_foremost _
    ⟨b, mem_shorter.mpr ⟨hbS, hbm.trans hle⟩, hcov _ hin⟩
  by_cases hkind : k.included = m.included
  · exact .inl ⟨hm, hmask, k, hk, hkind⟩
  · exact .inr ⟨hm, hmask, k, hk, Bool.eq_not.mpr hkind⟩

/-! ## The networks in play -/

/-- **Where the networks in play come from**: they are parts, they are networks of the set or upper
halves, and of the set nothing is missing that matters. -/
structure Play (v : Bool) (S : List IpAddress) (cur : IpAddress) (networks : List IpAddress) :
    Prop where
  mask : ∀ n ∈ cur :: networks, n.networkMask ≤ n.width + 1
  part : ∀ n ∈ networks, n.networkMask ≤ n.width → Part v S n
  /-- the current network is a part, or what is left of one at its first address -/
  around : cur.networkMask ≤ cur.width → ∃ n, Part v S n ∧
    n.getFirstAddress = cur.getFirstAddress ∧ n.networkMask ≤ cur.networkMask ∧
    n.included = cur.included
  origin : ∀ n ∈ networks, n ∈ S ∨ (∃ k : IpAddress, n = k.split.2) ∨
    n.getFirstAddress = cur.getFirstAddress ∧ n.networkMask < n.width
  /-- an address that the split of another one has queued -/
  behind : ∀ n ∈ networks, n.networkMask = n.width + 1 → n ∈ S ∨
    n.getFirstAddress ≤ cur.getFirstAddress + 1 ∧ ∀ k, Part v S k →
      k.getFirstAddress + 1 = n.getFirstAddress → n.getFirstAddress ≤ k.getLastAddress →
      k.included = n.included
  /-- a network of the set is left out only where everything up to it has its kind -/
  waiting : ∀ z ∈ S, z ∈ networks ∨ z.getFirstAddress ≤ cur.getFirstAddress ∨
    ∀ m ∈ cur :: networks, m.getFirstAddress ≤ z.getFirstAddress → m.included = z.included
  /-- a network of the set with the first address and the kind of the current one is part of it -/
  merged : ∀ n ∈ networks, n.getFirstAddress = cur.getFirstAddress → n.included ≠ cur.included →
    ∀ z ∈ S, z.getFirstAddress = cur.getFirstAddress → z.included = cur.included →
    n.networkMask < z.networkMask → z ∈ networks ∨ cur.networkMask ≤ z.networkMask

theorem Play.perm {networks' : List IpAddress} (h : Play v S cur networks)
    (hp : networks.Perm networks') : Play v S cur networks' where
  mask n hn := h.mask n ((hp.cons cur).mem_iff.mpr hn)
  part n hn := h.part n (hp.mem_iff.mpr hn)
  around := h.around
  origin n hn := h.origin n (hp.mem_iff.mpr hn)
  behind n hn := h.behind n (hp.mem_iff.mpr hn)
  waiting z hz := (h.waiting z hz).imp hp.mem_iff.mp
    (.imp_right fun hall m hm => hall m ((hp.cons cur).mem_iff.mpr hm))
  merged n hn hf hdiff z hz hzf hzk hlt :=
    (h.merged n (hp.mem_iff.mpr hn) hf hdiff z hz hzf hzk hlt).imp_left hp.mem_iff.mp

/-- The next network becomes the current one. -/
theorem Play.move (h : Play v S cur (next :: rest)) (hrest : ∀ n ∈ rest, NotBefore n next)
    (hto : cur.getFirstAddress < next.getFirstAddress ∨
      cur.getFirstAddress = next.getFirstAddress ∧ next.networkMask ≤ cur.networkMask ∧
        cur.included = next.included) : Play v S next rest := by
  have hle : cur.getFirstAddress ≤ next.getFirstAddress := hto.elim le_of_lt fun h => h.1.le
  refine ⟨fun n hn => h.mask n (List.mem_cons_of_mem _ hn),
    fun n hn => h.part n (List.mem_cons_of_mem _ hn),
    fun hm => ⟨next, h.part next List.mem_cons_self hm, rfl, le_rfl, rfl⟩, fun n hn => ?_,
    fun n hn hm => ?_, fun z hz => ?_, fun n hn hf hdiff z hz hzf hzk hlt => ?_⟩
  · have hn' := (hrest n hn).1
    refine (h.origin n (List.mem_cons_of_mem _ hn)).imp_right (.imp_right fun hl => ?_)
    exact ⟨by omega, hl.2⟩
  · refine (h.behind n (List.mem_cons_of_mem _ hn) hm).imp_right fun hb => ?_
    exact ⟨by omega, hb.2⟩
  · rcases h.waiting z hz with hw | hw | hw
    · rcases List.mem_cons.mp hw with rfl | hw
      · exact .inr (.inl le_rfl)
      · exact .inl hw
    · exact .inr (.inl (hw.trans hle))
    · exact .inr (.inr fun m hm => hw m (List.mem_cons_of_mem _ hm))
  · have hz' : z ∈ next :: rest ∨ next.networkMask ≤ z.networkMask := by
      rcases hto with hlt' | ⟨heq, hmask, hkind⟩
      · rcases h.waiting z hz with hw | hw | hw
        · exact .inl hw
        · omega
        · -- a network that was left out has the kind of both
          have hn' := hw n (by simp [hn]) (by omega)
          have hnext := hw next (by simp) (by omega)
          exact absurd (hn'.trans hnext.symm) hdiff
      · refine (h.merged n (List.mem_cons_of_mem _ hn) (by omega) (hkind ▸ hdiff) z hz (by omega)
          (hkind ▸ hzk) hlt).imp_right hmask.trans
    rcases hz' with hw | hw
    · rcases List.mem_cons.mp hw with rfl | hw
      · exact .inr le_rfl
      · exact .inl hw
    · exact .inr hw

/-- The next network is ignored. -/
theorem Play.ignore (h : Play v S cur (next :: rest)) (hrest : ∀ n ∈ rest, NotBefore n next)
    (hlt : cur.getFirstAddress < next.getFirstAddress) (hsame : cur.included = next.included)
    (hloss : ∀ m ∈ rest, m.getFirstAddress = next.getFirstAddress → m.included = next.included) :
    Play v S cur rest := by
  have hsub : ∀ n ∈ cur :: rest, n ∈ cur :: next :: rest := by simp +contextual
  refine ⟨fun n hn => h.mask n (hsub n hn), fun n hn => h.part n (List.mem_cons_of_mem _ hn),
    h.around, fun n hn => h.origin n (List.mem_cons_of_mem _ hn),
    fun n hn => h.behind n (List.mem_cons_of_mem _ hn), fun z hz => ?_, fun n hn hf => ?_⟩
  · rcases h.waiting z hz with hw | hw | hw
    · rcases List.mem_cons.mp hw with rfl | hw
      · refine .inr (.inr fun m hm hmz => ?_)
        rcases List.mem_cons.mp hm with rfl | hm
        · exact hsame
        · exact hloss m hm (le_antisymm hmz (hrest m hm).1)
      · exact .inl hw
    · exact .inr (.inl hw)
    · exact .inr (.inr fun m hm => hw m (hsub m hm))
  · have := (hrest n hn).1
    omega

section SplitNext

variable (hf : cur.getFirstAddress = next.getFirstAddress)

include hf

/-- The lower half of the next network is queued only where it is longer than the current one. -/
theorem splitNext_lower (hfam : cur.isV4 = next.isV4) (hlt : next.networkMask < cur.networkMask)
    (hcur : cur.networkMask ≤ cur.width + 1)
    (hne : next.split.1.getLastAddress ≠ cur.getLastAddress) :
    next.networkMask + 1 < next.width ∧ next.split.1.getFirstAddress = cur.getFirstAddress := by
  have hwidth := width_of_isV4 hfam
  have hw : next.networkMask < next.width := by
    by_contra hge
    refine hne ?_
    rw [(split_address (not_lt.mp hge)).1, last_of_width_le (by omega), hf]
  refine ⟨lt_of_le_of_ne hw fun heq => hne ?_, (split_fst_first hw).trans hf.symm⟩
  rw [last_of_width_le (n := next.split.1) heq.ge, split_fst_first hw, ← hf,
    last_of_width_le (by omega)]

variable (h : Play v S cur (next :: rest)) (hv : OfFamily v S)

include h hv

theorem Play.lower_part (hrest : ∀ n ∈ rest, NotBefore n next) (hfam : cur.isV4 = next.isV4)
    (hlt : next.networkMask < cur.networkMask) (hdiff : cur.included ≠ next.included)
    (hne : next.split.1.getLastAddress ≠ cur.getLastAddress) : Part v S next.split.1 := by
  obtain ⟨hw, hfirst⟩ := splitNext_lower hf hfam hlt (h.mask cur List.mem_cons_self) hne
  refine (h.part next (by simp) (by omega)).half hv (by omega) (.inl rfl) fun z hz he => ?_
  obtain ⟨hzm, hzf⟩ := equals_iff.mp he
  change next.networkMask + 1 = z.networkMask at hzm
  -- a network of the set with this range and the current kind would have been merged
  by_contra hkind
  have hzk : z.included = cur.included := by
    rw [Bool.eq_not.mpr hkind, Bool.eq_not.mpr hdiff]
  rcases h.merged next (by simp) hf.symm hdiff.symm z hz (hzf.trans hfirst) hzk (by omega)
    with hw | hw
  · rcases List.mem_cons.mp hw with rfl | hw
    · exact hkind rfl
    · have := (hrest z hw).2 (by omega)
      omega
  · refine hne (last_eq_of_mask hfam.symm ?_ hfirst)
    change next.networkMask + 1 = cur.networkMask
    omega

theorem Play.upper_part (hw : next.networkMask < next.width)
    (hno : ∀ k ∈ rest, next.split.2.equals k = false) : Part v S next.split.2 := by
  have hsnd := first_lt_split_snd next
  refine (h.part next (by simp) hw.le).half hv hw (.inr rfl) fun z hz he => ?_
  have hzf := (equals_iff.mp he).2
  rcases h.waiting z hz with hw | hw | hw
  · rcases List.mem_cons.mp hw with rfl | hw
    · rfl
    · rw [hno z hw] at he
      cases he
  · omega
  · exact (hw next (by simp) (by omega)).symm

/-- The next network is split around the current one. -/
theorem Play.splitNext (hrest : ∀ n ∈ rest, NotBefore n next) (hfam : cur.isV4 = next.isV4)
    (hlt : next.networkMask < cur.networkMask) (hdiff : cur.included ≠ next.included)
    (haddress : next.networkMask = next.width → (∃ m ∈ rest, next.split.2.equals m = true) ∨
      ∀ k, Part v S k → k.getFirstAddress = next.getFirstAddress →
        next.getFirstAddress < k.getLastAddress → k.included = next.included) :
    Play v S cur (Sweep.splitNext cur next rest) := by
  have hwidth := width_of_isV4 hfam
  have hcur := h.mask cur List.mem_cons_self
  have hsnd := first_lt_split_snd next
  have hlower := splitNext_lower hf hfam hlt hcur
  have hold : ∀ n ∈ rest, n ∈ Sweep.splitNext cur next rest := fun n hn =>
    mem_splitNext_of_offer (Sweep.mem_offerNew.mpr (.inl hn))
  have hmem : ∀ n ∈ Sweep.splitNext cur next rest, n ∈ rest ∨ n.included = next.included ∧
      next.getFirstAddress ≤ n.getFirstAddress ∧ n.networkMask = next.networkMask + 1 ∧
      n.width = next.width := by
    intro n hn
    rcases mem_splitNext_cases hn with hn | ⟨rfl, hne⟩ | ⟨rfl, -⟩
    · exact .inl hn
    · exact .inr ⟨rfl, (hlower hne).2.ge.trans' hf.ge, rfl, rfl⟩
    · exact .inr ⟨rfl, hsnd.le, rfl, rfl⟩
  refine ⟨fun n hn => ?_, fun n hn hmask => ?_, h.around, fun n hn => ?_, fun n hn hmask => ?_,
    fun z hz => ?_, fun n hn hnf hnk z hz hzf hzk hmask => ?_⟩
  · rcases List.mem_cons.mp hn with rfl | hn
    · exact hcur
    · rcases hmem n hn with hn | ⟨-, -, hm, hw⟩
      · exact h.mask n (by simp [hn])
      · omega
  · rcases mem_splitNext_cases hn with hn | ⟨rfl, hne⟩ | ⟨rfl, hno⟩
    · exact h.part n (by simp [hn]) hmask
    · exact h.lower_part hf hv hrest hfam hlt hdiff hne
    · exact h.upper_part hf hv hmask hno
  · rcases mem_splitNext_cases hn with hn | ⟨rfl, hne⟩ | ⟨rfl, -⟩
    · exact h.origin n (by simp [hn])
    · exact .inr (.inr ⟨(hlower hne).2, (hlower hne).1⟩)
    · exact .inr (.inl ⟨next, rfl⟩)
  · rcases mem_splitNext_cases hn with hn | ⟨rfl, hne⟩ | ⟨rfl, hno⟩
    · exact h.behind n (by simp [hn]) hmask
    · have h1 := (hlower hne).1
      change next.networkMask + 1 = next.width + 1 at hmask
      omega
    · change next.networkMask + 1 = next.width + 1 at hmask
      have hfirst := (split_address (n := next) (by omega)).2
      rcases haddress (by omega) with ⟨k, hk, he⟩ | hparts
      · rw [hno k hk] at he
        cases he
      · refine .inr ⟨by omega, fun k hk hkf hkl => hparts k hk (by omega) (by omega)⟩
  · rcases h.waiting z hz with hw | hw | hw
    · rcases List.mem_cons.mp hw with rfl | hw
      · exact .inr (.inl hf.ge)
      · exact .inl (hold z hw)
    · exact .inr (.inl hw)
    · refine .inr (.inr fun m hm hmz => ?_)
      rcases List.mem_cons.mp hm with rfl | hm
      · exact hw m (by simp) hmz
      · rcases hmem m hm with hm | ⟨hk, hm, -⟩
        · exact hw m (by simp [hm]) hmz
        · exact hk.trans (hw next (by simp) (hm.trans hmz))
  · have hz' : z ∈ next :: rest ∨ cur.networkMask ≤ z.networkMask := by
      rcases hmem n hn with hn | ⟨hk, hm, hnm, -⟩
      · exact h.merged n (by simp [hn]) hnf hnk z hz hzf hzk hmask
      · exact h.merged next (by simp) hf.symm hdiff.symm z hz hzf hzk (by omega)
    rcases hz' with hw | hw
    · rcases List.mem_cons.mp hw with rfl | hw
      · exact absurd hzk.symm hdiff
      · exact .inl (hold z hw)
    · exact .inr hw

end SplitNext

/-- The current network is split around the next one. -/
theorem Play.splitCurrent (h : Play v S cur (next :: rest)) (hrest : ∀ n ∈ rest, NotBefore n next)
    (hlt : cur.getFirstAddress < next.getFirstAddress) (hw : cur.networkMask < cur.width)
    (hpart : cur.networkMask + 1 ≠ next.networkMask → Part v S cur.split.2) :
    Play v S cur.split.1 (Sweep.splitCurrent cur next rest) := by
  have hfst := split_fst_first hw
  have hsnd := first_lt_split_snd cur
  have hcases : ∀ n ∈ Sweep.splitCurrent cur next rest, n ∈ next :: rest ∨
      n = cur.split.2 ∧ cur.networkMask + 1 ≠ next.networkMask :=
    fun n hn => mem_splitCurrent.mp hn
  have hafter : ∀ n ∈ Sweep.splitCurrent cur next rest, cur.getFirstAddress < n.getFirstAddress := by
    intro n hn
    rcases hcases n hn with hn | ⟨rfl, -⟩
    · rcases List.mem_cons.mp hn with rfl | hn
      · exact hlt
      · exact hlt.trans_le (hrest n hn).1
    · exact hsnd
  refine ⟨fun n hn => ?_, fun n hn hmask => ?_, fun _ => ?_, fun n hn => ?_, fun n hn hmask => ?_,
    fun z hz => ?_, fun n hn hf => ?_⟩
  · have hhalf : cur.networkMask + 1 ≤ cur.width + 1 := by omega
    rcases List.mem_cons.mp hn with rfl | hn
    · exact hhalf
    · rcases hcases n hn with hn | ⟨rfl, -⟩
      · exact h.mask n (List.mem_cons_of_mem _ hn)
      · exact hhalf
  · rcases hcases n hn with hn | ⟨rfl, hne⟩
    · exact h.part n hn hmask
    · exact hpart hne
  · obtain ⟨k, hk, hkf, hkm, hkk⟩ := h.around hw.le
    refine ⟨k, hk, hkf.trans hfst.symm, ?_, hkk⟩
    change k.networkMask ≤ cur.networkMask + 1
    omega
  · rcases hcases n hn with hn' | ⟨rfl, -⟩
    · refine (h.origin n hn').imp_right (.imp_right fun ho => ?_)
      have := hafter n hn
      omega
    · exact .inr (.inl ⟨cur, rfl⟩)
  · rw [hfst]
    rcases hcases n hn with hn | ⟨rfl, -⟩
    · exact h.behind n hn hmask
    · change cur.networkMask + 1 = cur.width + 1 at hmask
      omega
  · rw [hfst]
    refine (h.waiting z hz).imp (fun hw => mem_splitCurrent.mpr (.inl hw)) (.imp_right fun hw m hm hmz => ?_)
    rcases List.mem_cons.mp hm with rfl | hm
    · exact hw cur (by simp) (hfst ▸ hmz)
    · rcases hcases m hm with hm | ⟨rfl, -⟩
      · exact hw m (List.mem_cons_of_mem _ hm) hmz
      · exact hw cur (by simp) (hsnd.le.trans hmz)
  · have := hafter n hn
    omega

/-- A network that starts with the upper half of the current one and is longer is in the set, or it is
an address that the split of another one has queued. -/
theorem Play.longer_origin (h : Play v S cur (next :: rest)) (hfam : cur.isV4 = next.isV4)
    (hf : next.getFirstAddress = cur.split.2.getFirstAddress)
    (hlonger : cur.networkMask + 1 < next.networkMask) :
    next ∈ S ∨ next.getFirstAddress ≤ cur.getFirstAddress + 1 ∧ ∀ k, Part v S k →
      k.getFirstAddress + 1 = next.getFirstAddress → next.getFirstAddress ≤ k.getLastAddress →
      k.included = next.included := by
  have hsnd := first_lt_split_snd cur
  rcases h.origin next (by simp) with hin | ⟨k, rfl⟩ | ⟨hcur, -⟩
  · exact .inl hin
  · have hmask : cur.networkMask + 1 < k.networkMask + 1 := hlonger
    have hk := first_lt_split_snd k
    by_cases hkw : k.networkMask < k.width
    · -- a network whose upper half starts there would start there too
      have hcover : k.Covers cur.split.2.getFirstAddress :=
        hf ▸ (covers_split hkw).mpr (.inr (covers_first _))
      have hback := Covers.nested (show cur.split.2.isV4 = k.isV4 from hfam)
        (show cur.networkMask + 1 ≤ k.networkMask by omega) (covers_first _) hcover k.covers_first
      have := hback.1
      omega
    · have hkm : k.networkMask + 1 ≤ k.width + 1 := h.mask k.split.2 (by simp)
      refine h.behind k.split.2 (by simp) ?_
      change k.networkMask + 1 = k.width + 1
      omega
  · omega

/-! ## One round -/

section Round

variable (h : Inv S v done cur (next :: rest)) (hrest : ∀ n ∈ rest, NotBefore n next)

include h hrest

/-- The current network agrees with the set up to the next one. -/
theorem Inv.agrees (hmeet : next.getFirstAddress ≤ cur.getLastAddress) {a : ℤ}
    (ha : cur.getFirstAddress ≤ a) (hlt : a < next.getFirstAddress) : Agrees S cur a := by
  have hq : ∀ n ∈ next :: rest, next.getFirstAddress ≤ n.getFirstAddress := by
    intro n hn
    rcases List.mem_cons.mp hn with rfl | hn
    · exact le_rfl
    · exact (hrest n hn).1
  rw [Agrees, h.kind_alone hq ha hlt]
  exact and_iff_left ⟨ha, by omega⟩

/-- The next network agrees with the set where it starts inside the current one. -/
theorem Inv.agrees_next (hlt : cur.getFirstAddress < next.getFirstAddress)
    (hmeet : next.getFirstAddress ≤ cur.getLastAddress) : Agrees S next next.getFirstAddress := by
  have hnext : Longest (cur :: next :: rest) next.getFirstAddress next := by
    refine ⟨by simp, next.covers_first, fun m hm hma => ?_⟩
    rcases List.mem_cons.mp hm with rfl | hm
    · exact (h.inside hlt hmeet).1.le
    · rcases List.mem_cons.mp hm with rfl | hm
      · exact le_rfl
      · exact (hrest m hm).2 (le_antisymm hma.1 (hrest m hm).1)
  rw [Agrees, ← h.ahead _ hlt.le]
  exact hnext.shows_iff h.oneKind

end Round

/-- The current network agrees with the set at its first address. -/
theorem Inv.agrees_first (h : Inv S v done cur networks) : Agrees S cur cur.getFirstAddress := by
  have hcur : Longest (cur :: networks) cur.getFirstAddress cur := by
    refine ⟨by simp, cur.covers_first, fun m hm hma => ?_⟩
    rcases List.mem_cons.mp hm with rfl | hm
    · exact le_rfl
    · exact (h.order m hm).2 (le_antisymm hma.1 (h.order m hm).1)
  rw [Agrees, ← h.ahead _ le_rfl]
  exact hcur.shows_iff h.oneKind

/-- The invariant of the sweep, and what is left of it when the loop has ended. -/
def Sweep.Sound (v : Bool) (S : List IpAddress) (s : Sweep) : Prop :=
  match s.currentNet with
  | none => Partition S s.ipsDone
  | some cur => Inv S v s.ipsDone cur s.networks ∧ Play v S cur s.networks

section Separated

variable (hsep : Separated v S) (hv : OfFamily v S) (hd : Distinct S)
  (hmasks : ∀ n ∈ S, n.networkMask ≤ n.width + 1)
  (h : Inv S v done cur (next :: rest)) (hp : Play v S cur (next :: rest))
  (hrest : ∀ n ∈ rest, NotBefore n next)

include hsep h hp hrest

/-- What starts with an ignored network has its kind. -/
theorem Inv.ignored_kind (hlt : cur.getFirstAddress < next.getFirstAddress)
    (hmeet : next.getFirstAddress ≤ cur.getLastAddress) (hsame : cur.included = next.included) :
    ∀ m ∈ rest, m.getFirstAddress = next.getFirstAddress → m.included = next.included := by
  intro m hm hmf
  have hcover : m.Covers next.getFirstAddress := hmf ▸ m.covers_first
  rcases ((hrest m hm).2 hmf).lt_or_eq with hshort | heq
  · by_contra hkind
    have hwidth : m.width = next.width :=
      width_of_isV4 ((h.family m (by simp [hm])).trans (h.family next (by simp)).symm)
    have hmask := hp.mask next (by simp)
    obtain ⟨n, hn, hnf, hnm, hnk⟩ := hp.around (mask_lt_width (hlt.trans_le hmeet)).le
    have hin := Covers.nested (hn.family.trans (h.family cur (by simp)).symm) hnm
      (hnf ▸ n.covers_first) cur.covers_first (b := next.getFirstAddress) ⟨hlt.le, hmeet⟩
    obtain ⟨a, ha, ham, hno⟩ := hsep.nested n m hn (hp.part m (by simp [hm]) (by omega))
      (by rw [hnk, hsame]; exact Ne.symm hkind) (by omega) (hmf ▸ hin.2)
    refine hno ?_
    rw [Agrees, hnk]
    rcases ham.lt_or_eq with ham | rfl
    · exact h.agrees hrest hmeet (hnf ▸ ha) (hmf ▸ ham)
    · rw [hmf, hsame]
      exact h.agrees_next hrest hlt hmeet
  · exact h.oneKind m (by simp [hm]) next (by simp) _ hcover next.covers_first heq

include hv in
/-- The upper half of a split current network is a part, unless it is the next network. -/
theorem Inv.upperHalf_part (hlt : cur.getFirstAddress < next.getFirstAddress)
    (hmeet : next.getFirstAddress ≤ cur.getLastAddress) (hdiff : cur.included ≠ next.included)
    (hne : cur.networkMask + 1 ≠ next.networkMask) : Part v S cur.split.2 := by
  have hw := mask_lt_width (hlt.trans_le hmeet)
  have hcv := h.family cur (by simp)
  obtain ⟨n, hn, hnf, hnm, hnk⟩ := hp.around hw.le
  have hinside := fun b => Covers.nested (b := b) (hn.family.trans hcv.symm) hnm
    (hnf ▸ n.covers_first) cur.covers_first
  have hupper : cur.Covers cur.split.2.getFirstAddress := (covers_split hw).mpr (.inr (covers_first _))
  have hmask : n.networkMask ≤ cur.networkMask + 1 := by omega
  refine (hn.inside (m := cur.split.2) hv hcv (show cur.networkMask + 1 ≤ cur.width from hw) hmask
    (hinside _ hupper)).resolve_right fun hother => ?_
  have hkind : n.included ≠ cur.other.included := by
    rw [hnk]
    exact fun he => Bool.not_ne_self _ he.symm
  have hagrees : ∀ a, n.getFirstAddress ≤ a → a < next.getFirstAddress → Agrees S n a := by
    intro a ha hlt
    rw [Agrees, hnk]
    exact h.agrees hrest hmeet (hnf ▸ ha) hlt
  have hsnd := first_lt_split_snd cur
  -- the next network does not start behind the half
  have hle : next.getFirstAddress ≤ cur.split.2.getFirstAddress := by
    by_contra hgt
    obtain ⟨a, ha, ham, hno⟩ := hsep.nested n cur.split.2.other hn hother hkind
      (show n.getFirstAddress < cur.split.2.getFirstAddress by omega) (hinside _ hupper).2
    exact hno (hagrees a ha (ham.trans_lt (not_le.mp hgt)))
  have hno : ¬ Agrees S n next.getFirstAddress := by
    intro hn'
    have hnext := h.agrees_next hrest hlt hmeet
    exact hdiff (hnk.symm.trans (Bool.eq_iff_iff.mpr (Iff.trans (Iff.symm hn') hnext)))
  obtain ⟨heq, hleast⟩ := hsep.upperHalf n cur.other next.getFirstAddress hn hnf hnm hkind hother
    (by omega) hle hagrees hno
  change next.getFirstAddress = cur.split.2.getFirstAddress at heq
  have hlonger : cur.networkMask + 1 < next.networkMask :=
    lt_of_le_of_ne (h.inside hlt hmeet).1 hne
  rcases hp.longer_origin (hcv.trans (h.family next (by simp)).symm) heq hlonger
    with hin | ⟨hnear, hparts⟩
  · exact not_le.mpr hlonger (hleast next hin rfl)
  · exact hdiff (hnk ▸ hparts n hn (by omega) (hinside _ ⟨hlt.le, hmeet⟩).2)

omit hrest in
include hv hd hmasks in
/-- The split of an address changes nothing. -/
theorem Inv.address_join (hf : cur.getFirstAddress = next.getFirstAddress)
    (hlt : next.networkMask < cur.networkMask) (hdiff : cur.included ≠ next.included)
    (hw : next.width ≤ next.networkMask) :
    (∃ m ∈ rest, next.split.2.equals m = true) ∨
      Agrees S next (next.getFirstAddress + 1) ∧ ∀ n, Part v S n →
        n.getFirstAddress = next.getFirstAddress → next.getFirstAddress < n.getLastAddress →
        n.included = next.included := by
  have hone := OneKind.of_distinct hv hd
  have hfam : cur.isV4 = next.isV4 := by rw [h.family cur (by simp), h.family next (by simp)]
  have hcurmask := hp.mask cur (by simp)
  have hwidth := width_of_isV4 hfam
  have hnextpart := hp.part next (by simp) (by omega)
  -- the longest prefix of the address has the current kind, so that it is longer than the address
  obtain ⟨b, hbS, hbm, hcov⟩ := hnextpart.base hv
  obtain ⟨x, hx⟩ : ∃ x, Longest S next.getFirstAddress x :=
    exists_foremost S ⟨b, hbS, hcov _ next.covers_first⟩
  have hxk : x.included = cur.included := by
    have hcur := h.agrees_first
    rw [Agrees, hf] at hcur
    exact Bool.eq_iff_iff.mpr ((hx.shows_iff hone).symm.trans hcur)
  have hxw : x.width = next.width :=
    width_of_isV4 ((hv x hx.mem).trans (h.family next (by simp)).symm)
  have hxm : next.networkMask < x.networkMask := by
    by_contra hle
    have hkind := Shows.unique (hone.mono fun _ hk => (mem_shorter.mp hk).1) hnextpart.kind
      ⟨x, ⟨mem_shorter.mpr ⟨hx.mem, not_lt.mp hle⟩, hx.hits,
        fun m hm hma => hx.le m (mem_shorter.mp hm).1 hma⟩, rfl⟩
    exact hdiff (hxk.symm.trans hkind.symm)
  have hxf : x.getFirstAddress = next.getFirstAddress := by
    have h1 := hx.hits.1
    have h2 := hx.hits.2
    rw [last_of_width_le (by omega)] at h2
    omega
  have horigin : next ∈ S ∨ ∃ k : IpAddress, next = k.split.2 := by
    rcases hp.origin next (by simp) with hin | hk | ⟨-, hlt'⟩
    · exact .inl hin
    · exact .inr hk
    · omega
  have hxmask := hmasks x hx.mem
  rcases hsep.address x hx.mem next hnextpart (by omega) (by omega) hxf (hxk ▸ hdiff) horigin
    with ⟨z, hz, he⟩ | hjoin
  · -- the address behind it is still in the queue
    have hzf := (equals_iff.mp he).2
    have hsnd := first_lt_split_snd next
    rcases hp.waiting z hz with hw | hw | hw
    · rcases List.mem_cons.mp hw with rfl | hw
      · omega
      · exact .inl ⟨z, hw, he⟩
    · omega
    · refine absurd ((hw cur (by simp) (by omega)).trans (hw next (by simp) (by omega)).symm) hdiff
  · exact .inr hjoin

include hv hd hmasks in
/-- **A round of the loop body keeps the invariant.** -/
theorem Inv.merge : (Sweep.merge done cur next rest).Sound v S := by
  have hcv := h.family cur (by simp)
  have hfam : cur.isV4 = next.isV4 := by rw [hcv, h.family next (by simp)]
  rw [Sweep.merge]
  by_cases hgap : cur.getLastAddress < next.getFirstAddress
  · rw [if_pos hgap]
    exact ⟨h.advance hrest hgap, hp.move hrest (.inl (cur.first_le_last.trans_lt hgap))⟩
  rw [if_neg hgap]
  have hmeet := not_lt.mp hgap
  by_cases hbase : cur.getFirstAddress = next.getFirstAddress ∧ cur.networkMask ≥ next.networkMask
  · rw [if_pos hbase]
    obtain ⟨hf, hm⟩ := hbase
    by_cases hsame : cur.included = next.included
    · rw [if_pos hsame]
      exact ⟨h.forget hrest hf hm hsame, hp.move hrest (.inr ⟨hf, hm, hsame⟩)⟩
    · rw [if_neg hsame]
      have hlt := h.mask_lt hf hm hsame
      have hjoin := h.address_join hsep hv hd hmasks hp hf hlt hsame
      refine ⟨?_, hp.splitNext hf hv hrest hfam hlt hsame fun hw =>
        (hjoin hw.ge).imp_right And.right⟩
      by_cases hw : next.networkMask < next.width
      · exact h.splitNext hf hm hsame hw
      · exact h.splitAddress hf hm hsame (not_lt.mp hw) hp.mask
          ((hjoin (not_lt.mp hw)).imp_right And.left)
  · -- a network with the same first address would have been before the current one
    have hlt : cur.getFirstAddress < next.getFirstAddress := by
      obtain ⟨h1, h2⟩ := h.order next List.mem_cons_self
      rcases h1.lt_or_eq with hlt | heq
      · exact hlt
      · exact absurd ⟨heq, h2 heq.symm⟩ hbase
    rw [if_neg hbase]
    by_cases hsame : cur.included = next.included
    · rw [if_pos hsame]
      have hkind := h.ignored_kind hsep hp hrest hlt hmeet hsame
      exact ⟨h.ignore hlt hmeet hrest hsame fun m hm hmf _ _ => hkind m hm hmf,
        hp.ignore hrest hlt hsame hkind⟩
    · rw [if_neg hsame]
      have hw := mask_lt_width (hlt.trans_le hmeet)
      have hpart := h.upperHalf_part hsep hv hp hrest hlt hmeet hsame
      refine ⟨h.splitCurrent hlt hmeet (fun hne m hm he => ?_) hrest, hp.splitCurrent hrest hlt hw hpart⟩
      have hmpart := hp.part m (by simp [hm]) (by
        have hmask := (equals_iff.mp he).1
        have hwidth := width_of_isV4 ((h.family m (by simp [hm])).trans hcv.symm)
        change cur.networkMask + 1 = m.networkMask at hmask
        omega)
      exact ((hpart hne).unique (OneKind.of_distinct hv hd) hmpart he).symm

end Separated

theorem Inv.perm {networks' : List IpAddress} (h : Inv S v done cur networks)
    (hp : networks.Perm networks') : Inv S v done cur networks' := by
  have hmem : ∀ n, n ∈ cur :: networks' ↔ n ∈ cur :: networks := fun n => (hp.cons cur).mem_iff.symm
  refine ⟨fun n hn => h.family n ((hmem n).mp hn), h.oneKind.mono fun n hn => (hmem n).mp hn,
    fun n hn => h.order n (hp.mem_iff.mpr hn), fun a ha => ?_, h.behind⟩
  rw [← h.ahead a ha]
  exact shows_congr (fun n _ => hmem n) true

/-! ## The whole sweep -/

section Run

variable (hsep : Separated v S) (hv : OfFamily v S) (hd : Distinct S)
  (hmasks : ∀ n ∈ S, n.networkMask ≤ n.width + 1)

include hv hd hmasks

theorem Sweep.start_sound (t : ℕ) : (Sweep.start t S).Sound v S := by
  rw [Sweep.start]
  rcases hp : poll compareTo t S with _ | ⟨cur, rest⟩
  · have hnil := poll_eq_none compareTo_trans compareTo_irrefl hp
    subst hnil
    refine ⟨fun a => ?_, List.Pairwise.nil⟩
    simp [Shows, not_foremost_nil]
  have hperm := poll_perm hp
  have hrest : ∀ n ∈ rest, NotBefore n cur := fun n hn => notBefore_of_compareTo (poll_le hp hn)
  have hS : ∀ n ∈ cur :: rest, n ∈ S := fun n hn => hperm.mem_iff.mpr hn
  have hwait : ∀ z ∈ S, z = cur ∨ z ∈ rest := fun z hz => List.mem_cons.mp (hperm.mem_iff.mp hz)
  constructor
  · refine ⟨fun n hn => hv n (hS n hn), (OneKind.of_distinct hv hd).mono hS, hrest, fun a _ => ?_,
      fun a ha => ?_, by simp, List.Pairwise.nil⟩
    · exact shows_congr (fun n _ => hperm.mem_iff.symm) true
    · -- nothing starts before the first network
      constructor
      · rintro ⟨n, hn, -⟩
        exact absurd hn List.not_mem_nil
      · rintro ⟨n, hn, -⟩
        have h1 := hn.hits.1
        rcases hwait n hn.mem with rfl | hnr
        · omega
        · have := (hrest n hnr).1
          omega
  · have hmem : ∀ n ∈ rest, n ∈ S := fun n hn => hS n (List.mem_cons_of_mem _ hn)
    have hcur := hS cur List.mem_cons_self
    refine ⟨fun n hn => hmasks n (hS n hn), fun n hn => Part.of_mem hv (hmem n hn),
      fun hm => ⟨cur, Part.of_mem hv hcur hm, rfl, le_rfl, rfl⟩, fun n hn => .inl (hmem n hn),
      fun n hn _ => .inl (hmem n hn), fun z hz => ?_, fun _ _ _ _ z hz _ _ _ => ?_⟩
    · rcases hwait z hz with rfl | hz
      · exact .inr (.inl le_rfl)
      · exact .inl hz
    · rcases hwait z hz with rfl | hz
      · exact .inr le_rfl
      · exact .inl hz

include hsep

theorem Sweep.step_sound (s : Sweep) (t : ℕ) (h : s.Sound v S) : (s.step t).Sound v S := by
  obtain ⟨networks, done, currentNet⟩ := s
  cases currentNet with
  | none => exact h
  | some cur =>
    obtain ⟨hinv, hplay⟩ := h
    rw [Sweep.step]
    rcases hp : poll compareTo t networks with _ | ⟨next, rest⟩
    · have hnil := poll_eq_none compareTo_trans compareTo_irrefl hp
      subst hnil
      exact hinv.finish
    · have hperm := poll_perm hp
      have hrest : ∀ n ∈ rest, NotBefore n next := fun n hn => notBefore_of_compareTo (poll_le hp hn)
      exact (hinv.perm hperm).merge hsep hv hd hmasks (hplay.perm hperm) hrest

/-- **A sweep over a separated set** ends within its measure, with a partition. -/
theorem Sweep.run_partition (t : ℕ) (ts : List ℕ) (hlen : (Sweep.start t S).fuel ≤ ts.length) :
    (run Sweep.step (Sweep.start t S) ts).currentNet = none ∧
      Partition S (run Sweep.step (Sweep.start t S) ts).ipsDone := by
  have hend := (Sweep.ordered_start hv t).run_ended ts hlen
  have hsound := run_inv (P := fun _ _ => True)
    (fun s t hs _ => Sweep.step_sound hsep hv hd hmasks s t hs) ts _
    (Sweep.start_sound hv hd hmasks t) (along_of_forall (fun _ _ => trivial) ts _)
  rw [Sweep.Sound, hend] at hsound
  exact ⟨hend, hsound⟩

end Run

/-- The result covers exactly the addresses whose longest prefix is included, with networks that do
not overlap. -/
def RoutesRight (mIpAddresses out : List IpAddress) : Prop :=
  (∀ a, (∃ n ∈ out, n.included = true ∧ n.Covers a) ↔
    ∃ n, Longest mIpAddresses a n ∧ n.included = true) ∧ out.Pairwise Apart

/-- **`generateIPList` is right for separated networks**, whatever the queue chooses. -/
theorem generateIPList_right (v : Bool) (cs : List Call) (hcs : OneFamily v cs) (hm : ValidMasks cs)
    (hsep : Separated v (networkSpace cs).mIpAddresses) (t : ℕ) (ts : List ℕ)
    (hlen : (Sweep.start t (networkSpace cs).mIpAddresses).fuel ≤ ts.length) :
    ∃ out, (networkSpace cs).generateIPList t ts = some out ∧
      RoutesRight (networkSpace cs).mIpAddresses out := by
  obtain ⟨hv, hd⟩ := networkSpace_wellFormed cs hcs
  obtain ⟨hend, hpart⟩ := Sweep.run_partition hsep hv hd (networkSpace_masks cs hm) t ts hlen
  exact ⟨_, by rw [NetworkSpace.generateIPList, hend], hpart.kinds, hpart.apart⟩

/-- The network of the last byte `a` in 10.0.0.0/24. -/
def local10 (a : ℤ) (mask : ℤ) (included : Bool) : IpAddress :=
  ⟨0x0a000000 + a, mask, included, true⟩

theorem networkSpace_hole :
    (networkSpace holeCalls).mIpAddresses = [local10 0 30 true, local10 1 32 false] := by
  decide +kernel

/-- The parts of 10.0.0.0/30 without 10.0.0.1. -/
theorem part_hole {n : IpAddress} (h : Part true [local10 0 30 true, local10 1 32 false] n) :
    n.width = 32 ∧ n.networkMask ≤ 32 ∧ (n.included = true ∧ 0x0a000000 ≤ n.getFirstAddress ∨
      n.included = false ∧ n.networkMask = 32 ∧ n.getFirstAddress = 0x0a000001) := by
  have hwidth : n.width = 32 := by rw [width, h.family]; rfl
  have hmask := h.mask
  refine ⟨hwidth, by omega, ?_⟩
  obtain ⟨k, hk, hkind⟩ := h.kind
  obtain ⟨hkS, hkm⟩ := mem_shorter.mp hk.mem
  obtain ⟨h1, h2⟩ := hk.hits
  rcases List.mem_pair.mp hkS with rfl | rfl
  · have hfirst : (local10 0 30 true).getFirstAddress = 0x0a000000 := by decide +kernel
    exact .inl ⟨hkind.symm, by omega⟩
  · have hfirst : (local10 1 32 false).getFirstAddress = 0x0a000001 := by decide +kernel
    have hlast : (local10 1 32 false).getLastAddress = 0x0a000001 := by decide +kernel
    change 32 ≤ n.networkMask at hkm
    exact .inr ⟨hkind.symm, by omega, by omega⟩

theorem separated_hole : Separated true [local10 0 30 true, local10 1 32 false] := by
  refine ⟨fun n m hn hm hdiff hlt hle => ?_, fun n y f hn hf hmask hdiff hy hlt hle _ _ => ?_,
    fun x hx y _ _ hx' => ?_⟩
  · obtain ⟨hnw, -, hn⟩ := part_hole hn
    obtain ⟨-, -, hm⟩ := part_hole hm
    rcases hn with ⟨hni, -⟩ | ⟨-, hnm, -⟩
    · rcases hm with ⟨hmi, -⟩ | ⟨-, -, hmf⟩
      · exact absurd (hni.trans hmi.symm) hdiff
      · -- 10.0.0.1 is excluded
        refine ⟨m.getFirstAddress, hlt.le, le_rfl, fun hag => ?_⟩
        obtain ⟨k, hk, hki⟩ := Iff.mpr hag hni
        rw [hmf] at hk
        have hlong := hk.le (local10 1 32 false) (by simp) (by decide +kernel)
        rcases List.mem_pair.mp hk.mem with rfl | rfl
        · exact absurd hlong (by decide)
        · cases hki
    · have := last_of_width_le (n := n) (by omega)
      omega
  · obtain ⟨-, -, hn⟩ := part_hole hn
    obtain ⟨-, hyw, hy⟩ := part_hole hy
    change y.networkMask + 1 ≤ 32 at hyw
    rcases hn with ⟨hni, hnf⟩ | ⟨-, hnm, -⟩
    · rcases hy with ⟨hyi, -⟩ | ⟨-, hym, hyf⟩
      · exact absurd (hni.trans hyi.symm) hdiff
      · change y.networkMask + 1 = 32 at hym
        refine ⟨by omega, fun k hk _ => ?_⟩
        rw [hym]
        exact (show ∀ k ∈ [local10 0 30 true, local10 1 32 false], k.networkMask ≤ 32 by decide) k hk
    · omega
  · exact absurd hx' ((show ∀ x ∈ [local10 0 30 true, local10 1 32 false],
      x.networkMask ≠ x.width + 1 by decide) x hx)

theorem generateIPList_right_hole :
    ∃ out, (networkSpace holeCalls).generateIPList 0 (List.replicate 100 0) = some out ∧
      RoutesRight (networkSpace holeCalls).mIpAddresses out :=
  generateIPList_right true holeCalls (by simp [OneFamily, holeCalls, Call.isV4])
    (by simp [ValidMasks, holeCalls, Call.isV4, Call.mask])
    (networkSpace_hole ▸ separated_hole) 0 (List.replicate 100 0) (by decide +kernel)

/-- 10.0.0.2 is included in a network that is excluded from an included one. -/
def nestedCalls : List Call :=
  [.addIP ⟨"10.0.0.0".toList, 29⟩ true, .addIP ⟨"10.0.0.2".toList, 31⟩ false,
    .addIP ⟨"10.0.0.2".toList, 32⟩ true]

/-- 10.0.0.0/29 without 10.0.0.1 and without its upper half. -/
def upperHalfCalls : List Call :=
  [.addIP ⟨"10.0.0.0".toList, 29⟩ true, .addIP ⟨"10.0.0.1".toList, 32⟩ false,
    .addIP ⟨"10.0.0.4".toList, 30⟩ false]

/-- The list for `nestedCalls`. -/
def nestedOut : List IpAddress := [local10 0 31 true, local10 2 31 false, local10 4 30 true]

/-- The list for `upperHalfCalls`. -/
def upperHalfOut : List IpAddress :=
  [local10 0 32 true, local10 1 32 false, local10 2 31 true, local10 4 32 false, local10 5 32 true,
    local10 6 31 true]

/-- The included 10.0.0.2 is lost, and the excluded 10.0.0.5 gets a route. -/
theorem generateIPList_wrong :
    ((networkSpace nestedCalls).generateIPList 0 (List.replicate 19 0) = some nestedOut ∧
      ¬ RoutesRight (networkSpace nestedCalls).mIpAddresses nestedOut) ∧
    (networkSpace upperHalfCalls).generateIPList 0 (List.replicate 23 0) = some upperHalfOut ∧
      ¬ RoutesRight (networkSpace upperHalfCalls).mIpAddresses upperHalfOut := by
  refine ⟨⟨by decide +kernel, fun h => ?_⟩, by decide +kernel, fun h => ?_⟩
  · have hlost : ¬ ∃ n ∈ nestedOut, n.included = true ∧ n.Covers 0x0a000002 := by decide +kernel
    refine hlost ((h.1 0x0a000002).mpr ⟨local10 2 32 true, ⟨?_, ?_, ?_⟩, rfl⟩) <;> decide +kernel
  · obtain ⟨n, hn, hinc⟩ := (h.1 0x0a000005).mp ⟨local10 5 32 true, by decide +kernel⟩
    have hshort : ∀ n ∈ (networkSpace upperHalfCalls).mIpAddresses, n.included = true →
        n.networkMask < 30 := by decide +kernel
    have hlong : 30 ≤ n.networkMask :=
      hn.le (local10 4 30 false) (by decide +kernel) (by decide +kernel)
    have := hshort n hn.mem hinc
    omega

end VpnCore.Route
