import VpnCore.Ranges.Subnets

/-!
# VpnCore.Ranges.Cover — `toSubnets` is a minimal cover

The subnets of a range are the largest aligned blocks inside it, each once, so that they do not meet and
no cover of the range by proper subnets is shorter.
-/

namespace VpnCore.Ranges.IPRange

open VpnCore.Lib

/-- The subnet of length `p`: the ends agree in the first `p` bits, and have zeros and ones after them. -/
structure IsSubnet (r : IPRange) (p : ℕ) : Prop where
  length : r.mFrom.length = r.mTo.length
  le : p ≤ r.mFrom.length * 8
  upper : ∀ i, r.mFrom.length * 8 - p ≤ i → (value r.mFrom).testBit i = (value r.mTo).testBit i
  hostFrom : ∀ i < r.mFrom.length * 8 - p, (value r.mFrom).testBit i = false
  hostTo : ∀ i < r.mFrom.length * 8 - p, (value r.mTo).testBit i = true

variable {r s : IPRange} {p n : ℕ} {b c : Block} {l : List IPRange}

theorem isSubnet_iff (hlen : r.mFrom.length = r.mTo.length) : r.IsSubnet p ↔
    p ≤ r.mFrom.length * 8 ∧ 2 ^ (r.mFrom.length * 8 - p) ∣ value r.mFrom ∧
      value r.mTo + 1 = value r.mFrom + 2 ^ (r.mFrom.length * 8 - p) := by
  obtain ⟨m, hm⟩ : ∃ m, r.mFrom.length * 8 - p = m := ⟨_, rfl⟩
  constructor
  · rintro ⟨-, hp, hupper, hfrom, hto⟩
    rw [hm] at hupper hfrom hto ⊢
    have hdiv : value r.mFrom / 2 ^ m = value r.mTo / 2 ^ m := by
      refine Nat.eq_of_testBit_eq fun i => ?_
      rw [Nat.testBit_div_two_pow, Nat.testBit_div_two_pow]
      exact hupper _ (Nat.le_add_left m i)
    have hzero := (clearLow_eq_self m _).mpr hfrom
    have hone := (add_one_eq_clearLow m _).mpr hto
    refine ⟨hp, hzero ▸ dvd_clearLow _ _, ?_⟩
    rw [hone, clearLow, ← hdiv, ← clearLow, hzero]
  · rintro ⟨hp, hd, hlast⟩
    rw [hm] at hd hlast
    have hpos := Nat.two_pow_pos m
    have hfrom := clearLow_of_dvd hd
    have hto : clearLow m (value r.mTo) = value r.mFrom := clearLow_eq hd (by omega) (by omega)
    refine ⟨hlen, hp, fun i hi => ?_, hm.symm ▸ (clearLow_eq_self m _).mp hfrom,
      hm.symm ▸ (add_one_eq_clearLow m _).mp (by rw [hto, hlast])⟩
    have hdiv : value r.mFrom / 2 ^ m = value r.mTo / 2 ^ m :=
      Nat.eq_of_mul_eq_mul_right hpos (hfrom.trans hto.symm)
    have hbit := congrArg (·.testBit (i - m)) hdiv
    simp only [Nat.testBit_div_two_pow] at hbit
    rwa [show i - m + m = i by omega] at hbit

/-- `getPrefix` of a range from its bounds. -/
theorem determinePrefix_iff_isSubnet (hr : r.Valid) : r.determinePrefix = some p ↔ r.IsSubnet p :=
  (determinePrefix_eq_some hr).trans (isSubnet_iff hr.length).symm

/-- A proper subnet is an aligned block. -/
theorem IsSubnet.exists_block (h : r.IsSubnet p) :
    ∃ b : Block, b.Aligned ∧ r.IsBlock r.mFrom.length b := by
  obtain ⟨-, hd, hlast⟩ := (isSubnet_iff h.length).mp h
  exact ⟨⟨value r.mFrom, r.mFrom.length * 8 - p⟩, hd, rfl, h.length.symm, rfl, hlast⟩

/-! ## The order of the list -/

theorem compareTo_ne_gt :
    r.compareTo s ≠ .gt ↔ toLex (r.lo, r.hi) ≤ toLex (s.lo, s.hi) := by
  rw [Prod.Lex.toLex_le_toLex, compareTo]
  dsimp only [lo, hi]
  rcases compareAddr_spec r.mFrom s.mFrom with ⟨hc, hk⟩ | ⟨hc, hf⟩ | ⟨hc, hk⟩
  · simp [hc, hk]
  · rw [hc, hf]
    simp [compareAddr_gt]
  · simp [hc, hk.not_gt, hk.ne']

theorem pairwise_toSubnets (h : r.toSubnets = some l) :
    l.Pairwise fun a b => a.compareTo b ≠ .gt := by
  obtain ⟨list, -, rfl⟩ := Option.map_eq_some_iff.mp h
  have hsort : (list.mergeSort fun a b => a.compareTo b ≠ .gt).Pairwise
      fun a b => decide (a.compareTo b ≠ .gt) = true := by
    refine List.pairwise_mergeSort (fun a b c => ?_) (fun a b => ?_) list
    · simp only [decide_eq_true_eq, compareTo_ne_gt]
      exact le_trans
    · rw [Bool.or_eq_true, decide_eq_true_eq, decide_eq_true_eq, compareTo_ne_gt, compareTo_ne_gt]
      exact le_total _ _
  exact hsort.imp of_decide_eq_true

/-! ## Each subnet once -/

theorem IsBlock.unique (hb : r.IsBlock n b) (hc : r.IsBlock n c) : b = c := by
  have hb1 := hb.first
  have hb2 := hb.last
  have hc1 := hc.first
  have hc2 := hc.last
  refine Block.eq_of_mem_iff fun x => ?_
  unfold Block.Mem
  omega

theorem Lists.nodup {blocks : List Block} (h : Lists n l blocks) (hblocks : blocks.Nodup) :
    l.Nodup := by
  have hex := h.complete
  have : Nonempty IPRange := ⟨⟨[], []⟩⟩
  choose! f hf hblock using hex
  have hinj : ∀ b ∈ blocks, ∀ c ∈ blocks, f b = f c → b = c := fun b hb c hc heq =>
    (hblock b hb).unique (heq ▸ hblock c hc)
  have hsub : blocks.map f ⊆ l := by
    intro s hs
    obtain ⟨b, hb, rfl⟩ := List.mem_map.mp hs
    exact hf b hb
  have hmap : (blocks.map f).Nodup := List.Nodup.map_on hinj hblocks
  have hperm : (blocks.map f).Perm l :=
    (hmap.subperm hsub).perm_of_length_le (by rw [List.length_map, h.length])
  exact hperm.nodup_iff.mp hmap

theorem nodup_toSubnets (hr : r.Valid) (h : r.toSubnets = some l) : l.Nodup := by
  obtain ⟨list, hlist, rfl⟩ := Option.map_eq_some_iff.mp h
  refine (List.mergeSort_perm list _).nodup_iff.mpr ?_
  cases hp : r.determinePrefix with
  | some p =>
    rw [subnetList, hp, Option.isSome_some, if_pos rfl, Option.some.injEq] at hlist
    exact hlist ▸ List.nodup_singleton r
  | none =>
    obtain ⟨J, list', hsplits, heq, hlists⟩ := lists_subnetList hr hp
    obtain rfl := Option.some.inj (hlist.symm.trans heq)
    exact hlists.nodup (nodup_intervalBlocks hsplits)

/-! ## The cover -/

/-- The numbers of the range. -/
def Values (r : IPRange) (x : ℕ) : Prop := value r.mFrom ≤ x ∧ x ≤ value r.mTo

theorem Subnet.isMaximal (h : Subnet r s b) : Maximal r.Values b := ⟨h.aligned, h.inside, h.maximal⟩

/-- Subnets of one range with an address in common are the same. -/
theorem Subnet.eq {t : IPRange} {a : Bytes} (hs : Subnet r s b) (ht : Subnet r t c)
    (has : a ∈ s.addresses) (hat : a ∈ t.addresses) : s = t := by
  obtain ⟨-, hb⟩ := hs.block.mem_addresses.mp has
  obtain ⟨-, hc⟩ := ht.block.mem_addresses.mp hat
  obtain rfl := hs.isMaximal.eq ht.isMaximal hb hc
  have h1 := hs.block
  have h2 := ht.block
  refine ext_of_ends ?_ ?_
  · rw [lo, lo, key, key, h1.length_from, h2.length_from, h1.first, h2.first]
  · have hlast : value s.mTo = value t.mTo := Nat.succ_injective (h1.last.trans h2.last.symm)
    rw [hi, hi, key, key, h1.length_to, h2.length_to, hlast]

/-- No cover of the range by proper subnets is shorter. -/
theorem length_le_of_covers {m : List IPRange} (hl : ∀ s ∈ l, ∃ b, Subnet r s b) (hnodup : l.Nodup)
    (hm : ∀ s ∈ m, ∃ p, s.IsSubnet p)
    (hcover : ∀ a, (∃ s ∈ m, a ∈ s.addresses) ↔ a ∈ r.addresses) (hr : r.Valid) :
    l.length ≤ m.length := by
  have : Nonempty Block := ⟨⟨0, 0⟩⟩
  choose! f hf using hl
  have hblocks : ∀ s ∈ m, ∃ c : Block, c.Aligned ∧ s.IsBlock r.mFrom.length c := by
    intro s hs
    obtain ⟨p, hp⟩ := hm s hs
    obtain ⟨c, hc, hblock⟩ := hp.exists_block
    -- the first address of the subnet is one of the range, so that the lengths agree
    have hself : s.mFrom ∈ s.addresses :=
      hblock.mem_addresses.mpr ⟨rfl, hblock.first ▸ c.mem_base⟩
    have hlen : s.mFrom.length = r.mFrom.length := ((hcover _).mp ⟨s, hs, hself⟩).1
    exact ⟨c, hc, hlen ▸ hblock⟩
  choose! g halign hg using hblocks
  have hvalues : ∀ x, (∃ c ∈ m.map g, c.Mem x) ↔ r.Values x := by
    intro x
    constructor
    · rintro ⟨c, hc, hx⟩
      obtain ⟨s, hs, rfl⟩ := List.mem_map.mp hc
      obtain ⟨a, hlen, rfl⟩ := exists_value r.mFrom.length x (by
        have hlast := (hg s hs).last
        have hlt := Ranges.value_lt s.mTo
        rw [(hg s hs).length_to] at hlt
        have := hx.2
        omega)
      exact ((hcover a).mp ⟨s, hs, (hg s hs).mem_addresses.mpr ⟨hlen, hx⟩⟩).2
    · intro hx
      have hlt := hr.value_lt.2
      rw [two_pow_mul_eight] at hlt
      obtain ⟨a, hlen, rfl⟩ := exists_value r.mFrom.length x (hx.2.trans_lt hlt)
      obtain ⟨s, hs, ha⟩ := (hcover a).mpr ⟨hlen, hx⟩
      exact ⟨g s, List.mem_map_of_mem hs, ((hg s hs).mem_addresses.mp ha).2⟩
  have hinj : ∀ s ∈ l, ∀ t ∈ l, f s = f t → s = t := fun s hs t ht heq =>
    (hf s hs).eq (hf t ht) (a := s.mFrom)
      ((hf s hs).block.mem_addresses.mpr ⟨(hf s hs).block.length_from,
        (hf s hs).block.first ▸ Block.mem_base _⟩)
      ((hf t ht).block.mem_addresses.mpr ⟨(hf s hs).block.length_from, by
        rw [← heq, (hf s hs).block.first]
        exact Block.mem_base _⟩)
  have hle := length_le_of_maximal (l := l.map f) (m := m.map g) (S := r.Values)
    (fun b hb => by
      obtain ⟨s, hs, rfl⟩ := List.mem_map.mp hb
      exact (hf s hs).isMaximal)
    (List.Nodup.map_on hinj hnodup)
    (fun c hc => by
      obtain ⟨s, hs, rfl⟩ := List.mem_map.mp hc
      exact halign s hs)
    hvalues
  rwa [List.length_map, List.length_map] at hle

/-- **`toSubnets` is an exact minimal cover.** -/
theorem toSubnets_minimal (r : IPRange) (hr : r.Valid) :
    (∃ l, r.toSubnets = some l ∧
      l.Pairwise (fun a b => a.compareTo b = .lt) ∧
      (∀ s ∈ l, ∃ p, s.determinePrefix = some p ∧ s.IsSubnet p) ∧
      l.Pairwise (fun a b => ∀ x ∈ a.addresses, x ∉ b.addresses) ∧
      (∀ a, (∃ s ∈ l, a ∈ s.addresses) ↔ a ∈ r.addresses) ∧
      ∀ m : List IPRange, (∀ s ∈ m, ∃ p, s.IsSubnet p) →
        (∀ a, (∃ s ∈ m, a ∈ s.addresses) ↔ ∃ s ∈ l, a ∈ s.addresses) → l.length ≤ m.length) ∧
    ∀ p, r.determinePrefix = some p ↔ r.IsSubnet p := by
  refine ⟨?_, fun p => determinePrefix_iff_isSubnet hr⟩
  obtain ⟨l, hl, hsubnets, hcover⟩ := toSubnets_spec hr
  have hnodup := nodup_toSubnets hr hl
  refine ⟨l, hl, ?_, fun s hs => ?_, ?_, hcover, fun m hm hsame => ?_⟩
  · refine ((pairwise_toSubnets hl).and hnodup).imp fun {a b} h => ?_
    have hne : a.compareTo b ≠ .eq := fun heq => h.2 (compareTo_eq.mp heq)
    cases hc : a.compareTo b with
    | lt => rfl
    | eq => exact absurd hc hne
    | gt => exact absurd hc h.1
  · obtain ⟨b, hb⟩ := hsubnets s hs
    have hp := hb.determinePrefix hr
    exact ⟨_, hp, (determinePrefix_iff_isSubnet (hb.valid hr)).mp hp⟩
  · refine hnodup.pairwise_of_forall_ne fun s hs t ht hne a has hat => ?_
    obtain ⟨b, hb⟩ := hsubnets s hs
    obtain ⟨c, hc⟩ := hsubnets t ht
    exact hne (hb.eq hc has hat)
  · exact length_le_of_covers hsubnets hnodup hm (fun a => (hsame a).trans (hcover a)) hr

/-- The addresses `10.0.0.1` to `10.0.0.6`. -/
theorem toSubnets_minimal_at : ∃ l, (⟨[10, 0, 0, 1], [10, 0, 0, 6]⟩ : IPRange).toSubnets = some l ∧
    l.Pairwise fun a b => a.compareTo b = .lt := by
  obtain ⟨⟨l, hl, hsorted, -⟩, -⟩ := toSubnets_minimal ⟨[10, 0, 0, 1], [10, 0, 0, 6]⟩
    ⟨rfl, .inl rfl, by decide⟩
  exact ⟨l, hl, hsorted⟩

end VpnCore.Ranges.IPRange
