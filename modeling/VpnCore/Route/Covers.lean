import VpnCore.Lib.Foremost
import VpnCore.Route.NetworkSpace

/-!
# VpnCore.Route.Covers — the addresses of a network

A network is an aligned block: `getFirstAddress` and `getLastAddress` are its ends, `split` cuts it
into its halves, and of two networks of one family that meet, the one with the shorter prefix
contains the other.
-/

namespace VpnCore.Route

open VpnCore.Lib

namespace IpAddress

/-- The network contains the address. -/
def Covers (n : IpAddress) (a : ℤ) : Prop := n.getFirstAddress ≤ a ∧ a ≤ n.getLastAddress

instance (n : IpAddress) (a : ℤ) : Decidable (n.Covers a) := inferInstanceAs (Decidable (_ ∧ _))

/-- The number of the block. -/
def block (n : IpAddress) : ℤ := n.netAddress / 2 ^ n.numBits

variable {m n : IpAddress} {a b : ℤ}

theorem first_eq (n : IpAddress) : n.getFirstAddress = n.block * 2 ^ n.numBits := by
  rw [getFirstAddress, getMaskedAddress, if_neg (by simp), foldl_clearBit, block]

theorem last_eq (n : IpAddress) :
    n.getLastAddress = n.block * 2 ^ n.numBits + 2 ^ n.numBits - 1 := by
  rw [getLastAddress, getMaskedAddress, if_pos rfl, foldl_setBit, block]

theorem first_le_last (n : IpAddress) : n.getFirstAddress ≤ n.getLastAddress := by
  have := pow_pos_two n.numBits
  rw [first_eq, last_eq]
  omega

theorem covers_first (n : IpAddress) : n.Covers n.getFirstAddress := ⟨le_rfl, n.first_le_last⟩

theorem covers_last (n : IpAddress) : n.Covers n.getLastAddress := ⟨n.first_le_last, le_rfl⟩

theorem covers_iff : n.Covers a ↔ a / 2 ^ n.numBits = n.block := by
  rw [Covers, first_eq, last_eq]
  exact mem_block_iff _ _ _

theorem numBits_mono (hv : m.isV4 = n.isV4) (h : m.networkMask ≤ n.networkMask) :
    n.numBits ≤ m.numBits := by
  rw [numBits, numBits, hv]
  omega

/-- **Nesting.** -/
theorem Covers.nested (hv : m.isV4 = n.isV4) (h : m.networkMask ≤ n.networkMask)
    (hm : m.Covers a) (hn : n.Covers a) (hb : n.Covers b) : m.Covers b := by
  rw [covers_iff] at *
  rw [← hm]
  exact block_mono (numBits_mono hv h) (hb.trans hn.symm)

/-- Networks with prefixes of one length are equal or do not meet. -/
theorem Covers.first_eq_of_mask (hv : m.isV4 = n.isV4) (h : m.networkMask = n.networkMask)
    (hm : m.Covers a) (hn : n.Covers a) : m.getFirstAddress = n.getFirstAddress := by
  have h1 := Covers.nested hv h.le hm hn n.covers_first
  have h2 := Covers.nested hv.symm h.ge hn hm m.covers_first
  exact le_antisymm h1.1 h2.1

theorem last_eq_of_mask (hv : m.isV4 = n.isV4) (h : m.networkMask = n.networkMask)
    (hf : m.getFirstAddress = n.getFirstAddress) : m.getLastAddress = n.getLastAddress := by
  have hbits : m.numBits = n.numBits := by rw [numBits, numBits, hv, h]
  have hm := m.first_eq
  have hn := n.first_eq
  rw [last_eq, last_eq, ← hm, ← hn, hf, hbits]

theorem covers_congr (hv : m.isV4 = n.isV4) (h : m.networkMask = n.networkMask)
    (hf : m.getFirstAddress = n.getFirstAddress) : m.Covers a ↔ n.Covers a := by
  rw [Covers, Covers, hf, last_eq_of_mask hv h hf]

theorem equals_iff :
    m.equals n = true ↔ m.networkMask = n.networkMask ∧ n.getFirstAddress = m.getFirstAddress := by
  simp [equals]

/-! ## The order of the queue -/

theorem compareTo_lt_iff : m.compareTo n = .lt ↔ m.getFirstAddress < n.getFirstAddress ∨
    m.getFirstAddress = n.getFirstAddress ∧ n.networkMask < m.networkMask := by
  rw [compareTo]
  split_ifs <;> simp only [true_iff, false_iff] <;> omega

theorem compareTo_eq_iff : m.compareTo n = .eq ↔ m.equals n = true := by
  rw [equals_iff, compareTo]
  split_ifs <;> simp only [true_iff, false_iff] <;> omega

theorem compareTo_trans (k m n : IpAddress) (h : k.compareTo m = .lt) (h' : m.compareTo n = .lt) :
    k.compareTo n = .lt := by
  rw [compareTo_lt_iff] at *
  omega

theorem compareTo_irrefl (n : IpAddress) : n.compareTo n ≠ .lt := by
  rw [Ne, compareTo_lt_iff]
  omega

/-! ## The halves -/

/-- The length of a full prefix. -/
def width (n : IpAddress) : ℤ := if n.isV4 then 32 else 128

theorem numBits_pos (h : n.networkMask < n.width) : ∃ k, n.numBits = k + 1 := by
  rw [width] at h
  refine ⟨n.numBits - 1, ?_⟩
  rw [numBits]
  omega

/-- A network that meets another one behind its first address has more than one address. -/
theorem mask_lt_width (h : n.getFirstAddress < n.getLastAddress) : n.networkMask < n.width := by
  by_contra hge
  have hbits : n.numBits = 0 := by
    rw [width] at hge
    rw [numBits]
    omega
  rw [first_eq, last_eq, hbits] at h
  simp at h

section Split

variable (h : n.networkMask < n.width)

include h

theorem split_bits : ∃ k, n.numBits = k + 1 ∧ n.split.1.numBits = k ∧ n.split.2.numBits = k := by
  obtain ⟨k, hk⟩ := numBits_pos h
  have hhalf : (n.width - (n.networkMask + 1)).toNat = k := by
    have hk' : (n.width - n.networkMask).toNat = k + 1 := hk
    omega
  exact ⟨k, hk, hhalf, hhalf⟩

theorem split_fst_block : n.split.1.block = n.block * 2 := by
  obtain ⟨k, hk, hl, -⟩ := split_bits h
  have hpos := pow_pos_two k
  rw [block, hl, show n.split.1.netAddress = n.getFirstAddress from rfl, first_eq, hk, pow_succ,
    show n.block * (2 ^ k * 2) = n.block * 2 * 2 ^ k by ring, Int.mul_ediv_cancel _ hpos.ne']

theorem split_snd_block : n.split.2.block = n.block * 2 + 1 := by
  obtain ⟨k, hk, hl, hr⟩ := split_bits h
  have hpos := pow_pos_two k
  have hnet : n.split.2.netAddress = n.split.1.getLastAddress + 1 := rfl
  have haddr : n.split.2.netAddress = (n.block * 2 + 1) * 2 ^ k := by
    rw [hnet, last_eq, split_fst_block h, hl]
    ring
  rw [block, hr, haddr, Int.mul_ediv_cancel _ hpos.ne']

theorem covers_split : n.Covers a ↔ n.split.1.Covers a ∨ n.split.2.Covers a := by
  obtain ⟨k, hk, hl, hr⟩ := split_bits h
  rw [covers_iff, covers_iff, covers_iff, split_fst_block h, split_snd_block h, hl, hr, hk, block,
    hk]
  exact block_halves _ _ _

theorem split_fst_first : n.split.1.getFirstAddress = n.getFirstAddress := by
  obtain ⟨k, hk, hl, -⟩ := split_bits h
  rw [first_eq, first_eq, split_fst_block h, hl, hk]
  ring

theorem split_snd_first : n.getFirstAddress < n.split.2.getFirstAddress := by
  obtain ⟨k, hk, -, hr⟩ := split_bits h
  have hpos := pow_pos_two k
  have hdiff : n.split.2.getFirstAddress = n.getFirstAddress + 2 ^ k := by
    rw [first_eq, first_eq, split_snd_block h, hr, hk]
    ring
  omega

end Split

theorem width_of_isV4 {m n : IpAddress} (h : m.isV4 = n.isV4) : m.width = n.width := by
  rw [width, width, h]

/-- A network with a full prefix is one address. -/
theorem last_of_width_le (h : n.width ≤ n.networkMask) : n.getLastAddress = n.getFirstAddress := by
  by_contra hne
  exact absurd (mask_lt_width (lt_of_le_of_ne n.first_le_last (Ne.symm hne))) (not_lt.mpr h)

/-- The halves of a single address: the address itself and the one after it. -/
theorem split_address (h : n.width ≤ n.networkMask) :
    n.split.1.getLastAddress = n.getFirstAddress ∧
      n.split.2.getFirstAddress = n.getFirstAddress + 1 := by
  have hbits : ∀ m : IpAddress, m.isV4 = n.isV4 → m.networkMask = n.networkMask + 1 →
      m.getFirstAddress = m.netAddress ∧ m.getLastAddress = m.netAddress := by
    intro m hv hm
    have hzero : m.numBits = 0 := by
      rw [width] at h
      rw [numBits, hv, hm]
      omega
    rw [first_eq, last_eq, block, hzero]
    simp
  have h1 := (hbits n.split.1 rfl rfl).2
  refine ⟨h1, ?_⟩
  rw [(hbits n.split.2 rfl rfl).1]
  change n.split.1.getLastAddress + 1 = _
  rw [h1]
  rfl

theorem first_lt_split_snd (n : IpAddress) : n.getFirstAddress < n.split.2.getFirstAddress := by
  by_cases hw : n.networkMask < n.width
  · exact split_snd_first hw
  · rw [(split_address (not_lt.mp hw)).2]
    exact Int.lt_succ _

end IpAddress

end VpnCore.Route
