import VpnCore.Route.Covers
import VpnCore.Route.Normalise

/-!
# VpnCore.Route.Netmask — addresses with a netmask

What a `CIDRIP` of two texts of four octets stands for.  The sentinel bit of `calculateLenFromMask` lets the loop
stop for every mask, and what is left has ones only iff the mask is a prefix mask.  `normalise` leaves the
address of the network, and the network has the addresses that agree with it under the mask.
-/

namespace VpnCore.Route

open VpnCore.Lib VpnCore.Config

/-- A text of four octets, and its address. -/
def Denotes (t : Text) (ip : BitVec 32) : Prop :=
  ∃ p1 p2 p3 p4 : Text, t.splitOn '.' = [p1, p2, p3, p4] ∧ (∀ p ∈ [p1, p2, p3, p4], IsOctet p) ∧
    (ip.toNat : ℤ) = quad (digitsValue p1) (digitsValue p2) (digitsValue p3) (digitsValue p4)

/-- `l` ones, then zeros. -/
def prefixMask (l : ℕ) : BitVec 32 := BitVec.allOnes 32 <<< (32 - l)

theorem Denotes.getInt {t : Text} {ip : BitVec 32} (h : Denotes t ip) : getInt t = .ok ip.toNat := by
  obtain ⟨p1, p2, p3, p4, hsplit, hoctets, hip⟩ := h
  rw [getInt_of_octets hsplit hoctets, hip]

/-! ## Prefix masks -/

theorem and_prefixMask (x : BitVec 32) (l : ℕ) :
    (x &&& prefixMask l).toNat = clearLow (32 - l) x.toNat := by
  have hshift : x &&& prefixMask l = (x >>> (32 - l)) <<< (32 - l) := by
    apply BitVec.eq_of_getLsbD_eq
    intro i hi
    rw [prefixMask, BitVec.getLsbD_and, BitVec.getLsbD_shiftLeft, BitVec.getLsbD_shiftLeft,
      BitVec.getLsbD_allOnes, BitVec.getLsbD_ushiftRight]
    by_cases hlow : i < 32 - l
    · simp [hlow]
    · simp [hlow, hi, show i - (32 - l) < 32 by omega, show 32 - l + (i - (32 - l)) = i by omega]
  have hle := clearLow_le (32 - l) x.toNat
  rw [hshift, BitVec.toNat_shiftLeft, BitVec.toNat_ushiftRight, Nat.shiftLeft_eq,
    Nat.shiftRight_eq_div_pow, ← clearLow, Nat.mod_eq_of_lt (hle.trans_lt x.isLt)]

theorem toNat_prefixMask {l : ℕ} (h : l ≤ 32) : (prefixMask l).toNat = 2 ^ 32 - 2 ^ (32 - l) := by
  have hclear : clearLow (32 - l) (2 ^ 32 - 1) = 2 ^ 32 - 2 ^ (32 - l) := by
    have hpow : 2 ^ l * 2 ^ (32 - l) = 2 ^ 32 := by rw [← pow_add, show l + (32 - l) = 32 by omega]
    have hpos := Nat.two_pow_pos (32 - l)
    have hle : 2 ^ (32 - l) ≤ 2 ^ 32 := Nat.pow_le_pow_right (by decide) (by omega)
    refine clearLow_eq ?_ (by omega) (by omega)
    rw [← hpow]
    exact Nat.dvd_sub (Dvd.intro_left _ rfl) dvd_rfl
  have hones : BitVec.allOnes 32 &&& prefixMask l = prefixMask l := BitVec.allOnes_and
  rw [← hones, and_prefixMask, BitVec.toNat_allOnes, hclear]

/-- An address has no bits outside a mask iff the mask does not change it. -/
theorem and_not_eq_zero {w : ℕ} (x mask : BitVec w) : x &&& ~~~mask = 0 ↔ x &&& mask = x := by
  constructor
  · intro h
    apply BitVec.eq_of_getLsbD_eq
    intro i hi
    have hbit := congrArg (BitVec.getLsbD · i) h
    simp only [BitVec.getLsbD_and, BitVec.getLsbD_not, hi, decide_true, Bool.true_and,
      BitVec.ofNat_eq_ofNat, BitVec.getLsbD_zero] at hbit
    rw [BitVec.getLsbD_and]
    cases hx : x.getLsbD i <;> simp_all
  · intro h
    rw [← h, BitVec.and_assoc]
    simp

/-! ## The length of a mask -/

/-- The loop takes the zeros off the end. -/
theorem shiftOut_mul {q : ℤ} (hq : q % 2 = 1) (j lenZeros : ℕ) {fuel : ℕ} (hfuel : j < fuel) :
    shiftOut fuel lenZeros (2 ^ j * q) = (lenZeros + j, q) := by
  induction j generalizing lenZeros fuel with
  | zero =>
    obtain ⟨fuel, rfl⟩ := Nat.exists_eq_add_of_lt hfuel
    rw [pow_zero, one_mul, shiftOut, if_neg (by omega)]
    rfl
  | succ j ih =>
    obtain ⟨fuel, rfl⟩ : ∃ k, fuel = k + 1 := ⟨fuel - 1, by omega⟩
    have hhalf : 2 ^ (j + 1) * q = 2 * (2 ^ j * q) := by ring
    rw [shiftOut, hhalf, if_pos (by omega), Int.mul_ediv_cancel_left _ (by decide),
      ih (lenZeros + 1) (by omega)]
    congr 1
    omega

theorem ones_shift {j : ℕ} (hj : j ≤ 33) : (0x1ffffffff : ℤ) / 2 ^ j = 2 ^ (33 - j) - 1 := by
  have hpow : (2 : ℤ) ^ (33 - j) * 2 ^ j = 2 ^ 33 := by rw [← pow_add, show 33 - j + j = 33 by omega]
  have hpos := pow_pos_two j
  have hsum : (0x1ffffffff : ℤ) = 2 ^ j - 1 + (2 ^ (33 - j) - 1) * 2 ^ j := by
    rw [sub_mul, hpow]
    ring
  rw [hsum, Int.add_mul_ediv_right _ _ hpos.ne', Int.ediv_eq_zero_of_lt (by omega) (by omega), zero_add]

/-- With `j` zeros at the end of the mask and the sentinel. -/
theorem calculateLenFromMask_of_getInt {m : Text} {n q : ℤ} (h : getInt m = .ok n) (h0 : 0 ≤ n)
    (h1 : n < 2 ^ 32) {j : ℕ} (hj : j < 33) (hq : q % 2 = 1) (hmul : n + 2 ^ 32 = 2 ^ j * q) :
    calculateLenFromMask m = .ok (if q = 2 ^ (33 - j) - 1 then 32 - j else 32) := by
  have hwrap := (wrap_sentinel h0 h1).trans hmul
  have hne : ¬ 2 ^ j * q = 0 := by omega
  rw [calculateLenFromMask, h]
  simp only [bind, Except.bind, hwrap, if_neg hne, pure, Except.pure]
  rw [shiftOut_mul hq j 0 (by omega)]
  simp only [ones_shift hj.le, Nat.zero_add, ite_not]

/-- A mask with the sentinel has at most 32 zeros at the end. -/
theorem zeros_lt (mask : BitVec 32) {j q : ℕ} (hq : q % 2 = 1) (hmul : mask.toNat + 2 ^ 32 = 2 ^ j * q) :
    j < 33 := by
  have hlt := mask.isLt
  have hle : 2 ^ j ≤ 2 ^ j * q := Nat.le_mul_of_pos_right _ (by omega)
  exact (Nat.pow_lt_pow_iff_right (by decide)).mp (show 2 ^ j < 2 ^ 33 by omega)

theorem calculateLenFromMask_mul {m : Text} {mask : BitVec 32} (h : Denotes m mask) {j q : ℕ}
    (hq : q % 2 = 1) (hmul : mask.toNat + 2 ^ 32 = 2 ^ j * q) :
    calculateLenFromMask m = .ok (if q = 2 ^ (33 - j) - 1 then 32 - j else 32) := by
  have hlt : (mask.toNat : ℤ) < 2 ^ 32 := by exact_mod_cast mask.isLt
  have hones : (q : ℤ) = 2 ^ (33 - j) - 1 ↔ q = 2 ^ (33 - j) - 1 := by
    rw [← Nat.cast_inj (R := ℤ), Nat.cast_sub Nat.one_le_two_pow]
    push_cast
    exact Iff.rfl
  have hqInt : (q : ℤ) % 2 = 1 := by exact_mod_cast hq
  have hmulInt : (mask.toNat : ℤ) + 2 ^ 32 = 2 ^ j * (q : ℤ) := by exact_mod_cast hmul
  rw [calculateLenFromMask_of_getInt h.getInt (Int.natCast_nonneg _) hlt (zeros_lt mask hq hmul) hqInt
    hmulInt]
  simp only [hones]

/-- The zeros of a mask that has ones only otherwise are those of a prefix mask. -/
theorem eq_prefixMask_iff (mask : BitVec 32) {j : ℕ} (hj : j ≤ 32) :
    mask = prefixMask (32 - j) ↔ mask.toNat + 2 ^ 32 = 2 ^ j * (2 ^ (33 - j) - 1) := by
  have hpow : 2 ^ j * 2 ^ (33 - j) = 2 ^ 33 := by rw [← pow_add, show j + (33 - j) = 33 by omega]
  have hle : 2 ^ j ≤ 2 ^ 32 := Nat.pow_le_pow_right (by decide) hj
  rw [← BitVec.toNat_inj, toNat_prefixMask (Nat.sub_le ..), Nat.mul_sub, hpow, Nat.mul_one,
    show 32 - (32 - j) = j by omega]
  omega

theorem calculateLenFromMask_prefixMask {m : Text} {l : ℕ} (hl : l ≤ 32)
    (h : Denotes m (prefixMask l)) : calculateLenFromMask m = .ok l := by
  have hmul := (eq_prefixMask_iff (prefixMask l) (Nat.sub_le 32 l)).mp
    (by rw [show 32 - (32 - l) = l by omega])
  have hodd : (2 ^ (33 - (32 - l)) - 1) % 2 = 1 := by
    rw [show 33 - (32 - l) = l + 1 by omega, pow_succ]
    have := Nat.two_pow_pos l
    omega
  rw [calculateLenFromMask_mul h hodd hmul, if_pos rfl]
  congr 1
  omega

/-- The length of a mask that is not a prefix mask is that of an address. -/
theorem calculateLenFromMask_other {m : Text} {mask : BitVec 32} (h : Denotes m mask)
    (hmask : ∀ l ≤ 32, mask ≠ prefixMask l) : calculateLenFromMask m = .ok 32 := by
  obtain ⟨j, q, hq, hmul⟩ := Nat.exists_eq_two_pow_mul_odd (n := mask.toNat + 2 ^ 32) (by omega)
  rw [Nat.odd_iff] at hq
  have hj := zeros_lt mask hq hmul
  rw [calculateLenFromMask_mul h hq hmul, if_neg]
  rintro rfl
  exact hmask (32 - j) (Nat.sub_le ..) ((eq_prefixMask_iff mask (by omega)).mpr hmul)

/-! ## The network -/

/-- The addresses of a network whose address has the bits of the prefix only. -/
theorem covers_iff_and {net : IpAddress} {ip : BitVec 32} {l : ℕ} (hl : l ≤ 32) (hv4 : net.isV4 = true)
    (hmask : net.networkMask = l) (hnet : net.netAddress = (ip &&& prefixMask l).toNat) (x : ℤ) :
    net.Covers x ↔ ∃ a : BitVec 32, x = a.toNat ∧ a &&& prefixMask l = ip &&& prefixMask l := by
  have hbits : net.numBits = 32 - l := by
    rw [IpAddress.numBits, hv4, hmask, if_pos rfl]
    omega
  have hpow : 2 ^ l * 2 ^ (32 - l) = 2 ^ 32 := by rw [← pow_add, show l + (32 - l) = 32 by omega]
  have hblock : net.block = ((ip.toNat / 2 ^ (32 - l) : ℕ) : ℤ) := by
    rw [IpAddress.block, hnet, hbits, and_prefixMask, clearLow]
    push_cast
    exact Int.mul_ediv_cancel _ (pow_pos_two _).ne'
  have hagree : ∀ a : BitVec 32, a &&& prefixMask l = ip &&& prefixMask l ↔
      a.toNat / 2 ^ (32 - l) = ip.toNat / 2 ^ (32 - l) := by
    intro a
    rw [← BitVec.toNat_inj, and_prefixMask, and_prefixMask, clearLow_eq_iff]
  rw [IpAddress.covers_iff, hbits, hblock]
  constructor
  · intro hx
    have hnonneg : 0 ≤ x := by
      by_contra hneg
      have hdiv := Int.ediv_neg_of_neg_of_pos (not_le.mp hneg) (pow_pos_two (32 - l))
      rw [hx] at hdiv
      exact absurd hdiv (not_lt.mpr (Int.natCast_nonneg _))
    obtain ⟨n, rfl⟩ := Int.eq_ofNat_of_zero_le hnonneg
    have hdiv : n / 2 ^ (32 - l) = ip.toNat / 2 ^ (32 - l) := by exact_mod_cast hx
    have hlt : n < 2 ^ 32 := by
      rw [← hpow, ← Nat.div_lt_iff_lt_mul (Nat.two_pow_pos _), hdiv,
        Nat.div_lt_iff_lt_mul (Nat.two_pow_pos _), hpow]
      exact ip.isLt
    have hn : (BitVec.ofNat 32 n).toNat = n := by rw [BitVec.toNat_ofNat, Nat.mod_eq_of_lt hlt]
    exact ⟨BitVec.ofNat 32 n, by rw [hn], (hagree _).mpr (by rw [hn, hdiv])⟩
  · rintro ⟨a, rfl, ha⟩
    rw [← (hagree a).mp ha]
    push_cast
    rfl

/-- **An address with a netmask.**  The length is that of a prefix mask, and 32 for other masks.  With a prefix
mask the normalised network has the addresses that agree with the address under the mask, `normalise` says
whether the address had other bits, and does nothing the second time. -/
theorem network_of_netmask {t m : Text} {ip mask : BitVec 32} (ht : Denotes t ip) (hm : Denotes m mask) :
    (∀ l ≤ 32, mask = prefixMask l → calculateLenFromMask m = .ok l) ∧
    ((∀ l ≤ 32, mask ≠ prefixMask l) → calculateLenFromMask m = .ok 32) ∧
    ∀ l ≤ 32, mask = prefixMask l → ∃ c c' changed, CIDRIP.ofMask t m = .ok c ∧
      c.normalise = .ok (c', changed) ∧ c'.getInt = .ok (ip &&& mask).toNat ∧
      (∀ included, ∃ net, IpAddress.ofCIDRIP c' included = .ok net ∧
        ∀ x : ℤ, net.getFirstAddress ≤ x ∧ x ≤ net.getLastAddress ↔
          ∃ a : BitVec 32, x = a.toNat ∧ a &&& mask = ip &&& mask) ∧
      (changed = true ↔ ip &&& ~~~mask ≠ 0) ∧ c'.normalise = .ok (c', false) := by
  refine ⟨fun l hl heq => calculateLenFromMask_prefixMask hl (heq ▸ hm), calculateLenFromMask_other hm,
    fun l hl heq => ?_⟩
  subst heq
  have hip : ∀ x : BitVec 32, (0 : ℤ) ≤ x.toNat ∧ (x.toNat : ℤ) < 2 ^ 32 := fun x =>
    ⟨Int.natCast_nonneg _, by exact_mod_cast x.isLt⟩
  have hlen : (0 : ℤ) ≤ (l : ℤ) ∧ (l : ℤ) ≤ 32 := ⟨Int.natCast_nonneg _, by exact_mod_cast hl⟩
  have hbits : (32 - (l : ℤ)).toNat = 32 - l := by omega
  have hof : CIDRIP.ofMask t m = .ok ⟨t, l⟩ := by
    rw [CIDRIP.ofMask, calculateLenFromMask_prefixMask hl hm]
    rfl
  obtain ⟨c', changed, hnorm, hlen', hint, hchanged, -⟩ :=
    normalise_spec (show CIDRIP.getInt ⟨t, l⟩ = _ from ht.getInt) hlen (hip ip)
  change c'.len = l at hlen'
  rw [hbits, Int.toNat_natCast, ← and_prefixMask] at hint hchanged
  obtain ⟨c'', changed'', hnorm', -, -, hchanged', hsame'⟩ :=
    normalise_spec hint (hlen' ▸ hlen) (hip _)
  have hstable : clearLow (32 - l) (ip &&& prefixMask l).toNat = (ip &&& prefixMask l).toNat := by
    rw [and_prefixMask, clearLow_clearLow le_rfl]
  rw [hlen', hbits, Int.toNat_natCast, hstable] at hchanged'
  have hfalse := hchanged'.mpr rfl
  refine ⟨_, c', changed, hof, hnorm, hint, fun included => ?_, ?_, ?_⟩
  · refine ⟨⟨(ip &&& prefixMask l).toNat, l, included, true⟩, ?_, covers_iff_and hl rfl rfl rfl⟩
    rw [IpAddress.ofCIDRIP, hint, hlen']
    rfl
  · rw [Ne, and_not_eq_zero, ← BitVec.toNat_inj, ← Nat.cast_inj (R := ℤ), ← hchanged,
      Bool.not_eq_false]
  · rw [hnorm', hfalse, hsame' hfalse]

/-- `10.1.2.3` with `255.255.0.0`. -/
theorem network_of_netmask_ten :
    ∃ c c' changed, CIDRIP.ofMask "10.1.2.3".toList "255.255.0.0".toList = .ok c ∧
      c.normalise = .ok (c', changed) ∧ c'.getInt = .ok 0x0a010000 := by
  have ht : Denotes "10.1.2.3".toList 0x0a010203#32 :=
    ⟨['1', '0'], ['1'], ['2'], ['3'], by decide, by decide, by decide⟩
  have hm : Denotes "255.255.0.0".toList 0xffff0000#32 :=
    ⟨['2', '5', '5'], ['2', '5', '5'], ['0'], ['0'], by decide, by decide, by decide⟩
  obtain ⟨c, c', changed, hof, hnorm, hint, -⟩ :=
    (network_of_netmask ht hm).2.2 16 (by decide) (by decide)
  exact ⟨c, c', changed, hof, hnorm, hint⟩

end VpnCore.Route
