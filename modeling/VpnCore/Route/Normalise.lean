import VpnCore.Lib.Dyadic
import VpnCore.Route.Texts

/-!
# VpnCore.Route.Normalise — the numbers of an IPv4 network

What `getInt`, `calculateLenFromMask` and `normalise` do with addresses and netmasks of four octets: the
number of the address, a prefix length between 0 and 32, and the address without the bits after the prefix.
-/

namespace VpnCore.Route

open VpnCore.Lib VpnCore.Config

/-! ## Four octets -/

/-- A decimal number up to 255. -/
structure IsOctet (part : Text) : Prop where
  ne_nil : part ≠ []
  digits : part.all isDigit = true
  le : digitsValue part ≤ 255

instance (part : Text) : Decidable (IsOctet part) :=
  decidable_of_iff (part ≠ [] ∧ part.all isDigit = true ∧ digitsValue part ≤ 255)
    ⟨fun h => ⟨h.1, h.2.1, h.2.2⟩, fun h => ⟨h.ne_nil, h.digits, h.le⟩⟩

/-- The number of four octets. -/
def quad (a b c d : ℤ) : ℤ := a * 2 ^ 24 + b * 2 ^ 16 + c * 2 ^ 8 + d

theorem IsOctet.parseNumber {part : Text} (h : IsOctet part) (bits : ℕ) (hbits : 9 ≤ bits) :
    parseNumber bits part = .ok (digitsValue part) := by
  have hpow : (2 : ℤ) ^ 8 ≤ 2 ^ (bits - 1) := pow_le_pow_right₀ (by decide) (by omega)
  have hle : ((digitsValue part : ℕ) : ℤ) ≤ 255 := by exact_mod_cast h.le
  have hnumeral := numeral_digitsValue h.ne_nil fun c hc => List.all_eq_true.mp h.digits c hc
  exact parseNumber_eq_ok.mpr ⟨hnumeral, by omega, by omega⟩

/-- The number of an address of four octets. -/
theorem getInt_of_octets {t p1 p2 p3 p4 : Text} (ht : t.splitOn '.' = [p1, p2, p3, p4])
    (h : ∀ p ∈ [p1, p2, p3, p4], IsOctet p) :
    getInt t = .ok (quad (digitsValue p1) (digitsValue p2) (digitsValue p3) (digitsValue p4)) := by
  have hsplit : split '.' t = [p1, p2, p3, p4] := by
    have hlast : p4.isEmpty = false := List.isEmpty_eq_false_iff.mpr (h p4 (by simp)).ne_nil
    rw [split, ht]
    simp [List.rdropWhile, hlast]
  have h1 := (h p1 (by simp)).parseNumber 64 (by decide)
  have h2 := (h p2 (by simp)).parseNumber 32 (by decide)
  have h3 := (h p3 (by simp)).parseNumber 32 (by decide)
  have h4 := (h p4 (by simp)).parseNumber 32 (by decide)
  have hle : ∀ p ∈ [p1, p2, p3, p4], digitsValue p ≤ 255 := fun p hp => (h p hp).le
  simp only [List.mem_cons, List.not_mem_nil, or_false, forall_eq_or_imp, forall_eq] at hle
  obtain ⟨l1, l2, l3, l4⟩ := hle
  rw [getInt, hsplit]
  simp only [elementAt, List.getElem?_cons_zero, List.getElem?_cons_succ, parseLong, parseInt, bind,
    Except.bind, h1, h2, h3, h4, pure, Except.pure, Except.ok.injEq]
  have hw1 : wrap 64 ((digitsValue p1 : ℤ) * 2 ^ 24) = digitsValue p1 * 2 ^ 24 := by
    rw [wrap, Int.bmod_def]
    omega
  have hw2 : wrap 32 ((digitsValue p2 : ℤ) * 2 ^ 16) = digitsValue p2 * 2 ^ 16 := by
    rw [wrap, Int.bmod_def]
    omega
  have hw3 : wrap 32 ((digitsValue p3 : ℤ) * 2 ^ 8) = digitsValue p3 * 2 ^ 8 := by
    rw [wrap, Int.bmod_def]
    omega
  rw [hw1, hw2, hw3, wrap, Int.bmod_def, quad]
  omega

theorem isOctet_decimal {n : ℤ} (h : 0 ≤ n) (h' : n ≤ 255) : IsOctet (decimal n) := by
  rw [decimal_of_nonneg h]
  refine ⟨Nat.toDigits_ne_nil, List.all_eq_true.mpr fun c => isDigit_of_mem_toDigits, ?_⟩
  rw [digitsValue_toDigits]
  omega

theorem splitOn_dotted {a b c d : ℤ} (h : ∀ x ∈ [a, b, c, d], 0 ≤ x) :
    (dotted a b c d).splitOn '.' = [decimal a, decimal b, decimal c, decimal d] := by
  have hfree : ∀ t ∈ [a, b, c, d].map decimal, '.' ∉ t := by
    intro t ht
    obtain ⟨x, hx, rfl⟩ := List.mem_map.mp ht
    exact not_mem_decimal (h x hx) (by decide)
  rw [dotted_eq, List.splitOn_intercalate '.' hfree (by simp)]
  rfl

theorem getInt_dotted {a b c d : ℤ} (h : ∀ x ∈ [a, b, c, d], 0 ≤ x ∧ x ≤ 255) :
    getInt (dotted a b c d) = .ok (quad a b c d) := by
  have hoctet : ∀ p ∈ [decimal a, decimal b, decimal c, decimal d], IsOctet p := by
    intro p hp
    obtain ⟨x, hx, rfl⟩ := List.mem_map.mp (show p ∈ [a, b, c, d].map decimal from hp)
    exact isOctet_decimal (h x hx).1 (h x hx).2
  have hvalue : ∀ x ∈ [a, b, c, d], ((digitsValue (decimal x) : ℕ) : ℤ) = x := by
    intro x hx
    rw [decimal_of_nonneg (h x hx).1, digitsValue_toDigits, Int.toNat_of_nonneg (h x hx).1]
  rw [getInt_of_octets (splitOn_dotted fun x hx => (h x hx).1) hoctet, hvalue a (by simp),
    hvalue b (by simp), hvalue c (by simp), hvalue d (by simp)]

/-! ## Netmasks -/

/-- The loop takes the zeros off the end. -/
theorem shiftOut_spec (fuel lenZeros : ℕ) (n : ℤ) :
    ∃ j ≤ fuel, (shiftOut fuel lenZeros n).1 = lenZeros + j ∧ 2 ^ j ∣ n := by
  induction fuel generalizing lenZeros n with
  | zero => exact ⟨0, le_rfl, rfl, by simp⟩
  | succ fuel ih =>
    rw [shiftOut]
    split_ifs with heven
    · obtain ⟨j, hj, heq, hd⟩ := ih (lenZeros + 1) (n / 2)
      refine ⟨j + 1, by omega, by rw [heq]; omega, ?_⟩
      obtain ⟨q, hq⟩ := hd
      refine ⟨q, ?_⟩
      rw [pow_succ, mul_right_comm, ← hq]
      omega
    · exact ⟨0, Nat.zero_le _, rfl, by simp⟩

/-- The sentinel bit fits. -/
theorem wrap_sentinel {n : ℤ} (h0 : 0 ≤ n) (h1 : n < 2 ^ 32) : wrap 64 (n + 2 ^ 32) = n + 2 ^ 32 := by
  rw [wrap, Int.bmod_def]
  omega

/-- A netmask of four octets gives a prefix length. -/
theorem calculateLenFromMask_range {mask : Text} {n : ℤ} (h : getInt mask = .ok n) (h0 : 0 ≤ n)
    (h1 : n < 2 ^ 32) : ∃ len, calculateLenFromMask mask = .ok len ∧ 0 ≤ len ∧ len ≤ 32 := by
  have hwrap := wrap_sentinel h0 h1
  obtain ⟨j, -, hj, hd⟩ := shiftOut_spec 64 0 (n + 2 ^ 32)
  -- a power of two that divides a number of 33 bits has at most 32 zeros
  have hlt : (2 : ℤ) ^ j < 2 ^ 33 := by
    have := Int.le_of_dvd (by omega) hd
    omega
  have hle : j < 33 := (pow_lt_pow_iff_right₀ (by decide : (1 : ℤ) < 2)).mp hlt
  rw [calculateLenFromMask, h]
  simp only [bind, Except.bind, hwrap, if_neg (show ¬ n + 2 ^ 32 = 0 by omega), pure, Except.pure]
  refine ⟨_, rfl, ?_⟩
  rw [hj]
  split_ifs <;> omega

/-! ## The address of the network -/

/-- The mask leaves the upper bits. -/
theorem masked_eq {len n : ℤ} (hlen : 0 ≤ len ∧ len ≤ 32) (hn : 0 ≤ n ∧ n < 2 ^ 32) :
    CIDRIP.masked len n = (clearLow (32 - len).toNat n.toNat : ℕ) := by
  obtain ⟨m, rfl⟩ := Int.eq_ofNat_of_zero_le hn.1
  obtain ⟨k, hk⟩ : ∃ k : ℕ, ((32 - len) % 64).toNat = k := ⟨_, rfl⟩
  have hk32 : k ≤ 32 := by omega
  have hm : m < 2 ^ 32 := by omega
  have hshift : (0xffffffff : ℕ) * 2 ^ k < 2 ^ 64 :=
    calc (0xffffffff : ℕ) * 2 ^ k ≤ 0xffffffff * 2 ^ 32 :=
          Nat.mul_le_mul_left _ (Nat.pow_le_pow_right (by decide) hk32)
      _ < 2 ^ 64 := by decide
  have hand : m &&& (0xffffffff * 2 ^ k) = clearLow k m := by
    refine Nat.eq_of_testBit_eq fun i => ?_
    rw [Nat.testBit_and, Nat.mul_comm, Nat.testBit_two_pow_mul,
      show (0xffffffff : ℕ) = 2 ^ 32 - 1 by decide, Nat.testBit_two_pow_sub_one, clearLow,
      Nat.mul_comm, Nat.testBit_two_pow_mul, Nat.testBit_div_two_pow]
    by_cases hi : k ≤ i
    · rw [show i - k + k = i by omega]
      by_cases hbit : m.testBit i = true
      · have hi32 : i < 32 := by
          by_contra hge
          rw [Nat.testBit_lt_two_pow (hm.trans_le (Nat.pow_le_pow_right (by decide)
            (not_lt.mp hge)))] at hbit
          cases hbit
        simp [hi, hbit, show i - k < 32 by omega]
      · simp [hbit]
    · simp [hi]
  have hnat : (BitVec.ofInt 64 (m : ℤ) &&& (0xffffffff#64 <<< k)).toNat = clearLow k m := by
    rw [BitVec.toNat_and, BitVec.ofInt_natCast, BitVec.toNat_ofNat,
      Nat.mod_eq_of_lt (show m < 2 ^ 64 by omega), BitVec.toNat_shiftLeft, Nat.shiftLeft_eq,
      Nat.mod_eq_of_lt (by exact hshift)]
    exact hand
  have hle := clearLow_le k m
  rw [CIDRIP.masked, hk, BitVec.toInt_eq_toNat_of_lt (by rw [hnat]; omega), hnat,
    show (32 - len).toNat = k by omega]
  rfl

/-- **`normalise`** takes the bits after the prefix away, and says whether there were any. -/
theorem normalise_spec {ip : CIDRIP} {n : ℤ} (h : ip.getInt = .ok n) (hlen : 0 ≤ ip.len ∧ ip.len ≤ 32)
    (hn : 0 ≤ n ∧ n < 2 ^ 32) :
    ∃ ip' changed, ip.normalise = .ok (ip', changed) ∧ ip'.len = ip.len ∧
      ip'.getInt = .ok (clearLow (32 - ip.len).toNat n.toNat : ℕ) ∧
      (changed = false ↔ (clearLow (32 - ip.len).toNat n.toNat : ℕ) = n) ∧
      (changed = false → ip' = ip) := by
  have hmasked := masked_eq hlen hn
  have hle : ((clearLow (32 - ip.len).toNat n.toNat : ℕ) : ℤ) ≤ n := by
    have := clearLow_le (32 - ip.len).toNat n.toNat
    omega
  have hpos : (0 : ℤ) ≤ (clearLow (32 - ip.len).toNat n.toNat : ℕ) := Int.natCast_nonneg _
  rw [CIDRIP.normalise, h]
  simp only [bind, Except.bind, hmasked]
  generalize ((clearLow (32 - ip.len).toNat n.toNat : ℕ) : ℤ) = m at hle hpos ⊢
  by_cases hsame : m = n
  · refine ⟨ip, false, ?_, rfl, hsame ▸ h, iff_of_true rfl hsame, fun _ => rfl⟩
    simp [hsame, pure, Except.pure]
  · rw [if_pos hsame]
    refine ⟨_, true, rfl, rfl, ?_, iff_of_false (by decide) hsame, fun h => nomatch h⟩
    have hoctets : ∀ x ∈ [m / 2 ^ 24, m / 2 ^ 16 % 256, m / 2 ^ 8 % 256, m % 256],
        0 ≤ x ∧ x ≤ 255 := by
      intro x hx
      simp only [List.mem_cons, List.not_mem_nil, or_false] at hx
      rcases hx with rfl | rfl | rfl | rfl <;> omega
    rw [CIDRIP.getInt, getInt_dotted hoctets, quad]
    congr 1
    omega

end VpnCore.Route
