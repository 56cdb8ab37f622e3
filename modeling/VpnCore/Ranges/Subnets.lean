import VpnCore.Lib.Dyadic
import VpnCore.Ranges.IPRangeSet

/-!
# VpnCore.Ranges.Subnets — ranges as proper subnets

`mPrefix` and `toSubnets` of an `IPRange`.  A range is a proper subnet if its ends agree up to some bit
and are all zeros and all ones from there on; `mPrefix` is determined by the ends, also for a range built
from an address and a prefix (`determinePrefix_eq_some`, `initializeFromCIDR_eq`).  Any other range is split by
climbing from both ends, bit by bit, which is the climb of the dyadic library on the values of the
ends: the subnets cover the range, and none lies in a larger one inside the range.

The counters `i` and `bit` of the loops are one, the number `8 * i + bit` of the bit in the address.
-/

namespace VpnCore.Ranges

open VpnCore.Lib

/-! ## Bits of an address -/

def mBitmask : List UInt8 := [0x80, 0x40, 0x20, 0x10, 0x08, 0x04, 0x02, 0x01]

/-- The mask of bit `k` in its byte. -/
def maskOf (k : ℕ) : UInt8 := mBitmask.getD (k % 8) 0

/-- `a[i] & mBitmask[bit]`. -/
def bitAt (a : Bytes) (k : ℕ) : UInt8 := a.getD (k / 8) 0 &&& maskOf k

/-- `a[i] ^= mBitmask[bit]`. -/
def invertBit (a : Bytes) (k : ℕ) : Bytes := a.modify (k / 8) (· ^^^ maskOf k)

/-- `a[i] &= ~mBitmask[bit]`. -/
def clearBit (a : Bytes) (k : ℕ) : Bytes := a.modify (k / 8) (· &&& ~~~maskOf k)

/-! ## The prefix of a range -/

namespace IPRange

/-- The loops of `determinePrefix`: before the first difference and after it. -/
def determineLoop (r : IPRange) : Bool → ℕ → List ℕ → Option ℕ
  | _, mPrefix, [] => some mPrefix
  | true, mPrefix, k :: ks =>
    if bitAt r.mFrom k ≠ bitAt r.mTo k then determineLoop r false k ks
    else determineLoop r true mPrefix ks
  | false, mPrefix, k :: ks =>
    if bitAt r.mFrom k ≠ 0 ∨ bitAt r.mTo k = 0 then none else determineLoop r false mPrefix ks

def determinePrefix (r : IPRange) : Option ℕ :=
  determineLoop r true (r.mFrom.length * 8) (List.range (r.mFrom.length * 8))

/-! ## The subnets of a range -/

/-- The variables of the loop in `toSubnets`. -/
structure SubnetLoop where
  lower : Bytes
  upper : Bytes
  fromPrev : UInt8
  toPrev : UInt8
  fromFull : Bool
  toFull : Bool
  netmask : ℤ
  list : List IPRange

namespace SubnetLoop

/-- The half of the body about `from`. -/
def stepFrom (k : ℕ) (s : SubnetLoop) : Option SubnetLoop := do
  let fromCur := bitAt s.lower k
  if s.fromPrev = 0 ∧ fromCur ≠ 0 then
    let subnet ← initializeFromCIDR s.lower s.netmask
    return { s with lower := clearBit s.lower k, fromPrev := fromCur, fromFull := false,
                    list := s.list ++ [subnet] }
  else if s.fromPrev ≠ 0 ∧ fromCur = 0 then
    let inverted := invertBit s.lower k
    let subnet ← initializeFromCIDR inverted s.netmask
    return { s with lower := clearBit inverted k, fromPrev := 1, list := s.list ++ [subnet] }
  else
    return { s with lower := clearBit s.lower k, fromPrev := fromCur }

/-- The half of the body about `to`. -/
def stepTo (k : ℕ) (s : SubnetLoop) : Option SubnetLoop := do
  let toCur := bitAt s.upper k
  if s.toPrev ≠ 0 ∧ toCur = 0 then
    let subnet ← initializeFromCIDR s.upper s.netmask
    return { s with upper := clearBit s.upper k, toPrev := toCur, toFull := false,
                    list := s.list ++ [subnet] }
  else if s.toPrev = 0 ∧ toCur ≠ 0 then
    let inverted := invertBit s.upper k
    let subnet ← initializeFromCIDR inverted s.netmask
    return { s with upper := clearBit inverted k, toPrev := 0, list := s.list ++ [subnet] }
  else
    return { s with upper := clearBit s.upper k, toPrev := toCur }

def step (k : ℕ) (s : SubnetLoop) : Option SubnetLoop := do
  let s ← stepFrom k s
  let s ← stepTo k s
  return { s with netmask := s.netmask - 1 }

/-- The first `n` rounds of the loops, from the last bit of the address on. -/
def rounds (r : IPRange) : ℕ → Option SubnetLoop
  | 0 => some ⟨r.mFrom, r.mTo, 0, 1, true, true, r.mFrom.length * 8, []⟩
  | n + 1 => (rounds r n).bind (step (r.mFrom.length * 8 - 1 - n))

end SubnetLoop

/-- The number of bits that the ends have in common. -/
def commonPrefix (r : IPRange) : ℕ :=
  (List.range (r.mFrom.length * 8)).findIdx fun k => bitAt r.mFrom k ≠ bitAt r.mTo k

/-- The end of `toSubnets`: the halves below the common prefix that are full. -/
def SubnetLoop.finish (common : ℕ) (s : SubnetLoop) : Option (List IPRange) :=
  if s.fromFull && s.toFull then
    (initializeFromCIDR s.lower common).map fun subnet => s.list ++ [subnet]
  else if s.fromFull then
    (initializeFromCIDR s.lower (common + 1)).map fun subnet => s.list ++ [subnet]
  else if s.toFull then
    (initializeFromCIDR s.upper (common + 1)).map fun subnet => s.list ++ [subnet]
  else some s.list

/-- The list that `toSubnets` sorts.  The rounds reach down to the bit after the first difference. -/
def subnetList (r : IPRange) : Option (List IPRange) :=
  if r.determinePrefix.isSome then some [r]
  else
    (SubnetLoop.rounds r (r.mFrom.length * 8 - (r.commonPrefix + 1))).bind
      (SubnetLoop.finish r.commonPrefix)

/-- `toSubnets`, with nothing for an `IllegalArgumentException` of the constructor. -/
def toSubnets (r : IPRange) : Option (List IPRange) :=
  r.subnetList.map fun list => list.mergeSort fun a b => a.compareTo b ≠ .gt

end IPRange

/-! ## Bits and values -/

theorem two_pow_mul_eight (n : ℕ) : 2 ^ (n * 8) = 256 ^ n := by
  rw [Nat.mul_comm, pow_mul]
  norm_num

theorem value_append (a b : Bytes) : value (a ++ b) = value a * 256 ^ b.length + value b := by
  induction a with
  | nil => simp [value]
  | cons x a ih =>
    rw [List.cons_append, value_cons, value_cons, ih, List.length_append, pow_add]
    ring

theorem maskOf_ne_zero (k : ℕ) : maskOf k ≠ 0 := by
  have hall : ∀ r < 8, mBitmask.getD r 0 ≠ 0 := by decide
  exact hall (k % 8) (Nat.mod_lt k (by decide))

/-- The mask picks one bit of the byte. -/
theorem and_maskOf (b : UInt8) (k : ℕ) :
    b &&& maskOf k = if b.toNat.testBit (7 - k % 8) then maskOf k else 0 := by
  have hall : ∀ n < 256, ∀ r < 8, UInt8.ofNat n &&& mBitmask.getD r 0 =
      if (UInt8.ofNat n).toNat.testBit (7 - r) then mBitmask.getD r 0 else 0 := by decide +kernel
  have := hall b.toNat b.toNat_lt (k % 8) (Nat.mod_lt k (by decide))
  rwa [UInt8.ofNat_toNat] at this

theorem testBit_value : ∀ (a : Bytes) (k : ℕ), k < a.length * 8 →
    (value a).testBit (a.length * 8 - 1 - k) = (a.getD (k / 8) 0).toNat.testBit (7 - k % 8)
  | [], k, h => by simp at h
  | b :: a, k, h => by
    have hv : value a < 2 ^ (a.length * 8) := two_pow_mul_eight a.length ▸ value_lt a
    have hvalue : value (b :: a) = 2 ^ (a.length * 8) * b.toNat + value a := by
      rw [value_cons, two_pow_mul_eight, Nat.add_comm]
    rw [hvalue, Nat.testBit_two_pow_mul_add _ hv, List.length_cons]
    rw [List.length_cons] at h
    by_cases hk : k < 8
    · rw [if_neg (by omega), Nat.div_eq_of_lt hk, Nat.mod_eq_of_lt hk, List.getD_cons_zero]
      congr 1
      omega
    · obtain ⟨i, rfl⟩ : ∃ i, k = i + 8 := ⟨k - 8, by omega⟩
      rw [if_pos (by omega), Nat.add_div_right i (by decide), List.getD_cons_succ,
        Nat.add_mod_right, ← testBit_value a i (by omega)]
      congr 1
      omega

variable {a b : Bytes} {k : ℕ}

theorem bitAt_eq (h : k < a.length * 8) :
    bitAt a k = if (value a).testBit (a.length * 8 - 1 - k) then maskOf k else 0 := by
  rw [bitAt, and_maskOf, testBit_value a k h]

theorem bitAt_eq_zero (h : k < a.length * 8) :
    bitAt a k = 0 ↔ (value a).testBit (a.length * 8 - 1 - k) = false := by
  rw [bitAt_eq h]
  have := maskOf_ne_zero k
  split_ifs with hbit <;> simp_all

theorem bitAt_eq_bitAt (hlen : a.length = b.length) (h : k < a.length * 8) :
    bitAt a k = bitAt b k ↔
      (value a).testBit (a.length * 8 - 1 - k) = (value b).testBit (a.length * 8 - 1 - k) := by
  rw [bitAt_eq h, bitAt_eq (hlen ▸ h), ← hlen]
  have := maskOf_ne_zero k
  have := (maskOf_ne_zero k).symm
  split_ifs with h1 h2 h2 <;> simp_all

/-- Changing a byte changes the value by as much as the byte, at its place. -/
theorem value_modify (f : UInt8 → UInt8) : ∀ (a : Bytes) (i : ℕ), i < a.length →
    value (a.modify i f) + 256 ^ (a.length - 1 - i) * (a.getD i 0).toNat =
      value a + 256 ^ (a.length - 1 - i) * (f (a.getD i 0)).toNat
  | [], i, h => by simp at h
  | b :: a, 0, h => by
    simp only [List.modify_zero_cons, value_cons, List.length_cons, Nat.add_sub_cancel, Nat.sub_zero,
      List.getD_cons_zero]
    ring
  | b :: a, i + 1, h => by
    have ih := value_modify f a i (by simpa using h)
    have hlen : (b :: a).length - 1 - (i + 1) = a.length - 1 - i := by simp; omega
    rw [hlen, List.modify_succ_cons, value_cons, value_cons, List.length_modify, List.getD_cons_succ]
    omega

theorem place_eq (h : k < a.length * 8) :
    256 ^ (a.length - 1 - k / 8) * 2 ^ (7 - k % 8) = 2 ^ (a.length * 8 - 1 - k) := by
  rw [← two_pow_mul_eight, ← pow_add]
  congr 1
  omega

@[simp] theorem length_clearBit (a : Bytes) (k : ℕ) : (clearBit a k).length = a.length := by
  simp [clearBit]

@[simp] theorem length_invertBit (a : Bytes) (k : ℕ) : (invertBit a k).length = a.length := by
  simp [invertBit]

/-- A byte without the bit. -/
theorem toNat_and_not_maskOf (b : UInt8) (k : ℕ) :
    (b &&& ~~~maskOf k).toNat + (if b.toNat.testBit (7 - k % 8) then 2 ^ (7 - k % 8) else 0) =
      b.toNat := by
  have hall : ∀ n < 256, ∀ r < 8, (UInt8.ofNat n &&& ~~~mBitmask.getD r 0).toNat +
      (if (UInt8.ofNat n).toNat.testBit (7 - r) then 2 ^ (7 - r) else 0) =
        (UInt8.ofNat n).toNat := by decide +kernel
  have := hall b.toNat b.toNat_lt (k % 8) (Nat.mod_lt k (by decide))
  rwa [UInt8.ofNat_toNat] at this

/-- A byte with the bit inverted. -/
theorem toNat_xor_maskOf (b : UInt8) (k : ℕ) :
    (b ^^^ maskOf k).toNat + (if b.toNat.testBit (7 - k % 8) then 2 ^ (7 - k % 8) else 0) =
      b.toNat + (if b.toNat.testBit (7 - k % 8) then 0 else 2 ^ (7 - k % 8)) := by
  have hall : ∀ n < 256, ∀ r < 8, (UInt8.ofNat n ^^^ mBitmask.getD r 0).toNat +
      (if (UInt8.ofNat n).toNat.testBit (7 - r) then 2 ^ (7 - r) else 0) =
        (UInt8.ofNat n).toNat + (if (UInt8.ofNat n).toNat.testBit (7 - r) then 0 else 2 ^ (7 - r)) := by
    decide +kernel
  have := hall b.toNat b.toNat_lt (k % 8) (Nat.mod_lt k (by decide))
  rwa [UInt8.ofNat_toNat] at this

theorem value_clearBit (h : k < a.length * 8) :
    value (clearBit a k) +
      (if (value a).testBit (a.length * 8 - 1 - k) then 2 ^ (a.length * 8 - 1 - k) else 0) =
        value a := by
  have hmod := value_modify (· &&& ~~~maskOf k) a (k / 8) (by omega)
  rw [← toNat_and_not_maskOf (a.getD (k / 8) 0) k, Nat.mul_add] at hmod
  rw [testBit_value a k h, ← place_eq h, clearBit]
  split_ifs at hmod ⊢ <;> omega

/-- Inverting a bit does not matter once it is cleared. -/
theorem clearBit_invertBit (a : Bytes) (k : ℕ) : clearBit (invertBit a k) k = clearBit a k := by
  have hall : ∀ n < 256, ∀ r < 8,
      (UInt8.ofNat n ^^^ mBitmask.getD r 0) &&& ~~~mBitmask.getD r 0 =
        UInt8.ofNat n &&& ~~~mBitmask.getD r 0 := by decide +kernel
  rw [clearBit, invertBit, List.modify_modify_eq, clearBit]
  congr 1
  funext b
  have := hall b.toNat b.toNat_lt (k % 8) (Nat.mod_lt k (by decide))
  rwa [UInt8.ofNat_toNat] at this

theorem value_invertBit (h : k < a.length * 8) :
    value (invertBit a k) +
      (if (value a).testBit (a.length * 8 - 1 - k) then 2 ^ (a.length * 8 - 1 - k) else 0) =
        value a +
          if (value a).testBit (a.length * 8 - 1 - k) then 0 else 2 ^ (a.length * 8 - 1 - k) := by
  have hmod := value_modify (· ^^^ maskOf k) a (k / 8) (by omega)
  have hbyte := congrArg (256 ^ (a.length - 1 - k / 8) * ·) (toNat_xor_maskOf (a.getD (k / 8) 0) k)
  simp only [Nat.mul_add] at hbyte
  rw [testBit_value a k h, ← place_eq h, invertBit]
  split_ifs at hbyte ⊢ <;> simp only [Nat.mul_zero, Nat.add_zero] at hbyte ⊢ <;> omega

/-! ## Ranges that are blocks -/

theorem value_replicate_zero (n : ℕ) : value (List.replicate n 0) = 0 := by
  induction n with
  | zero => simp [value]
  | succ n ih => rw [List.replicate_succ, value_cons, ih]; simp

theorem value_replicate_ff (n : ℕ) : value (List.replicate n 0xff) + 1 = 256 ^ n := by
  induction n with
  | zero => simp [value]
  | succ n ih =>
    rw [List.replicate_succ, value_cons, List.length_replicate, pow_succ]
    have hff : (0xff : UInt8).toNat = 255 := by decide
    rw [hff]
    omega

/-- The masks of `initializeFromCIDR` split a byte at the bit `8 - m`. -/
theorem cidr_mask (b : UInt8) {m : ℕ} (hm : m < 8) :
    (b &&& UInt8.ofNat (0xff * 2 ^ (8 - m))).toNat = clearLow (8 - m) b.toNat ∧
      (b ||| ~~~UInt8.ofNat (0xff * 2 ^ (8 - m))).toNat + 1 =
        clearLow (8 - m) b.toNat + 2 ^ (8 - m) := by
  have hall : ∀ n < 256, ∀ m < 8,
      (UInt8.ofNat n &&& UInt8.ofNat (0xff * 2 ^ (8 - m))).toNat = n / 2 ^ (8 - m) * 2 ^ (8 - m) ∧
        (UInt8.ofNat n ||| ~~~UInt8.ofNat (0xff * 2 ^ (8 - m))).toNat + 1 =
          n / 2 ^ (8 - m) * 2 ^ (8 - m) + 2 ^ (8 - m) := by decide +kernel
  have := hall b.toNat b.toNat_lt m hm
  rwa [UInt8.ofNat_toNat] at this

namespace IPRange

/-- The range is the block of addresses of length `n`. -/
structure IsBlock (r : IPRange) (n : ℕ) (b : Block) : Prop where
  length_from : r.mFrom.length = n
  length_to : r.mTo.length = n
  first : value r.mFrom = b.base
  last : value r.mTo + 1 = b.base + 2 ^ b.bits

theorem IsBlock.mem_addresses {r : IPRange} {n : ℕ} {c : Block} (h : r.IsBlock n c) {a : Bytes} :
    a ∈ r.addresses ↔ a.length = n ∧ c.Mem (value a) := by
  have h1 := h.first
  have h2 := h.last
  change (a.length = r.mFrom.length ∧ value r.mFrom ≤ value a ∧ value a ≤ value r.mTo) ↔
    a.length = n ∧ c.base ≤ value a ∧ value a < c.base + 2 ^ c.bits
  rw [h.length_from]
  omega

/-- **A range from an address and a prefix**: the addresses with the same upper bits. -/
theorem initializeFromCIDR_eq (base : Bytes) {p : ℕ} (hlen : base.length = 4 ∨ base.length = 16)
    (hp : p ≤ base.length * 8) :
    ∃ r, initializeFromCIDR base p = some r ∧ r.IsBlock base.length
      ⟨clearLow (base.length * 8 - p) (value base), base.length * 8 - p⟩ := by
  rw [initializeFromCIDR, if_neg (by omega), if_neg (by omega)]
  dsimp only [Int.toNat_natCast]
  split
  next hnone =>
    have hi : base.length ≤ p / 8 := List.getElem?_eq_none_iff.mp hnone
    refine ⟨_, rfl, rfl, rfl, ?_, ?_⟩ <;>
      simp [show base.length * 8 - p = 0 by omega, clearLow]
  next b hb =>
    obtain ⟨hi, hb⟩ := List.getElem?_eq_some_iff.mp hb
    obtain ⟨hand, hor⟩ := cidr_mask b (Nat.mod_lt p (show 0 < 8 by decide))
    -- the address splits into the bytes before `b`, `b` itself and `n` bytes after it
    obtain ⟨n, hn⟩ : ∃ n, base.length - (p / 8 + 1) = n := ⟨_, rfl⟩
    have hsplit : base = base.take (p / 8) ++ b :: base.drop (p / 8 + 1) := by
      rw [← hb, List.cons_getElem_drop_succ, List.take_append_drop]
    have hdrop : (base.drop (p / 8 + 1)).length = n := by rw [List.length_drop, hn]
    have hvalue : value base =
        value (base.take (p / 8)) * 256 ^ (n + 1) + (value (base.drop (p / 8 + 1)) + 256 ^ n * b.toNat) := by
      conv_lhs => rw [hsplit]
      rw [value_append, value_cons, List.length_cons, hdrop]
    have hrest := value_lt (base.drop (p / 8 + 1))
    rw [hdrop] at hrest
    have hbits : base.length * 8 - p = n * 8 + (8 - p % 8) := by omega
    have hpow : 2 ^ (base.length * 8 - p) = 256 ^ n * 2 ^ (8 - p % 8) := by
      rw [hbits, pow_add, two_pow_mul_eight]
    have hff := value_replicate_ff n
    have hblock : clearLow (base.length * 8 - p) (value base) =
        value (base.take (p / 8)) * 256 ^ (n + 1) + 256 ^ n * clearLow (8 - p % 8) b.toNat := by
      refine clearLow_eq ?_ ?_ ?_
      · rw [hpow, pow_succ]
        refine Nat.dvd_add ?_ (Nat.mul_dvd_mul_left _ (dvd_clearLow _ _))
        have h256 : 2 ^ (8 - p % 8) ∣ 256 := pow_dvd_pow 2 (show 8 - p % 8 ≤ 8 by omega)
        exact (Nat.mul_dvd_mul_left _ h256).mul_left _
      · have := Nat.mul_le_mul_left (256 ^ n) (clearLow_le (8 - p % 8) b.toNat)
        omega
      · have hlt : 256 ^ n * (b.toNat + 1) ≤
            256 ^ n * (clearLow (8 - p % 8) b.toNat + 2 ^ (8 - p % 8)) :=
          Nat.mul_le_mul_left _ (lt_clearLow_add (8 - p % 8) b.toNat)
        rw [Nat.mul_add, Nat.mul_add] at hlt
        omega
    refine ⟨_, rfl, ?_, ?_, ?_, ?_⟩
    · simp
      omega
    · simp
      omega
    · rw [hblock, hn, value_append, value_cons, List.length_cons, List.length_replicate,
        value_replicate_zero, hand, Nat.zero_add]
    · have hup := congrArg (256 ^ n * ·) hor
      simp only [Nat.mul_add] at hup
      rw [hblock, hn, hpow, value_append, value_cons, List.length_cons, List.length_replicate]
      linarith

/-! ## The common prefix -/

variable {r : IPRange} {p : ℕ}

theorem determineLoop_true (r : IPRange) (m : ℕ) : ∀ ks : List ℕ,
    determineLoop r true m ks =
      match ks.drop (ks.findIdx fun k => bitAt r.mFrom k ≠ bitAt r.mTo k) with
      | [] => some m
      | k :: rest => determineLoop r false k rest
  | [] => rfl
  | k :: ks => by
    rw [determineLoop, List.findIdx_cons]
    by_cases hk : bitAt r.mFrom k = bitAt r.mTo k
    · simp [hk, determineLoop_true r m ks]
    · simp [hk]

theorem determineLoop_false (r : IPRange) (p q : ℕ) : ∀ ks : List ℕ,
    determineLoop r false p ks = some q ↔
      q = p ∧ ∀ k ∈ ks, bitAt r.mFrom k = 0 ∧ bitAt r.mTo k ≠ 0
  | [] => by simp [determineLoop, eq_comm]
  | k :: ks => by
    rw [determineLoop]
    split_ifs with hk
    · simp only [List.forall_mem_cons, false_iff]
      rintro ⟨-, h, -⟩
      rcases hk with hk | hk
      · exact hk h.1
      · exact h.2 hk
    · rw [not_or, not_not] at hk
      rw [determineLoop_false r p q ks, List.forall_mem_cons]
      exact and_congr_right fun _ => ⟨fun h => ⟨hk, h⟩, fun h => h.2⟩

theorem commonPrefix_le (r : IPRange) : r.commonPrefix ≤ r.mFrom.length * 8 := by
  have hle : r.commonPrefix ≤ (List.range (r.mFrom.length * 8)).length := List.findIdx_le_length
  rwa [List.length_range] at hle

theorem bitAt_eq_of_lt_commonPrefix {k : ℕ} (h : k < r.commonPrefix) :
    bitAt r.mFrom k = bitAt r.mTo k := by
  have := List.not_of_lt_findIdx h
  simpa using this

theorem bitAt_ne_commonPrefix (h : r.commonPrefix < r.mFrom.length * 8) :
    bitAt r.mFrom r.commonPrefix ≠ bitAt r.mTo r.commonPrefix := by
  have hlt : (List.range (r.mFrom.length * 8)).findIdx
      (fun k => decide (bitAt r.mFrom k ≠ bitAt r.mTo k)) < (List.range (r.mFrom.length * 8)).length := by
    rw [List.length_range]
    exact h
  have hfind := List.findIdx_getElem (w := hlt)
  simpa [commonPrefix] using hfind

/-- The prefix is the common one, with zeros and ones after the first difference. -/
theorem determinePrefix_iff (r : IPRange) (p : ℕ) :
    r.determinePrefix = some p ↔ p = r.commonPrefix ∧
      ∀ k, p < k → k < r.mFrom.length * 8 → bitAt r.mFrom k = 0 ∧ bitAt r.mTo k ≠ 0 := by
  rw [determinePrefix, determineLoop_true]
  change (match (List.range (r.mFrom.length * 8)).drop r.commonPrefix with
    | [] => some (r.mFrom.length * 8)
    | k :: rest => determineLoop r false k rest) = some p ↔ _
  have hle := r.commonPrefix_le
  rcases hle.lt_or_eq with hlt | heq
  · have hdrop : (List.range (r.mFrom.length * 8)).drop r.commonPrefix =
        r.commonPrefix ::
          List.range' (r.commonPrefix + 1) (r.mFrom.length * 8 - (r.commonPrefix + 1)) := by
      rw [List.range_eq_range', List.drop_range', Nat.zero_add, Nat.mul_one, ← List.range'_succ]
      congr 1
      omega
    rw [hdrop]
    dsimp only
    rw [determineLoop_false]
    refine and_congr_right ?_
    rintro rfl
    simp only [List.mem_range'_1]
    exact ⟨fun h k h1 h2 => h k ⟨by omega, by omega⟩, fun h k hk => h k (by omega) (by omega)⟩
  · rw [List.drop_eq_nil_of_le (by rw [List.length_range]; exact heq.ge)]
    simp only [Option.some.injEq]
    constructor
    · rintro rfl
      exact ⟨heq.symm, fun k h1 h2 => absurd h2 (by omega)⟩
    · rintro ⟨rfl, -⟩
      exact heq.symm

theorem Valid.value_lt (h : r.Valid) :
    value r.mFrom < 2 ^ (r.mFrom.length * 8) ∧ value r.mTo < 2 ^ (r.mFrom.length * 8) := by
  rw [two_pow_mul_eight]
  exact ⟨Ranges.value_lt r.mFrom, h.length ▸ Ranges.value_lt r.mTo⟩

theorem Valid.value_le (h : r.Valid) : value r.mFrom ≤ value r.mTo := by
  have := not_lt.mpr h.le
  rw [key_lt_iff] at this
  have := h.length
  omega

/-- The values agree in the bits of the common prefix. -/
theorem Valid.div_eq (h : r.Valid) :
    value r.mFrom / 2 ^ (r.mFrom.length * 8 - r.commonPrefix) =
      value r.mTo / 2 ^ (r.mFrom.length * 8 - r.commonPrefix) := by
  obtain ⟨h1, h2⟩ := h.value_lt
  have hle := r.commonPrefix_le
  refine Nat.eq_of_testBit_eq fun i => ?_
  rw [Nat.testBit_div_two_pow, Nat.testBit_div_two_pow]
  by_cases hi : i + (r.mFrom.length * 8 - r.commonPrefix) < r.mFrom.length * 8
  · have hk := bitAt_eq_of_lt_commonPrefix (r := r)
      (k := r.mFrom.length * 8 - 1 - (i + (r.mFrom.length * 8 - r.commonPrefix))) (by omega)
    rw [bitAt_eq_bitAt h.length (by omega)] at hk
    rwa [show r.mFrom.length * 8 - 1 -
        (r.mFrom.length * 8 - 1 - (i + (r.mFrom.length * 8 - r.commonPrefix))) =
          i + (r.mFrom.length * 8 - r.commonPrefix) by omega] at hk
  · have hpow := Nat.pow_le_pow_right (show 0 < 2 by decide) (not_lt.mp hi)
    rw [Nat.testBit_lt_two_pow (h1.trans_le hpow), Nat.testBit_lt_two_pow (h2.trans_le hpow)]

/-- At the first difference the ends part: zero below, one above. -/
theorem Valid.splits (h : r.Valid) (hlt : r.commonPrefix < r.mFrom.length * 8) :
    Splits (value r.mFrom) (value r.mTo) (r.mFrom.length * 8 - 1 - r.commonPrefix) := by
  obtain ⟨J, hJ⟩ : ∃ J, r.mFrom.length * 8 - 1 - r.commonPrefix = J := ⟨_, rfl⟩
  have hcommon : clearLow (J + 1) (value r.mFrom) = clearLow (J + 1) (value r.mTo) := by
    have := h.div_eq
    rw [show r.mFrom.length * 8 - r.commonPrefix = J + 1 by omega] at this
    rw [clearLow, clearLow, this]
  have hbit := bitAt_ne_commonPrefix hlt
  rw [Ne, bitAt_eq_bitAt h.length hlt] at hbit
  rw [hJ] at hbit ⊢
  have hF := clearLow_succ J (value r.mFrom)
  have hT := clearLow_succ J (value r.mTo)
  have hle := h.value_le
  have h1 := clearLow_le J (value r.mFrom)
  have h2 := lt_clearLow_add J (value r.mTo)
  cases hb : (value r.mFrom).testBit J <;> cases hc : (value r.mTo).testBit J
  · exact absurd (hb.trans hc.symm) hbit
  · exact ⟨hcommon, hb, hc⟩
  · simp only [hb, hc, if_true, Bool.false_eq_true, if_false] at hF hT
    omega
  · exact absurd (hb.trans hc.symm) hbit

/-- **A range has a prefix iff it is a proper subnet**, and then its own. -/
theorem determinePrefix_eq_some (h : r.Valid) :
    r.determinePrefix = some p ↔ p ≤ r.mFrom.length * 8 ∧
      2 ^ (r.mFrom.length * 8 - p) ∣ value r.mFrom ∧
      value r.mTo + 1 = value r.mFrom + 2 ^ (r.mFrom.length * 8 - p) := by
  have hle := r.commonPrefix_le
  rw [determinePrefix_iff]
  constructor
  · rintro ⟨rfl, hbits⟩
    rcases hle.lt_or_eq with hlt | heq
    · obtain ⟨J, hJ⟩ : ∃ J, r.mFrom.length * 8 - 1 - r.commonPrefix = J := ⟨_, rfl⟩
      have hsplits := h.splits hlt
      rw [hJ] at hsplits
      obtain ⟨hF, hT⟩ := hsplits.halves
      have hzero : clearLow J (value r.mFrom) = value r.mFrom := by
        refine (clearLow_eq_self _ _).mpr fun i hi => ?_
        have := (hbits (r.mFrom.length * 8 - 1 - i) (by omega) (by omega)).1
        rw [bitAt_eq_zero (by omega)] at this
        rwa [show r.mFrom.length * 8 - 1 - (r.mFrom.length * 8 - 1 - i) = i by omega] at this
      have hone : value r.mTo + 1 = clearLow J (value r.mTo) + 2 ^ J := by
        refine (add_one_eq_clearLow _ _).mpr fun i hi => ?_
        have := (hbits (r.mFrom.length * 8 - 1 - i) (by omega) (by omega)).2
        rw [Ne, bitAt_eq_zero (by rw [← h.length]; omega), ← h.length, Bool.not_eq_false] at this
        rwa [show r.mFrom.length * 8 - 1 - (r.mFrom.length * 8 - 1 - i) = i by omega] at this
      have hpow : 2 ^ (J + 1) = 2 * 2 ^ J := by rw [pow_succ, Nat.mul_comm]
      rw [show r.mFrom.length * 8 - r.commonPrefix = J + 1 by omega]
      refine ⟨hle, ?_, by omega⟩
      rw [← hzero, hF]
      exact dvd_clearLow _ _
    · have hdiv := h.div_eq
      rw [heq, Nat.sub_self] at hdiv ⊢
      refine ⟨le_rfl, one_dvd _, ?_⟩
      simpa using hdiv.symm
  · rintro ⟨hp, ⟨q, hq⟩, hlast⟩
    obtain ⟨m, hm⟩ : ∃ m, r.mFrom.length * 8 - p = m := ⟨_, rfl⟩
    rw [hm] at hq hlast
    have hpos := Nat.two_pow_pos m
    -- the bits of the two ends
    have hF : ∀ i, (value r.mFrom).testBit i = if i < m then false else q.testBit (i - m) := by
      intro i
      rw [hq, ← Nat.add_zero (2 ^ m * q), Nat.testBit_two_pow_mul_add _ hpos, Nat.zero_testBit]
    have hT : ∀ i, (value r.mTo).testBit i = if i < m then true else q.testBit (i - m) := by
      intro i
      rw [show value r.mTo = 2 ^ m * q + (2 ^ m - 1) by omega,
        Nat.testBit_two_pow_mul_add _ (by omega)]
      split_ifs with hi
      · simp [hi]
      · rfl
    have hequal : ∀ k < p, bitAt r.mFrom k = bitAt r.mTo k := by
      intro k hk
      rw [bitAt_eq_bitAt h.length (by omega), hF, hT, if_neg (by omega), if_neg (by omega)]
    have hlow : ∀ k, p ≤ k → k < r.mFrom.length * 8 → bitAt r.mFrom k = 0 ∧ bitAt r.mTo k ≠ 0 := by
      intro k h1 h2
      rw [Ne, bitAt_eq_zero h2, bitAt_eq_zero (by rw [← h.length]; exact h2), ← h.length, hF, hT,
        if_pos (by omega), if_pos (by omega)]
      simp
    refine ⟨?_, fun k h1 h2 => hlow k (by omega) h2⟩
    rcases hp.lt_or_eq with hlt | rfl
    · refine ((List.findIdx_eq (by rw [List.length_range]; exact hlt)).mpr ⟨?_, ?_⟩).symm
      · obtain ⟨h0, h1⟩ := hlow p le_rfl hlt
        simp only [List.getElem_range, decide_eq_true_eq, h0]
        exact Ne.symm h1
      · intro k hk
        simp [hequal k hk]
    · by_contra hne
      exact bitAt_ne_commonPrefix (by omega) (hequal _ (by omega))

/-! ## The climb -/

/-- The ranges of a list are the blocks of another, in some order. -/
structure Lists (n : ℕ) (list : List IPRange) (blocks : List Block) : Prop where
  sound : ∀ r ∈ list, ∃ b ∈ blocks, r.IsBlock n b
  complete : ∀ b ∈ blocks, ∃ r ∈ list, r.IsBlock n b
  length : list.length = blocks.length

variable {n : ℕ} {list : List IPRange} {blocks blocks' : List Block}

theorem Lists.nil : Lists n [] [] := ⟨by simp, by simp, rfl⟩

theorem Lists.add {c : Block} (h : Lists n list blocks) (hr : r.IsBlock n c)
    (hperm : blocks'.Perm (blocks ++ [c])) : Lists n (list ++ [r]) blocks' := by
  have hmem : ∀ b, b ∈ blocks' ↔ b ∈ blocks ∨ b = c := fun b => by
    rw [hperm.mem_iff, List.mem_append, List.mem_singleton]
  refine ⟨?_, ?_, ?_⟩
  · intro s hs
    rcases List.mem_append.mp hs with hs | hs
    · obtain ⟨b, hb, hsb⟩ := h.sound s hs
      exact ⟨b, (hmem b).mpr (.inl hb), hsb⟩
    · exact ⟨c, (hmem c).mpr (.inr rfl), List.mem_singleton.mp hs ▸ hr⟩
  · intro b hb
    rcases (hmem b).mp hb with hb | rfl
    · obtain ⟨s, hs, hsb⟩ := h.complete b hb
      exact ⟨s, List.mem_append_left _ hs, hsb⟩
    · exact ⟨r, by simp, hr⟩
  · rw [hperm.length_eq, List.length_append, List.length_append, h.length]
    rfl

/-- A block more in the first of two lists. -/
theorem perm_add_left (lefts rights : List Block) (c : Block) :
    (lefts ++ [c] ++ rights).Perm (lefts ++ rights ++ [c]) := by
  rw [List.append_assoc, List.append_assoc]
  exact List.perm_append_comm.append_left lefts

namespace SubnetLoop

/-- One end after `j` bits: the address without them, and what the last bit was taken for. -/
structure Side (n x j : ℕ) (flag : Bool) (addr : Bytes) (prev : UInt8) : Prop where
  length : addr.length = n
  value : Ranges.value addr = clearLow j x
  prev : prev = 0 ↔ flag = false

/-- The variables after `i` bits of the lower end and `j` bits of the upper one. -/
structure Climbs (r : IPRange) (i j : ℕ) (s : SubnetLoop) : Prop where
  lower : Side r.mFrom.length (value r.mFrom) i (leftBlocks (value r.mFrom) i).1 s.lower s.fromPrev
  upper : Side r.mFrom.length (value r.mTo) j (rightBlocks (value r.mTo) j).1 s.upper s.toPrev
  fromFull : s.fromFull = !(leftBlocks (value r.mFrom) i).1
  toFull : s.toFull = (rightBlocks (value r.mTo) j).1
  list : Lists r.mFrom.length s.list
    ((leftBlocks (value r.mFrom) i).2 ++ (rightBlocks (value r.mTo) j).2)

variable {x i j : ℕ} {s : SubnetLoop} {flag : Bool} {addr : Bytes} {prev : UInt8}

section

variable (h : Side n x j flag addr prev) (hj : j < n * 8)
include h hj

/-- The current bit is that of the whole address. -/
theorem Side.bitAt_eq_zero : bitAt addr (n * 8 - 1 - j) = 0 ↔ x.testBit j = false := by
  obtain ⟨rfl, hval, -⟩ := h
  rw [Ranges.bitAt_eq_zero (by omega), hval,
    show addr.length * 8 - 1 - (addr.length * 8 - 1 - j) = j by omega, testBit_clearLow]

theorem Side.clear {flag' : Bool} {cur : UInt8} (hcur : cur = 0 ↔ flag' = false) :
    Side n x (j + 1) flag' (clearBit addr (n * 8 - 1 - j)) cur := by
  obtain ⟨rfl, hval, -⟩ := h
  refine ⟨length_clearBit _ _, ?_, hcur⟩
  have hbit := value_clearBit (a := addr) (k := addr.length * 8 - 1 - j) (by omega)
  rw [show addr.length * 8 - 1 - (addr.length * 8 - 1 - j) = j by omega, hval, testBit_clearLow,
    clearLow_succ j x] at hbit
  omega

theorem Side.value_invertBit :
    Ranges.value (invertBit addr (n * 8 - 1 - j)) + (if x.testBit j then 2 ^ j else 0) =
      clearLow j x + if x.testBit j then 0 else 2 ^ j := by
  obtain ⟨rfl, hval, -⟩ := h
  have hinv := Ranges.value_invertBit (a := addr) (k := addr.length * 8 - 1 - j) (by omega)
  rwa [show addr.length * 8 - 1 - (addr.length * 8 - 1 - j) = j by omega, hval,
    testBit_clearLow] at hinv

end

/-- A subnet of the loop is a block. -/
theorem initializeFromCIDR_block {base : ℕ} (hr : r.Valid) (hlen : addr.length = r.mFrom.length)
    (hj : j ≤ r.mFrom.length * 8) (hval : value addr = base) (hd : 2 ^ j ∣ base) :
    ∃ subnet, initializeFromCIDR addr ((r.mFrom.length * 8 - j : ℕ) : ℤ) = some subnet ∧
      subnet.IsBlock r.mFrom.length ⟨base, j⟩ := by
  obtain ⟨subnet, h1, h2⟩ := initializeFromCIDR_eq addr (p := r.mFrom.length * 8 - j)
    (hlen ▸ hr.family) (by omega)
  rw [hlen, show r.mFrom.length * 8 - (r.mFrom.length * 8 - j) = j by omega, hval,
    clearLow_of_dvd hd] at h2
  exact ⟨subnet, h1, h2⟩

theorem Climbs.stepFrom (hr : r.Valid) (hi : i < r.mFrom.length * 8) (h : Climbs r i j s)
    (hmask : s.netmask = ((r.mFrom.length * 8 - i : ℕ) : ℤ)) :
    ∃ t, stepFrom (r.mFrom.length * 8 - 1 - i) s = some t ∧ t.netmask = s.netmask ∧
      Climbs r (i + 1) j t := by
  obtain ⟨hlower, hupper, hfull, hto, hlist⟩ := h
  have hbit := hlower.bitAt_eq_zero hi
  have hinv := hlower.value_invertBit hi
  have hleft := leftBlocks.eq_2 (value r.mFrom) i
  rcases hl : leftBlocks (value r.mFrom) i with ⟨prev, lefts⟩
  rw [hl] at hlower hfull hlist hleft
  dsimp only at hlower hfull hlist hleft
  have hprev := hlower.prev
  have hclear := fun {flag cur} => @Side.clear _ _ _ _ _ _ hlower hi flag cur
  unfold SubnetLoop.stepFrom
  dsimp only
  -- an edge of the same kind as the last one: nothing is recorded
  have hsame : (value r.mFrom).testBit i = prev →
      leftBlocks (value r.mFrom) (i + 1) = (prev, lefts) := by
    rintro hb
    rw [hleft, hb]
    cases prev <;> rfl
  cases hb : (value r.mFrom).testBit i <;> rw [hb] at hbit hinv hleft <;> cases prev
  · rw [if_neg (fun hc => hc.2 (hbit.mpr rfl)), if_neg (fun hc => hc.1 (hprev.mpr rfl))]
    have hsame := hsame hb
    refine ⟨_, rfl, rfl, ?_, hupper, ?_, hto, ?_⟩ <;> rw [hsame]
    · exact hclear hbit
    · exact hfull
    · exact hlist
  · -- the subtree on the right of the path
    have hne : s.fromPrev ≠ 0 := by rw [Ne, hprev]; decide
    simp only [Bool.false_eq_true, if_false, Nat.add_zero] at hinv
    obtain ⟨subnet, hsub, hblock⟩ := initializeFromCIDR_block hr
      ((length_invertBit _ _).trans hlower.length) hi.le hinv
      (Nat.dvd_add (dvd_clearLow _ _) (dvd_refl _))
    rw [if_neg (fun hc => hne hc.1), if_pos ⟨hne, hbit.mpr rfl⟩, hmask, hsub]
    simp only [Bool.not_true, Bool.false_and, Bool.not_false, Bool.and_true, Bool.false_eq_true,
      if_false, if_true] at hleft
    refine ⟨_, rfl, rfl, ?_, hupper, ?_, hto, ?_⟩ <;> rw [hleft]
    · rw [clearBit_invertBit]
      exact hclear (by simp)
    · exact hfull
    · exact hlist.add hblock (perm_add_left _ _ _)
  · -- the subtree that ends with a right edge
    have hne : bitAt s.lower (r.mFrom.length * 8 - 1 - i) ≠ 0 := by rw [Ne, hbit]; decide
    obtain ⟨subnet, hsub, hblock⟩ := initializeFromCIDR_block hr hlower.length hi.le hlower.value
      (dvd_clearLow _ _)
    rw [if_pos ⟨hprev.mpr rfl, hne⟩, hmask, hsub]
    simp only [Bool.not_false, Bool.and_true, if_true] at hleft
    refine ⟨_, rfl, rfl, ?_, hupper, ?_, hto, ?_⟩ <;> rw [hleft]
    · exact hclear hbit
    · rfl
    · exact hlist.add hblock (perm_add_left _ _ _)
  · have hne : s.fromPrev ≠ 0 := by rw [Ne, hprev]; decide
    have hcur : bitAt s.lower (r.mFrom.length * 8 - 1 - i) ≠ 0 := by rw [Ne, hbit]; decide
    rw [if_neg (fun hc => hne hc.1), if_neg (fun hc => hcur hc.2)]
    have hsame := hsame hb
    refine ⟨_, rfl, rfl, ?_, hupper, ?_, hto, ?_⟩ <;> rw [hsame]
    · exact hclear hbit
    · exact hfull
    · exact hlist

theorem Climbs.stepTo (hr : r.Valid) (hj : j < r.mFrom.length * 8) (h : Climbs r i j s)
    (hmask : s.netmask = ((r.mFrom.length * 8 - j : ℕ) : ℤ)) :
    ∃ t, stepTo (r.mFrom.length * 8 - 1 - j) s = some t ∧ t.netmask = s.netmask ∧
      Climbs r i (j + 1) t := by
  obtain ⟨hlower, hupper, hfrom, hfull, hlist⟩ := h
  have hbit := hupper.bitAt_eq_zero hj
  have hinv := hupper.value_invertBit hj
  have hright := rightBlocks.eq_2 (value r.mTo) j
  rcases hl : rightBlocks (value r.mTo) j with ⟨prev, rights⟩
  rw [hl] at hupper hfull hlist hright
  dsimp only at hupper hfull hlist hright
  have hprev := hupper.prev
  have hclear := fun {flag cur} => @Side.clear _ _ _ _ _ _ hupper hj flag cur
  unfold SubnetLoop.stepTo
  dsimp only
  -- an edge of the same kind as the last one: nothing is recorded
  have hsame : (value r.mTo).testBit j = prev →
      rightBlocks (value r.mTo) (j + 1) = (prev, rights) := by
    rintro hb
    rw [hright, hb]
    cases prev <;> rfl
  cases hb : (value r.mTo).testBit j <;> rw [hb] at hbit hinv hright <;> cases prev
  · rw [if_neg (fun hc => hc.1 (hprev.mpr rfl)), if_neg (fun hc => hc.2 (hbit.mpr rfl))]
    have hsame := hsame hb
    refine ⟨_, rfl, rfl, hlower, ?_, hfrom, ?_, ?_⟩ <;> rw [hsame]
    · exact hclear hbit
    · exact hfull
    · exact hlist
  · -- the subtree that ends with a left edge
    have hne : s.toPrev ≠ 0 := by rw [Ne, hprev]; decide
    obtain ⟨subnet, hsub, hblock⟩ := initializeFromCIDR_block hr hupper.length hj.le hupper.value
      (dvd_clearLow _ _)
    rw [if_pos ⟨hne, hbit.mpr rfl⟩, hmask, hsub]
    simp only [Bool.not_false, Bool.and_true, if_true] at hright
    refine ⟨_, rfl, rfl, hlower, ?_, hfrom, ?_, ?_⟩ <;> rw [hright]
    · exact hclear hbit
    · exact hlist.add hblock (by rw [List.append_assoc])
  · -- the subtree on the left of the path
    have hne : bitAt s.upper (r.mFrom.length * 8 - 1 - j) ≠ 0 := by rw [Ne, hbit]; decide
    simp only [if_true, Nat.add_zero] at hinv
    have hsucc := clearLow_succ j (value r.mTo)
    rw [hb, if_pos rfl] at hsucc
    have hbase : value (invertBit s.upper (r.mFrom.length * 8 - 1 - j)) =
        clearLow j (value r.mTo) - 2 ^ j := by omega
    obtain ⟨subnet, hsub, hblock⟩ := initializeFromCIDR_block hr
      ((length_invertBit _ _).trans hupper.length) hj.le hbase
      (Nat.dvd_sub (dvd_clearLow _ _) (dvd_refl _))
    rw [if_neg (fun hc => hne hc.2), if_pos ⟨hprev.mpr rfl, hne⟩, hmask, hsub]
    simp only [Bool.not_true, Bool.false_and, Bool.not_false, Bool.and_true, Bool.false_eq_true,
      if_false, if_true] at hright
    refine ⟨_, rfl, rfl, hlower, ?_, hfrom, ?_, ?_⟩ <;> rw [hright]
    · rw [clearBit_invertBit]
      exact hclear (by simp)
    · exact hfull
    · exact hlist.add hblock (by rw [List.append_assoc])
  · have hne : s.toPrev ≠ 0 := by rw [Ne, hprev]; decide
    have hcur : bitAt s.upper (r.mFrom.length * 8 - 1 - j) ≠ 0 := by rw [Ne, hbit]; decide
    rw [if_neg (fun hc => hcur hc.2), if_neg (fun hc => hne hc.1)]
    have hsame := hsame hb
    refine ⟨_, rfl, rfl, hlower, ?_, hfrom, ?_, ?_⟩ <;> rw [hsame]
    · exact hclear hbit
    · exact hfull
    · exact hlist

/-- **The rounds climb.** -/
theorem climbs_rounds (hr : r.Valid) : ∀ j ≤ r.mFrom.length * 8,
    ∃ s, rounds r j = some s ∧ s.netmask = ((r.mFrom.length * 8 - j : ℕ) : ℤ) ∧ Climbs r j j s
  | 0, _ => by
    refine ⟨_, rfl, by simp, ⟨rfl, ?_, ?_⟩, ⟨hr.length.symm, ?_, ?_⟩, rfl, rfl, .nil⟩
    · simp [clearLow]
    · simp [leftBlocks]
    · simp [clearLow]
    · simp [rightBlocks]
  | j + 1, hj => by
    obtain ⟨s, hs, hmask, hclimbs⟩ := climbs_rounds hr j (by omega)
    obtain ⟨t, ht, hmask', hclimbs⟩ := hclimbs.stepFrom hr (by omega) hmask
    rw [hmask] at hmask'
    obtain ⟨u, hu, hmask'', hclimbs⟩ := hclimbs.stepTo hr (by omega) hmask'
    rw [hmask'] at hmask''
    refine ⟨{ u with netmask := u.netmask - 1 }, ?_, ?_, hclimbs.1, hclimbs.2, hclimbs.3,
      hclimbs.4, hclimbs.5⟩
    · simp [rounds, hs, step, ht, hu]
    · dsimp only
      rw [hmask'']
      omega

end SubnetLoop

/-- A proper subnet inside the range `r`, with none around it that is also inside. -/
structure Subnet (r subnet : IPRange) (b : Block) : Prop where
  block : subnet.IsBlock r.mFrom.length b
  bits_le : b.bits ≤ r.mFrom.length * 8
  aligned : b.Aligned
  inside : ∀ x, b.Mem x → value r.mFrom ≤ x ∧ x ≤ value r.mTo
  maximal : ∃ x, b.parent.Mem x ∧ ¬ (value r.mFrom ≤ x ∧ x ≤ value r.mTo)

theorem Subnet.valid {subnet : IPRange} {b : Block} (h : Subnet r subnet b) (hr : r.Valid) :
    subnet.Valid := by
  obtain ⟨h1, h2, h3, h4⟩ := h.block
  have hpos := Nat.two_pow_pos b.bits
  refine ⟨h1.trans h2.symm, h1 ▸ hr.family, ?_⟩
  rw [← not_lt, key_lt_iff]
  omega

theorem Subnet.determinePrefix {subnet : IPRange} {b : Block} (h : Subnet r subnet b)
    (hr : r.Valid) : subnet.determinePrefix = some (r.mFrom.length * 8 - b.bits) := by
  have hvalid := h.valid hr
  obtain ⟨⟨h1, h2, h3, h4⟩, hbits, halign, -, -⟩ := h
  rw [determinePrefix_eq_some hvalid, h1, h3,
    show r.mFrom.length * 8 - (r.mFrom.length * 8 - b.bits) = b.bits by omega]
  exact ⟨by omega, halign, h4⟩

/-- The subnet at the end of `toSubnets`. -/
theorem exists_lists_map {addr : Bytes} {bits : ℤ} {c : Block} (h : Lists n list blocks)
    (hsub : ∃ subnet, initializeFromCIDR addr bits = some subnet ∧ subnet.IsBlock n c) :
    ∃ l, (initializeFromCIDR addr bits).map (fun subnet => list ++ [subnet]) = some l ∧
      Lists n l (blocks ++ [c]) := by
  obtain ⟨subnet, hsub, hblock⟩ := hsub
  exact ⟨list ++ [subnet], by rw [hsub]; rfl, h.add hblock (List.Perm.refl _)⟩

/-- Without a prefix the subnets are the blocks of the climb. -/
theorem lists_subnetList (hr : r.Valid) (hnone : r.determinePrefix = none) :
    ∃ J l, Splits (value r.mFrom) (value r.mTo) J ∧ r.subnetList = some l ∧
      Lists r.mFrom.length l (intervalBlocks (value r.mFrom) (value r.mTo) J) := by
  have hlt : r.commonPrefix < r.mFrom.length * 8 := by
    refine lt_of_le_of_ne r.commonPrefix_le fun heq => ?_
    have : r.determinePrefix = some r.commonPrefix :=
      (determinePrefix_iff r _).mpr ⟨rfl, fun k h1 h2 => absurd h2 (by omega)⟩
    rw [hnone] at this
    cases this
  have hsplits := hr.splits hlt
  obtain ⟨J, hJ⟩ : ∃ J, r.mFrom.length * 8 - 1 - r.commonPrefix = J := ⟨_, rfl⟩
  rw [hJ] at hsplits
  obtain ⟨s, hs, -, hlower, hupper, hfrom, hto, hlist⟩ := SubnetLoop.climbs_rounds hr J (by omega)
  rw [subnetList, hnone, Option.isSome_none, if_neg (by decide),
    show r.mFrom.length * 8 - (r.commonPrefix + 1) = J by omega, hs, Option.bind_some]
  have hwhole := SubnetLoop.initializeFromCIDR_block (j := J + 1) hr hlower.length (by omega)
    hlower.value (hsplits.halves.1 ▸ dvd_clearLow _ _)
  have hleft := SubnetLoop.initializeFromCIDR_block (j := J) hr hlower.length (by omega)
    hlower.value (dvd_clearLow _ _)
  have hright := SubnetLoop.initializeFromCIDR_block (j := J) hr hupper.length (by omega)
    hupper.value (dvd_clearLow _ _)
  rw [show ((r.mFrom.length * 8 - (J + 1) : ℕ) : ℤ) = r.commonPrefix by omega] at hwhole
  rw [show ((r.mFrom.length * 8 - J : ℕ) : ℤ) = r.commonPrefix + 1 by omega] at hleft hright
  suffices h : ∃ l, s.finish r.commonPrefix = some l ∧
      Lists r.mFrom.length l (intervalBlocks (value r.mFrom) (value r.mTo) J) by
    obtain ⟨l, hl, hlists⟩ := h
    exact ⟨J, l, hsplits, hl, hlists⟩
  unfold intervalBlocks SubnetLoop.finish
  rw [hfrom, hto]
  generalize leftBlocks (value r.mFrom) J = lefts at hlist ⊢
  generalize rightBlocks (value r.mTo) J = rights at hlist ⊢
  obtain ⟨left, lefts⟩ := lefts
  obtain ⟨right, rights⟩ := rights
  cases left <;> cases right
  · exact exists_lists_map hlist hleft
  · exact exists_lists_map hlist hwhole
  · exact ⟨s.list, rfl, by simpa using hlist⟩
  · exact exists_lists_map hlist hright

/-- **The subnets of a range** are proper, as large as they can be, and cover it. -/
theorem toSubnets_spec (hr : r.Valid) :
    ∃ l, r.toSubnets = some l ∧ (∀ subnet ∈ l, ∃ b, Subnet r subnet b) ∧
      ∀ a, (∃ subnet ∈ l, a ∈ subnet.addresses) ↔ a ∈ r.addresses := by
  cases hp : r.determinePrefix with
  | some p =>
    obtain ⟨h1, h2, h3⟩ := (determinePrefix_eq_some hr).mp hp
    have hself : r.toSubnets = some [r] := by
      rw [toSubnets, subnetList, hp, Option.isSome_some, if_pos rfl, Option.map_some,
        List.mergeSort_singleton]
    refine ⟨[r], hself, fun subnet hsub => ?_, fun a => by simp⟩
    obtain rfl := List.mem_singleton.mp hsub
    exact ⟨⟨value subnet.mFrom, subnet.mFrom.length * 8 - p⟩, ⟨rfl, hr.length.symm, rfl, h3⟩,
      Nat.sub_le _ _, h2, fun x hx => ⟨hx.1, by have := hx.2; dsimp only at this; omega⟩,
      exists_parent_mem_of_whole h3⟩
  | none =>
    obtain ⟨J, l, hsplits, hl, hlists⟩ := lists_subnetList hr hp
    have hmem := mem_intervalBlocks hsplits
    refine ⟨_, by rw [toSubnets, hl, Option.map_some], fun subnet hsub => ?_, fun a => ?_⟩
    · obtain ⟨b, hb, hblock⟩ := hlists.sound subnet (List.mem_mergeSort.mp hsub)
      obtain ⟨haligned, hmax⟩ := maximal_intervalBlocks hsplits hb
      have hinside : ∀ x, b.Mem x → value r.mFrom ≤ x ∧ x ≤ value r.mTo :=
        fun x hx => (hmem x).mp ⟨b, hb, hx⟩
      refine ⟨b, hblock, ?_, haligned, hinside, hmax⟩
      have hpos := Nat.two_pow_pos b.bits
      have hin := (hinside (b.base + 2 ^ b.bits - 1) ⟨by omega, by omega⟩).2
      have hlt := hr.value_lt.2
      exact (Nat.pow_le_pow_iff_right (show 1 < 2 by decide)).mp (by omega)
    · constructor
      · rintro ⟨subnet, hsub, ha⟩
        obtain ⟨b, hb, hblock⟩ := hlists.sound subnet (List.mem_mergeSort.mp hsub)
        obtain ⟨hlen, hx⟩ := hblock.mem_addresses.mp ha
        exact ⟨hlen, (hmem _).mp ⟨b, hb, hx⟩⟩
      · rintro ⟨hlen, hx⟩
        obtain ⟨b, hb, hx⟩ := (hmem _).mpr hx
        obtain ⟨subnet, hsub, hblock⟩ := hlists.complete b hb
        exact ⟨subnet, List.mem_mergeSort.mpr hsub, hblock.mem_addresses.mpr ⟨hlen, hx⟩⟩

end IPRange

end VpnCore.Ranges
