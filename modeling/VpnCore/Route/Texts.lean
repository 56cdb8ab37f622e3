import Mathlib.Data.Nat.Digits.Lemmas
import Mathlib.Data.Nat.Size
import VpnCore.Lib.Numerals
import VpnCore.Lib.Separated
import VpnCore.Route.NetworkSpace

/-!
# VpnCore.Route.Texts — what the text of a network says about it

The text of an IPv4 address determines the address.  The text of an IPv6 address does not: the loop
of `getIPv6Address` starts at the lowest group of 16 bits, passes over the groups that are zero and
writes `::` for them, however many there are, and the groups above the highest one that is not zero
are left out.  So two addresses that end with a zero group have the same text when one is the other
moved by whole groups.
-/

namespace VpnCore.Route

open VpnCore.Lib VpnCore.Config

/-! ## Decimal numbers -/

theorem decimal_natCast (n : ℕ) : decimal n = Nat.toDigits 10 n := by
  rw [decimal, if_neg (by omega), Int.natAbs_natCast]

theorem decimal_of_nonneg {n : ℤ} (h : 0 ≤ n) : decimal n = Nat.toDigits 10 n.toNat := by
  rw [← decimal_natCast, Int.toNat_of_nonneg h]

theorem decimal_inj {m n : ℤ} (h : decimal m = decimal n) : m = n := by
  have hsign : ∀ {k l : ℕ}, '-' :: Nat.toDigits 10 k ≠ Nat.toDigits 10 l := by
    intro k l heq
    obtain ⟨c, rest, hl, hc, -⟩ := toDigits_eq_cons l
    rw [hl] at heq
    exact hc (List.cons.inj heq).1.symm
  unfold decimal at h
  split_ifs at h with hm hn hn
  · have := toDigits_inj (by decide) (by decide) (List.cons.inj h).2
    omega
  · exact absurd h hsign
  · exact absurd h.symm hsign
  · have := toDigits_inj (by decide) (by decide) h
    omega

theorem isDigit_of_mem_decimal {n : ℤ} (h : 0 ≤ n) {c : Char} (hc : c ∈ decimal n) :
    isDigit c = true := by
  rw [decimal_of_nonneg h] at hc
  exact isDigit_of_mem_toDigits hc

theorem not_mem_decimal {n : ℤ} (h : 0 ≤ n) {c : Char} (hc : isDigit c = false) : c ∉ decimal n :=
  fun hm => by simp [isDigit_of_mem_decimal h hm] at hc

/-! ## IPv4 addresses -/

theorem dotted_eq (a b c d : ℤ) :
    dotted a b c d = ['.'].intercalate ([a, b, c, d].map decimal) := by
  simp [dotted, List.intercalate_cons_cons]

theorem dotted_inj {a b c d a' b' c' d' : ℤ} (h : ∀ x ∈ [a, b, c, d], 0 ≤ x)
    (h' : ∀ x ∈ [a', b', c', d'], 0 ≤ x) (heq : dotted a b c d = dotted a' b' c' d') :
    a = a' ∧ b = b' ∧ c = c' ∧ d = d' := by
  have hfree : ∀ {xs : List ℤ}, (∀ x ∈ xs, 0 ≤ x) → ∀ t ∈ xs.map decimal, '.' ∉ t := by
    intro xs hxs t ht
    obtain ⟨x, hx, rfl⟩ := List.mem_map.mp ht
    exact not_mem_decimal (hxs x hx) (by decide)
  have hsplit := congrArg (List.splitOn '.') heq
  rw [dotted_eq, dotted_eq, List.splitOn_intercalate '.' (hfree h) (by simp),
    List.splitOn_intercalate '.' (hfree h') (by simp)] at hsplit
  simp only [List.map_cons, List.map_nil, List.cons.injEq, and_true] at hsplit
  obtain ⟨ha, hb, hc, hd⟩ := hsplit
  exact ⟨decimal_inj ha, decimal_inj hb, decimal_inj hc, decimal_inj hd⟩

namespace IpAddress

/-- An address and a prefix length of IPv4. -/
structure Valid4 (n : IpAddress) : Prop where
  isV4 : n.isV4 = true
  address : 0 ≤ n.netAddress ∧ n.netAddress < 2 ^ 32
  mask : 0 ≤ n.networkMask ∧ n.networkMask ≤ 32

/-- An address and a prefix length of IPv6. -/
structure Valid6 (n : IpAddress) : Prop where
  isV4 : n.isV4 = false
  address : 0 ≤ n.netAddress ∧ n.netAddress < 2 ^ 128
  mask : 0 ≤ n.networkMask ∧ n.networkMask ≤ 128

variable {n m : IpAddress}

theorem getIPv4Address_eq (h : 0 ≤ n.netAddress ∧ n.netAddress < 2 ^ 32) :
    n.getIPv4Address = dotted (n.netAddress / 2 ^ 24) (n.netAddress / 2 ^ 16 % 256)
      (n.netAddress / 2 ^ 8 % 256) (n.netAddress % 256) := by
  obtain ⟨h0, h1⟩ := h
  have hwrap : wrap 64 n.netAddress = n.netAddress := by
    rw [wrap, Int.bmod_def]
    omega
  have htop : (n.netAddress / 2 ^ 24).tmod 256 = n.netAddress / 2 ^ 24 := by
    rw [Int.tmod_eq_emod_of_nonneg (by omega)]
    omega
  rw [IpAddress.getIPv4Address, hwrap, htop, Int.tmod_eq_emod_of_nonneg (by omega),
    Int.tmod_eq_emod_of_nonneg (by omega), Int.tmod_eq_emod_of_nonneg h0]

theorem Valid4.getIPv4Address (h : n.Valid4) :
    n.getIPv4Address = dotted (n.netAddress / 2 ^ 24) (n.netAddress / 2 ^ 16 % 256)
      (n.netAddress / 2 ^ 8 % 256) (n.netAddress % 256) := getIPv4Address_eq h.address

theorem Valid4.octets_nonneg (h : n.Valid4) :
    ∀ x ∈ [n.netAddress / 2 ^ 24, n.netAddress / 2 ^ 16 % 256, n.netAddress / 2 ^ 8 % 256,
      n.netAddress % 256], 0 ≤ x := by
  have := h.address.1
  intro x hx
  simp only [List.mem_cons, List.not_mem_nil, or_false] at hx
  rcases hx with rfl | rfl | rfl | rfl <;> omega

/-- The text of an IPv4 address determines it. -/
theorem Valid4.netAddress_eq (hn : n.Valid4) (hm : m.Valid4)
    (h : n.getIPv4Address = m.getIPv4Address) : n.netAddress = m.netAddress := by
  rw [hn.getIPv4Address, hm.getIPv4Address] at h
  obtain ⟨ha, hb, hc, hd⟩ := dotted_inj hn.octets_nonneg hm.octets_nonneg h
  have := hn.address
  have := hm.address
  omega

theorem Valid4.mem_getIPv4Address (h : n.Valid4) {c : Char} (hc : c ∈ n.getIPv4Address) :
    isDigit c = true ∨ c = '.' := by
  have hpos := h.octets_nonneg
  simp only [List.mem_cons, List.not_mem_nil, or_false, forall_eq_or_imp, forall_eq] at hpos
  obtain ⟨h1, h2, h3, h4⟩ := hpos
  rw [h.getIPv4Address] at hc
  simp only [dotted, List.mem_append, List.mem_cons] at hc
  rcases hc with ((hc | rfl | hc) | rfl | hc) | rfl | hc
  · exact .inl (isDigit_of_mem_decimal h1 hc)
  · exact .inr rfl
  · exact .inl (isDigit_of_mem_decimal h2 hc)
  · exact .inr rfl
  · exact .inl (isDigit_of_mem_decimal h3 hc)
  · exact .inr rfl
  · exact .inl (isDigit_of_mem_decimal h4 hc)

theorem Valid4.dot_mem (h : n.Valid4) : '.' ∈ n.getIPv4Address := by
  rw [h.getIPv4Address]
  simp [dotted]

end IpAddress

/-! ## IPv6 addresses -/

/-- The number of values of a group. -/
def groupSize : ℕ := 65536

/-- The groups of an address from the lowest one that is not zero. -/
def writtenGroups (a : ℕ) : List ℕ := (Nat.digits groupSize a).dropWhile (· == 0)

/-- The parts of the text between the colons. -/
def groupTexts (a : ℕ) : List Text :=
  if a = 0 then [[], [], []]
  else (writtenGroups a).reverse.map (Nat.toDigits 16) ++ if groupSize ∣ a then [[], []] else []

/-- The addresses end with a zero group and are the same up to the number of zero groups there. -/
def Shifted (a b : ℕ) : Prop :=
  a ≠ 0 ∧ groupSize ∣ a ∧ groupSize ∣ b ∧ ∃ k, a = b * groupSize ^ k ∨ b = a * groupSize ^ k

theorem digits_groupSize {a : ℕ} (h : a ≠ 0) :
    Nat.digits groupSize a = a % groupSize :: Nat.digits groupSize (a / groupSize) :=
  Nat.digits_def' (by decide) (Nat.pos_of_ne_zero h)

theorem writtenGroups_of_dvd {a : ℕ} (h : groupSize ∣ a) :
    writtenGroups a = writtenGroups (a / groupSize) := by
  by_cases ha : a = 0
  · subst ha
    rfl
  · rw [writtenGroups, digits_groupSize ha, List.dropWhile_cons_of_pos
      (by simp [Nat.mod_eq_zero_of_dvd h]), writtenGroups]

theorem writtenGroups_of_not_dvd {a : ℕ} (h : ¬ groupSize ∣ a) :
    writtenGroups a = Nat.digits groupSize a := by
  have ha : a ≠ 0 := fun h0 => h (h0 ▸ dvd_zero _)
  rw [writtenGroups, digits_groupSize ha, List.dropWhile_cons_of_neg]
  simpa [Nat.dvd_iff_mod_eq_zero] using h

theorem writtenGroups_eq_nil {a : ℕ} : writtenGroups a = [] ↔ a = 0 := by
  induction a using Nat.strongRecOn with
  | ind a ih =>
    by_cases ha : a = 0
    · subst ha
      exact iff_of_true rfl rfl
    · by_cases hd : groupSize ∣ a
      · have hlt : a / groupSize < a := Nat.div_lt_self (Nat.pos_of_ne_zero ha) (by decide)
        have hq : a / groupSize ≠ 0 := by
          rw [Ne, Nat.div_eq_zero_iff_lt (by decide)]
          exact not_lt.mpr (Nat.le_of_dvd (Nat.pos_of_ne_zero ha) hd)
        rw [writtenGroups_of_dvd hd, ih _ hlt]
        exact iff_of_false hq ha
      · rw [writtenGroups_of_not_dvd hd, Nat.digits_eq_nil_iff_eq_zero]

/-- The groups above, in front of what was written. -/
theorem foldl_groups (gs : List ℕ) :
    ∀ {ps : List Text}, ps ≠ [] →
      gs.foldl (fun t g => Nat.toDigits 16 g ++ ':' :: t) ([':'].intercalate ps) =
        [':'].intercalate (gs.reverse.map (Nat.toDigits 16) ++ ps) := by
  induction gs with
  | nil => intro ps _; rfl
  | cons g gs ih =>
    intro ps hps
    rw [List.foldl_cons, ← intercalate_cons hps, ih (List.cons_ne_nil _ _), List.reverse_cons,
      List.map_append, List.append_assoc, List.map_singleton, List.singleton_append]

namespace IpAddress

section

variable {fuel a : ℕ}

theorem hexadecimal_part (a : ℕ) :
    hexadecimal ((a : ℤ) % 0x10000) = Nat.toDigits 16 (a % groupSize) := by
  have : ((a : ℤ) % 0x10000).natAbs = a % groupSize := by unfold groupSize; omega
  rw [hexadecimal, this]

theorem shifted_part (a : ℕ) : (a : ℤ) / 2 ^ 16 = ((a / groupSize : ℕ) : ℤ) := by
  unfold groupSize
  omega

theorem div_lt_pow (h : a < groupSize ^ (fuel + 1)) : a / groupSize < groupSize ^ fuel :=
  Nat.div_lt_of_lt_mul (by rwa [pow_succ, Nat.mul_comm] at h)

/-- Once the text is set, every group is written. -/
theorem ipv6Parts_some (h : a < groupSize ^ fuel) (t : Text) :
    ipv6Parts fuel a (some t) false =
      some ((Nat.digits groupSize a).foldl (fun t g => Nat.toDigits 16 g ++ ':' :: t) t) := by
  induction fuel generalizing a t with
  | zero =>
    obtain rfl : a = 0 := by simpa using h
    rfl
  | succ fuel ih =>
    by_cases ha : a = 0
    · subst ha
      simp [ipv6Parts]
    · have hpos : ¬ ((a : ℤ) ≤ 0) := by omega
      rw [ipv6Parts, if_neg hpos, shifted_part, digits_groupSize ha, List.foldl_cons,
        ← ih (div_lt_pow h)]
      simp only [Option.isSome_some, Bool.true_or, if_true, Option.isNone_some, Bool.false_and,
        Bool.false_eq_true, if_false, Option.getD_some, hexadecimal_part]

/-- Before, the groups that are zero are passed over. -/
theorem ipv6Parts_none (h : a < groupSize ^ fuel) (ha : a ≠ 0) :
    ipv6Parts fuel a none false =
      some ([':'].intercalate ((writtenGroups a).reverse.map (Nat.toDigits 16) ++ [[], []])) := by
  induction fuel generalizing a with
  | zero => exact absurd (by simpa using h) ha
  | succ fuel ih =>
    have hpos : ¬ ((a : ℤ) ≤ 0) := by omega
    rw [ipv6Parts, if_neg hpos, shifted_part]
    by_cases hd : groupSize ∣ a
    · have hpart : (a : ℤ) % 0x10000 = 0 := by unfold groupSize at hd; omega
      have hq : a / groupSize ≠ 0 := by
        rw [Ne, Nat.div_eq_zero_iff_lt (by decide)]
        exact not_lt.mpr (Nat.le_of_dvd (Nat.pos_of_ne_zero ha) hd)
      rw [writtenGroups_of_dvd hd, ← ih (div_lt_pow h) hq]
      simp [hpart]
    · have hpart : (a : ℤ) % 0x10000 ≠ 0 := by unfold groupSize at hd; omega
      have htext : Nat.toDigits 16 (a % groupSize) ++ [':', ':'] =
          [':'].intercalate [Nat.toDigits 16 (a % groupSize), [], []] := by
        simp [List.intercalate_cons_cons]
      have hgroups : writtenGroups a = a % groupSize :: Nat.digits groupSize (a / groupSize) := by
        rw [writtenGroups_of_not_dvd hd, digits_groupSize ha]
      rw [hgroups, List.reverse_cons, List.map_append, List.append_assoc, List.map_singleton,
        List.singleton_append, ← foldl_groups _ (List.cons_ne_nil _ _), ← htext,
        ← ipv6Parts_some (div_lt_pow h)]
      simp [hpart, hexadecimal_part]

end

variable {n m : IpAddress}

theorem getIPv6Address_eq {a : ℕ} (h : n.netAddress = a) :
    n.getIPv6Address = [':'].intercalate (groupTexts a) := by
  rw [getIPv6Address, h, Int.natAbs_natCast]
  by_cases ha : a = 0
  · subst ha
    rfl
  · have hfuel : a / groupSize < groupSize ^ a.size :=
      calc a / groupSize ≤ a := Nat.div_le_self _ _
        _ < 2 ^ a.size := Nat.lt_size_self a
        _ ≤ groupSize ^ a.size := Nat.pow_le_pow_left (by decide) _
    have hpos : ¬ ((a : ℤ) ≤ 0) := by omega
    rw [ipv6Parts, if_neg hpos, shifted_part, groupTexts, if_neg ha]
    by_cases hd : groupSize ∣ a
    · have hpart : (a : ℤ) % 0x10000 = 0 := by unfold groupSize at hd; omega
      have hq : a / groupSize ≠ 0 := by
        rw [Ne, Nat.div_eq_zero_iff_lt (by decide)]
        exact not_lt.mpr (Nat.le_of_dvd (Nat.pos_of_ne_zero ha) hd)
      rw [writtenGroups_of_dvd hd, if_pos hd]
      simp [hpart, ipv6Parts_none hfuel hq, -Int.natCast_ediv]
    · have hpart : (a : ℤ) % 0x10000 ≠ 0 := by unfold groupSize at hd; omega
      have hgroups : writtenGroups a = a % groupSize :: Nat.digits groupSize (a / groupSize) := by
        rw [writtenGroups_of_not_dvd hd, digits_groupSize ha]
      rw [if_neg hd, List.append_nil, hgroups, List.reverse_cons, List.map_append, List.map_singleton,
        ← foldl_groups _ (List.cons_ne_nil _ _), List.intercalate_singleton]
      simp [hpart, hexadecimal_part, ipv6Parts_some hfuel, -Int.natCast_ediv]

end IpAddress

/-! ## Addresses with the same text -/

theorem mem_hex {g : ℕ} {c : Char} (h : c ∈ Nat.toDigits 16 g) : ∃ d < 16, c = Nat.digitChar d :=
  exists_of_mem_toDigits (by decide) h

theorem not_mem_hex {g : ℕ} {c : Char} (h : ∀ d : Fin 16, c ≠ Nat.digitChar d) :
    c ∉ Nat.toDigits 16 g := by
  intro hc
  obtain ⟨d, hd, rfl⟩ := mem_hex hc
  exact h ⟨d, hd⟩ rfl

theorem mem_groupTexts {a : ℕ} {t : Text} (h : t ∈ groupTexts a) :
    t = [] ∨ ∃ g, t = Nat.toDigits 16 g := by
  unfold groupTexts at h
  split_ifs at h
  · exact .inl (by simpa using h)
  · rcases List.mem_append.mp h with h | h
    · obtain ⟨g, -, rfl⟩ := List.mem_map.mp h
      exact .inr ⟨g, rfl⟩
    · exact .inl (by simpa using h)
  · rw [List.append_nil] at h
    obtain ⟨g, -, rfl⟩ := List.mem_map.mp h
    exact .inr ⟨g, rfl⟩

theorem colon_not_mem_groupTexts {a : ℕ} : ∀ t ∈ groupTexts a, ':' ∉ t := by
  intro t ht
  obtain rfl | ⟨g, rfl⟩ := mem_groupTexts ht
  · simp
  · exact not_mem_hex (by decide)

theorem groupTexts_ne_nil (a : ℕ) : groupTexts a ≠ [] := by
  unfold groupTexts
  split_ifs with ha hd
  · simp
  · simp
  · simpa [writtenGroups_eq_nil] using ha

/-- An address is the number of its written groups, moved by the zero groups behind them. -/
theorem exists_pow_mul (a : ℕ) :
    ∃ k, a = Nat.ofDigits groupSize (writtenGroups a) * groupSize ^ k ∧
      (Nat.digits groupSize a).length = (writtenGroups a).length + k := by
  induction a using Nat.strongRecOn with
  | ind a ih =>
    by_cases hd : groupSize ∣ a
    · by_cases ha : a = 0
      · subst ha
        exact ⟨0, rfl, rfl⟩
      · obtain ⟨k, hk, hlen⟩ :=
          ih (a / groupSize) (Nat.div_lt_self (Nat.pos_of_ne_zero ha) (by decide))
        refine ⟨k + 1, ?_, ?_⟩
        · rw [writtenGroups_of_dvd hd, pow_succ, ← mul_assoc, ← hk, Nat.div_mul_cancel hd]
        · rw [writtenGroups_of_dvd hd, digits_groupSize ha, List.length_cons, hlen, Nat.add_assoc]
    · refine ⟨0, ?_, by rw [writtenGroups_of_not_dvd hd, Nat.add_zero]⟩
      rw [writtenGroups_of_not_dvd hd, Nat.ofDigits_digits, pow_zero, mul_one]

theorem writtenGroups_mul_pow (a k : ℕ) : writtenGroups (a * groupSize ^ k) = writtenGroups a := by
  induction k with
  | zero => rw [pow_zero, mul_one]
  | succ k ih =>
    have hd : groupSize ∣ a * groupSize ^ (k + 1) := Dvd.intro_left (a * groupSize ^ k) (by ring)
    have hq : a * groupSize ^ (k + 1) / groupSize = a * groupSize ^ k := by
      rw [pow_succ, ← mul_assoc, Nat.mul_div_cancel _ (by decide)]
    rw [writtenGroups_of_dvd hd, hq, ih]

/-- What the last part says: the address ends with a zero group. -/
theorem getLast?_groupTexts (a : ℕ) : (groupTexts a).getLast? = some [] ↔ groupSize ∣ a := by
  unfold groupTexts
  split_ifs with ha hd
  · simp [ha]
  · simp [hd]
  · refine iff_of_false ?_ hd
    rw [List.append_nil]
    intro h
    obtain ⟨g, -, hg⟩ := List.mem_map.mp (List.mem_of_getLast? h)
    exact Nat.toDigits_ne_nil hg

/-- What the first part says: the address is zero. -/
theorem head?_groupTexts (a : ℕ) : (groupTexts a).head? = some [] ↔ a = 0 := by
  unfold groupTexts
  by_cases ha : a = 0
  · simp [ha]
  · rw [if_neg ha]
    refine iff_of_false ?_ ha
    obtain ⟨g, gs, hg⟩ := List.exists_cons_of_ne_nil
      (l := (writtenGroups a).reverse) (by simpa [writtenGroups_eq_nil] using ha)
    rw [hg]
    simp

theorem groupTexts_eq_iff {a b : ℕ} : groupTexts a = groupTexts b ↔ a = b ∨ Shifted a b := by
  constructor
  · intro h
    have hzero : a = 0 ↔ b = 0 := by rw [← head?_groupTexts, h, head?_groupTexts]
    have hdvd : groupSize ∣ a ↔ groupSize ∣ b := by
      rw [← getLast?_groupTexts, h, getLast?_groupTexts]
    by_cases ha : a = 0
    · exact .inl (ha.trans (hzero.mp ha).symm)
    have hwritten : writtenGroups a = writtenGroups b := by
      simp only [groupTexts, if_neg ha, if_neg (mt hzero.mpr ha), hdvd] at h
      have hmap := (List.append_inj' h rfl).1
      have hinj : Function.Injective (Nat.toDigits 16) := fun _ _ => toDigits_inj (by decide) le_rfl
      exact List.reverse_inj.mp (List.map_injective_iff.mpr hinj hmap)
    by_cases hd : groupSize ∣ a
    · right
      refine ⟨ha, hd, hdvd.mp hd, ?_⟩
      obtain ⟨j, hj, -⟩ := exists_pow_mul a
      obtain ⟨k, hk, -⟩ := exists_pow_mul b
      rw [← hwritten] at hk
      have hmove : ∀ {x y i l : ℕ}, x = Nat.ofDigits groupSize (writtenGroups a) * groupSize ^ i →
          y = Nat.ofDigits groupSize (writtenGroups a) * groupSize ^ l → i ≤ l →
          y = x * groupSize ^ (l - i) := by
        intro x y i l hx hy hil
        rw [hx, mul_assoc, ← pow_add, Nat.add_sub_cancel' hil]
        exact hy
      rcases le_total k j with hkj | hjk
      · exact ⟨j - k, .inl (hmove hk hj hkj)⟩
      · exact ⟨k - j, .inr (hmove hj hk hjk)⟩
    · left
      rw [writtenGroups_of_not_dvd hd, writtenGroups_of_not_dvd (mt hdvd.mpr hd)] at hwritten
      exact Nat.digits_inj_iff.mp hwritten
  · rintro (rfl | ⟨ha, hda, hdb, k, hk⟩)
    · rfl
    · have hb : b ≠ 0 := by
        rintro rfl
        rcases hk with hk | hk
        · exact ha (by simpa using hk)
        · exact mul_ne_zero ha (pow_ne_zero k (by decide)) hk.symm
      have hwritten : writtenGroups a = writtenGroups b := by
        rcases hk with hk | hk
        · rw [hk, writtenGroups_mul_pow]
        · rw [hk, writtenGroups_mul_pow]
      simp only [groupTexts, if_neg ha, if_neg hb, if_pos hda, if_pos hdb, hwritten]

namespace IpAddress

variable {n m : IpAddress}

theorem text_of_isV4 (h : n.isV4 = true) : n.text = n.getIPv4Address ++ '/' :: decimal n.networkMask := by
  rw [text, if_pos h]

theorem text_of_not_isV4 (h : n.isV4 = false) :
    n.text = n.getIPv6Address ++ '/' :: decimal n.networkMask := by
  rw [text, h, if_neg Bool.false_ne_true]

theorem Valid6.mem_getIPv6Address (h : n.Valid6) {c : Char} (hc : c ∈ n.getIPv6Address) :
    c = ':' ∨ ∃ d < 16, c = Nat.digitChar d := by
  obtain ⟨a, ha⟩ := Int.eq_ofNat_of_zero_le h.address.1
  rw [getIPv6Address_eq ha] at hc
  obtain rfl | ⟨t, ht, hct⟩ := mem_intercalate hc
  · exact .inl rfl
  · obtain rfl | ⟨g, rfl⟩ := mem_groupTexts ht
    · cases hct
    · exact .inr (mem_hex hct)

theorem Valid6.not_mem_getIPv6Address (h : n.Valid6) {c : Char} (hcolon : c ≠ ':')
    (hc : ∀ d : Fin 16, c ≠ Nat.digitChar d) : c ∉ n.getIPv6Address := by
  intro hm
  obtain hm | ⟨d, hd, hm⟩ := h.mem_getIPv6Address hm
  · exact hcolon hm
  · exact hc ⟨d, hd⟩ hm

theorem Valid4.not_mem_getIPv4Address (h : n.Valid4) {c : Char} (hdot : c ≠ '.')
    (hc : isDigit c = false) : c ∉ n.getIPv4Address := by
  intro hm
  rcases h.mem_getIPv4Address hm with hm | hm
  · rw [hc] at hm
    exact Bool.false_ne_true hm
  · exact hdot hm

/-- The texts of the networks are the same. -/
def LooksLike (n m : IpAddress) : Prop :=
  n.networkMask = m.networkMask ∧
    (n.netAddress = m.netAddress ∨ Shifted n.netAddress.toNat m.netAddress.toNat)

theorem Valid6.getIPv6Address_eq_iff (hn : n.Valid6) (hm : m.Valid6) :
    n.getIPv6Address = m.getIPv6Address ↔
      n.netAddress = m.netAddress ∨ Shifted n.netAddress.toNat m.netAddress.toNat := by
  obtain ⟨a, ha⟩ := Int.eq_ofNat_of_zero_le hn.address.1
  obtain ⟨b, hb⟩ := Int.eq_ofNat_of_zero_le hm.address.1
  rw [getIPv6Address_eq ha, getIPv6Address_eq hb, ha, hb, Int.toNat_natCast, Int.toNat_natCast,
    Int.natCast_inj, ← groupTexts_eq_iff]
  refine ⟨fun h => ?_, fun h => by rw [h]⟩
  have hsplit := congrArg (List.splitOn ':') h
  rwa [List.splitOn_intercalate ':' colon_not_mem_groupTexts (groupTexts_ne_nil a),
    List.splitOn_intercalate ':' colon_not_mem_groupTexts (groupTexts_ne_nil b)] at hsplit

theorem Valid6.text_eq_iff (hn : n.Valid6) (hm : m.Valid6) : n.text = m.text ↔ n.LooksLike m := by
  have hslash : ∀ {k : IpAddress}, k.Valid6 → '/' ∉ k.getIPv6Address := fun hk =>
    hk.not_mem_getIPv6Address (by decide) (by decide)
  rw [text_of_not_isV4 hn.isV4, text_of_not_isV4 hm.isV4,
    append_cons_inj (hslash hn) (hslash hm), hn.getIPv6Address_eq_iff hm, LooksLike]
  exact ⟨fun ⟨ha, _, hmask⟩ => ⟨decimal_inj hmask, ha⟩, fun ⟨hmask, ha⟩ => ⟨ha, rfl, by rw [hmask]⟩⟩

/-- Two IPv4 networks of the same kind with the same text are the same. -/
theorem Valid4.text_inj (hn : n.Valid4) (hm : m.Valid4) (hi : n.included = m.included)
    (h : n.text = m.text) : n = m := by
  have hslash : ∀ {k : IpAddress}, k.Valid4 → '/' ∉ k.getIPv4Address := fun hk =>
    hk.not_mem_getIPv4Address (by decide) (by decide)
  rw [text_of_isV4 hn.isV4, text_of_isV4 hm.isV4,
    append_cons_inj (hslash hn) (hslash hm)] at h
  obtain ⟨haddress, -, hmask⟩ := h
  have haddress := hn.netAddress_eq hm haddress
  have hmask := decimal_inj hmask
  have hv4 := hn.isV4.trans hm.isV4.symm
  cases n
  cases m
  simp_all

end IpAddress

end VpnCore.Route
