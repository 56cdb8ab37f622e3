import VpnCore.Lib.Ipv6
import VpnCore.Route.Texts

/-!
# VpnCore.Route.Ipv6Address — what `getIPv6Address` denotes

The loop of `getIPv6Address` ends where the rest of the address is zero, so that the zero groups at the
front are missing from the text.  Without a `::` there are then fewer than eight groups; with
one, the groups that are written stand at the front, where the missing ones should be.
-/

namespace VpnCore.Route

open VpnCore.Lib VpnCore.Config

variable {a : ℕ}

theorem groupSize_pow_seven : groupSize ^ 7 = 2 ^ 112 := by decide

theorem length_digits_groupSize (ha : a < 2 ^ 128) :
    (Nat.digits groupSize a).length = 8 ↔ 2 ^ 112 ≤ a := by
  have hle : (Nat.digits groupSize a).length ≤ 8 :=
    (Nat.digits_length_le_iff (by decide) a).mpr (ha.trans_eq (by decide))
  have hlt := Nat.lt_digits_length_iff (b := groupSize) (by decide) (k := 7) a
  rw [groupSize_pow_seven] at hlt
  omega

/-- Zero groups at the end are not written. -/
theorem length_writtenGroups_lt (hne : a ≠ 0) (hd : groupSize ∣ a) :
    (writtenGroups a).length < (Nat.digits groupSize a).length := by
  rw [writtenGroups_of_dvd hd, digits_groupSize hne, List.length_cons]
  exact Nat.lt_succ_of_le (List.dropWhile_suffix _).length_le

theorem isGroup_of_mem_writtenGroups {t : Text}
    (h : t ∈ (writtenGroups a).reverse.map (Nat.toDigits 16)) : Ipv6.IsGroup t := by
  obtain ⟨g, hg, rfl⟩ := List.mem_map.mp h
  have hmem : g ∈ Nat.digits groupSize a :=
    (List.dropWhile_suffix _).subset (List.mem_reverse.mp hg)
  exact Ipv6.isGroup_toDigits (Nat.digits_lt_base (by decide) hmem)

/-- An address with a first group that is not zero is written as it should be. -/
theorem denotes_groupTexts (ha : a < 2 ^ 128) (h : 2 ^ 112 ≤ a) :
    Ipv6.Denotes ([':'].intercalate (groupTexts a)) a := by
  have hlen := (length_digits_groupSize ha).mpr h
  have hne : a ≠ 0 := fun h0 => absurd h (by rw [h0]; decide)
  obtain ⟨k, hk, hk'⟩ := exists_pow_mul a
  have hnumber := Ipv6.groupsNumber_toDigits (writtenGroups a)
  have hcount : ((writtenGroups a).reverse.map (Nat.toDigits 16)).length =
      (writtenGroups a).length := by rw [List.length_map, List.length_reverse]
  rw [groupTexts, if_neg hne]
  by_cases hd : groupSize ∣ a
  · rw [if_pos hd]
    have hlt := length_writtenGroups_lt hne hd
    have hden := @Ipv6.Denotes.compressed ((writtenGroups a).reverse.map (Nat.toDigits 16)) []
      (by rw [hcount, List.length_nil]; omega)
      (fun t => isGroup_of_mem_writtenGroups) (by simp)
    have hwritten : (writtenGroups a).reverse.map (Nat.toDigits 16) ≠ [] := by
      simpa [writtenGroups_eq_nil] using hne
    have hvalue : Nat.ofDigits 65536 (writtenGroups a) * 65536 ^ (8 - (writtenGroups a).length) = a := by
      rw [show 8 - (writtenGroups a).length = k by omega]
      exact hk.symm
    rw [Ipv6.intercalate_compressed, Ipv6.orEmpty, if_neg hwritten, hnumber, hcount, hvalue] at hden
    exact hden
  · rw [if_neg hd, List.append_nil]
    have hden := @Ipv6.Denotes.groups ((writtenGroups a).reverse.map (Nat.toDigits 16))
      (by rw [hcount, writtenGroups_of_not_dvd hd, hlen]) fun t => isGroup_of_mem_writtenGroups
    have hvalue : Nat.ofDigits 65536 (writtenGroups a) = a := by
      rw [writtenGroups_of_not_dvd hd]
      exact Nat.ofDigits_digits _ a
    rwa [hnumber, hvalue] at hden

/-- What comes before the first empty part of two lists. -/
theorem eq_of_append_nil_cons {xs ys as bs : List Text} (hxs : ∀ x ∈ xs, x ≠ [])
    (hys : ∀ y ∈ ys, y ≠ []) (h : xs ++ [] :: as = ys ++ [] :: bs) : xs = ys ∧ as = bs := by
  obtain ⟨h1, -, h2⟩ := (append_cons_inj (fun hmem => hxs _ hmem rfl)
    (fun hmem => hys _ hmem rfl)).mp h
  exact ⟨h1, h2⟩

/-- What the text denotes: the address, or the one with the written groups at the front. -/
theorem denotes_groupTexts_cases {b : ℕ} (hne : a ≠ 0)
    (h : Ipv6.Denotes ([':'].intercalate (groupTexts a)) b) :
    (Nat.digits groupSize a).length = 8 ∧ b = a ∨ groupSize ∣ a ∧
      b = Nat.ofDigits groupSize (writtenGroups a) * groupSize ^ (8 - (writtenGroups a).length) := by
  have hgroups := fun t => @isGroup_of_mem_writtenGroups a t
  have hcount : ((writtenGroups a).reverse.map (Nat.toDigits 16)).length =
      (writtenGroups a).length := by rw [List.length_map, List.length_reverse]
  rcases h.parts (groupTexts_ne_nil a) colon_not_mem_groupTexts with
    ⟨hlen, hall, hvalue⟩ | ⟨hs, ls, heq, hhs, hls, hvalue⟩
  · -- eight groups, none of them empty
    have hd : ¬ groupSize ∣ a := by
      intro hd
      exact (hall [] (List.mem_of_getLast? ((getLast?_groupTexts a).mpr hd))).ne_nil rfl
    rw [groupTexts, if_neg hne, if_neg hd, List.append_nil] at hlen hvalue
    rw [hcount, writtenGroups_of_not_dvd hd] at hlen
    rw [Ipv6.groupsNumber_toDigits, writtenGroups_of_not_dvd hd] at hvalue
    exact .inl ⟨hlen, hvalue.trans (Nat.ofDigits_digits _ a)⟩
  · -- the groups are those before `::`, and none comes after it
    have hempty : [] ∈ groupTexts a := by rw [heq]; simp
    have hd : groupSize ∣ a := by
      by_contra hd
      rw [groupTexts, if_neg hne, if_neg hd, List.append_nil] at hempty
      exact (hgroups [] hempty).ne_nil rfl
    have hhs0 : hs ≠ [] := by
      rintro rfl
      exact hne ((head?_groupTexts a).mp (by rw [heq]; rfl))
    rw [groupTexts, if_neg hne, if_pos hd, Ipv6.orEmpty, if_neg hhs0] at heq
    obtain ⟨hsame, hrest⟩ := eq_of_append_nil_cons (fun t ht => (hgroups t ht).ne_nil)
      (fun t ht => (hhs t ht).ne_nil) heq
    have hls0 : ls = [] := by
      by_contra hls0
      rw [Ipv6.orEmpty, if_neg hls0] at hrest
      exact (hls [] (by rw [← hrest]; simp)).ne_nil rfl
    rw [hls0, ← hsame, Ipv6.groupsNumber_toDigits, hcount] at hvalue
    exact .inr ⟨hd, hvalue⟩

/-- Only an address that is zero or has a first group that is not zero is written as it should be. -/
theorem le_of_denotes_groupTexts (ha : a < 2 ^ 128) (hne : a ≠ 0)
    (h : Ipv6.Denotes ([':'].intercalate (groupTexts a)) a) : 2 ^ 112 ≤ a := by
  rw [← length_digits_groupSize ha]
  rcases denotes_groupTexts_cases hne h with ⟨hlen, -⟩ | ⟨hd, hvalue⟩
  · exact hlen
  · obtain ⟨k, hk, hlen⟩ := exists_pow_mul a
    have hpos : 0 < Nat.ofDigits groupSize (writtenGroups a) :=
      Nat.pos_of_ne_zero fun h0 => hne (by rw [hk, h0, Nat.zero_mul])
    have hpow : groupSize ^ (8 - (writtenGroups a).length) = groupSize ^ k :=
      Nat.eq_of_mul_eq_mul_left hpos (hvalue.symm.trans hk)
    have hexp := Nat.pow_right_injective (show 2 ≤ groupSize by decide) hpow
    have hlt := length_writtenGroups_lt hne hd
    omega

/-- Zeros at the end of an address stay zeros in what its text denotes. -/
theorem dvd_of_denotes_groupTexts {b j : ℕ} (ha : a < 2 ^ 128) (hd : 2 ^ j ∣ a)
    (h : Ipv6.Denotes ([':'].intercalate (groupTexts a)) b) : 2 ^ j ∣ b := by
  by_cases hne : a = 0
  · subst hne
    rcases h.parts (groupTexts_ne_nil 0) colon_not_mem_groupTexts with
      ⟨hlen, -⟩ | ⟨hs, ls, heq, hhs, hls, hvalue⟩
    · cases hlen
    · have hnil : ∀ {gs : List Text}, (∀ g ∈ gs, Ipv6.IsGroup g) → (∀ g ∈ gs, g ∈ groupTexts 0) →
          gs = [] := by
        intro gs hgs hmem
        refine List.eq_nil_iff_forall_not_mem.mpr fun g hg => ?_
        have hempty : g = [] := by simpa [groupTexts] using hmem g hg
        exact (hgs g hg).ne_nil hempty
      have hmem : ∀ {gs : List Text} {g : Text}, g ∈ gs → g ∈ Ipv6.orEmpty gs := by
        intro gs g hg
        rwa [Ipv6.orEmpty, if_neg (List.ne_nil_of_mem hg)]
      rw [hvalue, hnil hhs fun g hg => by rw [heq]; simp [hmem hg],
        hnil hls fun g hg => by rw [heq]; simp [hmem hg],
        show Ipv6.groupsNumber [] = 0 from rfl, Nat.zero_mul]
      exact dvd_zero _
  · rcases denotes_groupTexts_cases hne h with ⟨-, rfl⟩ | ⟨hd', rfl⟩
    · exact hd
    · obtain ⟨k, hk, hlen⟩ := exists_pow_mul a
      have hle : (Nat.digits groupSize a).length ≤ 8 :=
        (Nat.digits_length_le_iff (by decide) a).mpr (ha.trans_eq (by decide))
      refine hd.trans ?_
      conv_lhs => rw [hk]
      exact Nat.mul_dvd_mul_left _ (pow_dvd_pow _ (by omega))

/-- **The text of an IPv6 network** is an address and denotes the address of the network iff that is zero or
has a first group that is not zero. -/
theorem getIPv6Address_denotes (n : IpAddress) (a : ℕ) (hn : n.netAddress = a) (ha : a < 2 ^ 128) :
    Ipv6.Denotes n.getIPv6Address a ↔ a = 0 ∨ 2 ^ 112 ≤ a := by
  rw [IpAddress.getIPv6Address_eq hn]
  constructor
  · intro h
    by_cases hne : a = 0
    · exact .inl hne
    · exact .inr (le_of_denotes_groupTexts ha hne h)
  · rintro (rfl | h)
    · exact @Ipv6.Denotes.compressed [] [] (by decide) (by simp) (by simp)
    · exact denotes_groupTexts ha h

theorem getIPv6Address_denotes_documentation :
    Ipv6.Denotes (IpAddress.getIPv6Address ⟨0x20010db8 * 2 ^ 96, 32, true, false⟩)
      (0x20010db8 * 2 ^ 96) :=
  (getIPv6Address_denotes ⟨0x20010db8 * 2 ^ 96, 32, true, false⟩ (0x20010db8 * 2 ^ 96) rfl
    (by decide)).mpr (.inr (by decide))

/-- `::1` comes out as `1`, which is no address, and `::ffff:0:0` as another one. -/
theorem getIPv6Address_wrong :
    (IpAddress.getIPv6Address ⟨1, 128, true, false⟩ = "1".toList ∧ ∀ n, ¬ Ipv6.Denotes "1".toList n) ∧
      IpAddress.getIPv6Address ⟨0xffff * 2 ^ 32, 96, true, false⟩ = "ffff::".toList ∧
        Ipv6.Denotes "ffff::".toList (0xffff * 2 ^ 112) ∧
          ¬ Ipv6.Denotes "ffff::".toList (0xffff * 2 ^ 32) := by
  have htext : IpAddress.getIPv6Address ⟨0xffff * 2 ^ 32, 96, true, false⟩ = "ffff::".toList := by
    decide +kernel
  refine ⟨⟨by decide +kernel, fun n h => ?_⟩, htext, ?_, fun h => ?_⟩
  · have hparts := @Ipv6.Denotes.parts [['1']] n (List.cons_ne_nil _ _) (by decide) h
    rcases hparts with ⟨hlen, -⟩ | ⟨hs, ls, heq, -⟩
    · cases hlen
    · have hlen := congrArg List.length heq
      have h1 := List.length_pos_of_ne_nil (Ipv6.orEmpty_ne_nil hs)
      simp only [List.length_append, List.length_cons, List.length_nil] at hlen
      omega
  · exact @Ipv6.Denotes.compressed ["ffff".toList] [] (by decide)
      (fun g hg => List.mem_singleton.mp hg ▸ ⟨by decide, by decide, List.all_eq_true.mp (by decide)⟩)
      (by simp)
  · rw [← htext, IpAddress.getIPv6Address_eq (a := 0xffff * 2 ^ 32) rfl] at h
    exact absurd (le_of_denotes_groupTexts (by decide) (by decide) h) (by decide)

end VpnCore.Route
