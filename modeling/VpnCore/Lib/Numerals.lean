import Mathlib.Data.List.Infix
import Mathlib.Tactic

/-!
# VpnCore.Lib.Numerals — positional texts of numbers

`Nat.toDigits b` writes a number in base `b` without leading zeros.  In bases up to 16 the text
determines the number, and a longer numeral that begins with a shorter one continues it digit by
digit.
-/

namespace VpnCore.Lib

variable {b m n : ℕ} {c : Char} {t : List Char}

theorem digitChar_inj {d e : ℕ} (hd : d < 16) (he : e < 16)
    (h : Nat.digitChar d = Nat.digitChar e) : d = e := by
  have hall : ∀ d e : Fin 16, Nat.digitChar d = Nat.digitChar e → d = e := by decide
  exact Fin.mk.inj (hall ⟨d, hd⟩ ⟨e, he⟩ h)

theorem exists_of_mem_toDigits (hb : 1 < b) :
    ∀ {n : ℕ}, c ∈ Nat.toDigits b n → ∃ d < b, c = Nat.digitChar d := by
  intro n
  induction n using Nat.strongRecOn with
  | ind n ih =>
    intro hc
    rw [Nat.toDigits_eq_if hb] at hc
    split_ifs at hc with hn
    · exact ⟨n, hn, List.mem_singleton.mp hc⟩
    · rcases List.mem_append.mp hc with hc | hc
      · exact ih (n / b) (Nat.div_lt_self (by omega) hb) hc
      · exact ⟨n % b, Nat.mod_lt n (by omega), List.mem_singleton.mp hc⟩

theorem getLast?_toDigits (hb : 1 < b) (n : ℕ) :
    (Nat.toDigits b n).getLast? = some (Nat.digitChar (n % b)) := by
  rw [Nat.toDigits_eq_if hb]
  split_ifs with hn
  · rw [List.getLast?_singleton, Nat.mod_eq_of_lt hn]
  · rw [List.getLast?_concat]

/-- **A numeral determines its number.** -/
theorem toDigits_inj (hb : 1 < b) (hb' : b ≤ 16) :
    ∀ {m n : ℕ}, Nat.toDigits b m = Nat.toDigits b n → m = n := by
  intro m
  induction m using Nat.strongRecOn with
  | ind m ih =>
    intro n h
    rw [Nat.toDigits_eq_if hb, Nat.toDigits_eq_if hb (n := n)] at h
    have hpos : ∀ k, 0 < (Nat.toDigits b k).length := fun k =>
      List.length_pos_iff.mpr Nat.toDigits_ne_nil
    split_ifs at h with hm hn hn
    · exact digitChar_inj (by omega) (by omega) (List.singleton_inj.mp h)
    · have hlen := congrArg List.length h
      have := hpos (n / b)
      simp only [List.length_append, List.length_singleton] at hlen
      omega
    · have hlen := congrArg List.length h
      have := hpos (m / b)
      simp only [List.length_append, List.length_singleton] at hlen
      omega
    · obtain ⟨hdiv, hmod⟩ := List.append_inj' h rfl
      have hquot := ih (m / b) (Nat.div_lt_self (by omega) hb) hdiv
      have hrem := digitChar_inj ((Nat.mod_lt m (by omega)).trans_le hb')
        ((Nat.mod_lt n (by omega)).trans_le hb') (List.singleton_inj.mp hmod)
      rw [← Nat.div_add_mod m b, ← Nat.div_add_mod n b, hquot, hrem]

/-- Of two numerals of at most two digits the longer one has one digit more. -/
theorem toDigits_eq_append (hb : 1 < b) (hb' : b ≤ 16) (hm : m < b * b)
    (h : Nat.toDigits b m = Nat.toDigits b n ++ t) :
    t = [] ∧ m = n ∨ ∃ d < b, 0 < n ∧ t = [Nat.digitChar d] ∧ m = b * n + d := by
  by_cases ht : t = []
  · subst ht
    rw [List.append_nil] at h
    exact .inl ⟨rfl, toDigits_inj hb hb' h⟩
  · right
    have hn := List.length_pos_iff.mpr (Nat.toDigits_ne_nil (b := b) (n := n))
    have ht' := List.length_pos_iff.mpr ht
    have hlen := congrArg List.length h
    rw [List.length_append] at hlen
    have hge : b ≤ m := by
      by_contra hlt
      rw [Nat.toDigits_of_lt_base (by omega), List.length_singleton] at hlen
      omega
    have hquot : m / b < b := Nat.div_lt_of_lt_mul hm
    have htwo : Nat.toDigits b m = [Nat.digitChar (m / b)] ++ [Nat.digitChar (m % b)] := by
      rw [Nat.toDigits_of_base_le hb hge, Nat.toDigits_of_lt_base hquot]
    rw [htwo, List.length_append] at hlen
    simp only [List.length_singleton] at hlen
    rw [htwo] at h
    obtain ⟨hhead, htail⟩ := List.append_inj h (by rw [List.length_singleton]; omega)
    have hnb := Nat.toDigits_of_lt_base hquot
    rw [hhead] at hnb
    have hnm : n = m / b := toDigits_inj hb hb' hnb.symm
    refine ⟨m % b, Nat.mod_lt m (by omega), ?_, htail.symm, ?_⟩
    · rw [hnm]
      exact Nat.div_pos hge (by omega)
    · rw [hnm, Nat.div_add_mod]

end VpnCore.Lib
