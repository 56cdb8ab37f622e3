import Mathlib.Data.Nat.Digits.Lemmas
import VpnCore.Lib.Numerals
import VpnCore.Lib.Separated

/-!
# VpnCore.Lib.Ipv6 — IPv6 addresses as text

`Denotes t n`: the text `t` is an IPv6 address (RFC 4291, 2.2) and names the number `n`.  There are eight groups of
up to four hexadecimal digits between colons, or fewer with one `::` for the missing ones.
-/

namespace VpnCore.Lib.Ipv6

/-! ## Groups -/

def hexDigit (c : Char) : Option ℕ :=
  if '0' ≤ c ∧ c ≤ '9' then some (c.toNat - '0'.toNat)
  else if 'a' ≤ c ∧ c ≤ 'f' then some (c.toNat - 'a'.toNat + 10)
  else if 'A' ≤ c ∧ c ≤ 'F' then some (c.toNat - 'A'.toNat + 10)
  else none

/-- The number of the digits, highest first. -/
def hexNumber (t : List Char) : ℕ := t.foldl (fun v c => 16 * v + (hexDigit c).getD 0) 0

/-- One to four hexadecimal digits. -/
structure IsGroup (t : List Char) : Prop where
  ne_nil : t ≠ []
  length_le : t.length ≤ 4
  digits : ∀ c ∈ t, (hexDigit c).isSome = true

/-- The number of the groups, highest first. -/
def groupsNumber (gs : List (List Char)) : ℕ := gs.foldl (fun v g => 65536 * v + hexNumber g) 0

/-- The text is an address and names the number. -/
inductive Denotes : List Char → ℕ → Prop
  | groups {gs : List (List Char)} : gs.length = 8 → (∀ g ∈ gs, IsGroup g) →
      Denotes ([':'].intercalate gs) (groupsNumber gs)
  /-- `::` stands for one zero group or more -/
  | compressed {hs ls : List (List Char)} : hs.length + ls.length < 8 → (∀ g ∈ hs, IsGroup g) →
      (∀ g ∈ ls, IsGroup g) →
      Denotes ([':'].intercalate hs ++ "::".toList ++ [':'].intercalate ls)
        (groupsNumber hs * 65536 ^ (8 - hs.length) + groupsNumber ls)

/-! ## Groups of digits -/

theorem hexDigit_digitChar {d : ℕ} (h : d < 16) : hexDigit (Nat.digitChar d) = some d := by
  have hall : ∀ d : Fin 16, hexDigit (Nat.digitChar d) = some d.val := by decide
  exact hall ⟨d, h⟩

theorem hexNumber_append_digit (t : List Char) {d : ℕ} (h : d < 16) :
    hexNumber (t ++ [Nat.digitChar d]) = 16 * hexNumber t + d := by
  rw [hexNumber, List.foldl_append, List.foldl_cons, List.foldl_nil, hexDigit_digitChar h]
  rfl

theorem hexNumber_toDigits (n : ℕ) : hexNumber (Nat.toDigits 16 n) = n := by
  induction n using Nat.strongRecOn with
  | ind n ih =>
    by_cases hn : n < 16
    · rw [Nat.toDigits_of_lt_base hn]
      exact (hexNumber_append_digit [] hn).trans (Nat.zero_add n)
    · rw [Nat.toDigits_of_base_le (by decide) (by omega),
        hexNumber_append_digit _ (Nat.mod_lt n (by decide)), ih _ (by omega)]
      omega

theorem isGroup_toDigits {n : ℕ} (h : n < 65536) : IsGroup (Nat.toDigits 16 n) where
  ne_nil := Nat.toDigits_ne_nil
  length_le := Nat.toDigits_length 16 n 4 (by decide) h
  digits c hc := by
    obtain ⟨d, hd, rfl⟩ := exists_of_mem_toDigits (by decide) hc
    rw [hexDigit_digitChar hd]
    rfl

theorem groupsNumber_toDigits (ds : List ℕ) :
    groupsNumber (ds.reverse.map (Nat.toDigits 16)) = Nat.ofDigits 65536 ds := by
  induction ds with
  | nil => rfl
  | cons d ds ih =>
    rw [List.reverse_cons, List.map_append, groupsNumber, List.foldl_append, ← groupsNumber, ih,
      List.map_singleton, List.foldl_cons, List.foldl_nil, hexNumber_toDigits, Nat.ofDigits_cons]
    exact Nat.add_comm _ _

theorem IsGroup.colon_notMem {t : List Char} (h : IsGroup t) : ':' ∉ t := fun hmem =>
  absurd (h.digits ':' hmem) (by decide)

/-- The characters of an address. -/
theorem Denotes.dot_notMem {t : List Char} {n : ℕ} (h : Denotes t n) : '.' ∉ t := by
  have hgroups : ∀ {gs : List (List Char)}, (∀ g ∈ gs, IsGroup g) → '.' ∉ [':'].intercalate gs := by
    intro gs hgs hmem
    rcases mem_intercalate hmem with hmem | ⟨g, hg, hmem⟩
    · exact absurd hmem (by decide)
    · exact absurd ((hgs g hg).digits '.' hmem) (by decide)
  cases h with
  | groups _ hgs => exact hgroups hgs
  | compressed _ hhs hls =>
    rw [List.mem_append, List.mem_append, not_or, not_or]
    exact ⟨⟨hgroups hhs, by decide⟩, hgroups hls⟩

/-! ## The parts between the colons -/

/-- Where there are no groups at one side of `::`, the part is empty. -/
def orEmpty (gs : List (List Char)) : List (List Char) := if gs = [] then [[]] else gs

theorem orEmpty_ne_nil (gs : List (List Char)) : orEmpty gs ≠ [] := by
  unfold orEmpty
  split_ifs with h
  · simp
  · exact h

theorem intercalate_orEmpty (gs : List (List Char)) :
    [':'].intercalate (orEmpty gs) = [':'].intercalate gs := by
  unfold orEmpty
  split_ifs with h
  · rw [h]
    rfl
  · rfl

theorem intercalate_compressed (hs ls : List (List Char)) :
    [':'].intercalate hs ++ "::".toList ++ [':'].intercalate ls =
      [':'].intercalate (orEmpty hs ++ [] :: orEmpty ls) := by
  have hjoin : ∀ {as : List (List Char)} (bs : List (List Char)), as ≠ [] → bs ≠ [] →
      [':'].intercalate (as ++ bs) = [':'].intercalate as ++ ':' :: [':'].intercalate bs := by
    intro as bs has hbs
    induction as with
    | nil => exact absurd rfl has
    | cons a as ih =>
      by_cases hnil : as = []
      · subst hnil
        rw [List.singleton_append, intercalate_cons hbs, List.intercalate_singleton]
      · rw [List.cons_append, intercalate_cons (List.append_ne_nil_of_left_ne_nil hnil bs), ih hnil,
          intercalate_cons hnil, List.append_assoc, List.cons_append]
  rw [hjoin _ (orEmpty_ne_nil hs) (List.cons_ne_nil _ _), intercalate_cons (orEmpty_ne_nil ls),
    intercalate_orEmpty, intercalate_orEmpty, List.append_assoc]
  rfl

/-- The two forms, told from the parts between the colons. -/
theorem Denotes.parts {ps : List (List Char)} {n : ℕ} (hps : ps ≠ []) (hcolon : ∀ p ∈ ps, ':' ∉ p)
    (h : Denotes ([':'].intercalate ps) n) :
    (ps.length = 8 ∧ (∀ p ∈ ps, IsGroup p) ∧ n = groupsNumber ps) ∨
      ∃ hs ls, ps = orEmpty hs ++ [] :: orEmpty ls ∧ (∀ g ∈ hs, IsGroup g) ∧
        (∀ g ∈ ls, IsGroup g) ∧ n = groupsNumber hs * 65536 ^ (8 - hs.length) + groupsNumber ls := by
  have hinj : ∀ {qs : List (List Char)}, qs ≠ [] → (∀ q ∈ qs, ':' ∉ q) →
      [':'].intercalate ps = [':'].intercalate qs → ps = qs := by
    intro qs hqs hcolon' heq
    have hsplit := congrArg (List.splitOn ':') heq
    rwa [List.splitOn_intercalate ':' hcolon hps, List.splitOn_intercalate ':' hcolon' hqs] at hsplit
  have hcolonOr : ∀ {gs : List (List Char)}, (∀ g ∈ gs, IsGroup g) → ∀ g ∈ orEmpty gs, ':' ∉ g := by
    intro gs hgs g hg
    unfold orEmpty at hg
    split_ifs at hg
    · rw [List.mem_singleton.mp hg]
      simp
    · exact (hgs g hg).colon_notMem
  generalize ht : [':'].intercalate ps = t at h
  cases h with
  | @groups gs hlen hgs =>
    left
    rw [hinj (by rintro rfl; cases hlen) (fun g hg => (hgs g hg).colon_notMem) ht]
    exact ⟨hlen, hgs, rfl⟩
  | @compressed hs ls _ hhs hls =>
    right
    refine ⟨hs, ls, hinj (by simp) (fun g hg => ?_) (ht.trans (intercalate_compressed hs ls)), hhs,
      hls, rfl⟩
    rcases List.mem_append.mp hg with hg | hg
    · exact hcolonOr hhs g hg
    · rcases List.mem_cons.mp hg with rfl | hg
      · simp
      · exact hcolonOr hls g hg

end VpnCore.Lib.Ipv6
