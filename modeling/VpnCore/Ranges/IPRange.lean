import VpnCore.Lib.Intervals
import Mathlib.Data.Nat.Digits.Lemmas
import Mathlib.Data.Prod.Lex

/-!
# VpnCore.Ranges.IPRange — ranges of IP addresses

`IPRange` of the IKEv2 code: two byte arrays of the same length (4 or 16), compared by length first
and then byte by byte, and moved by a wrapping `inc` and `dec`.  The key of an address is its length with its
value in base 256; `compareAddr` compares keys, so the interval library applies with the keys of the
two ends.  The keys of the two families leave room between them, so the last address of the one is apart
from the first of the other.

`mPrefix` is left out: neither the comparison nor the operations below read it.
-/

namespace VpnCore.Ranges

open VpnCore.Lib

/-- The bytes of an address, most significant first. -/
abbrev Bytes := List UInt8

/-- The addresses from `mFrom` to `mTo`. -/
structure IPRange where
  mFrom : Bytes
  mTo : Bytes
  deriving DecidableEq

/-! ## Addresses -/

/-- The loop of `compareAddr` over arrays of the same length. -/
def compareBytes : Bytes → Bytes → Ordering
  | a :: as, b :: bs => if a ≠ b then if a.toNat < b.toNat then .lt else .gt else compareBytes as bs
  | _, _ => .eq

/-- `compareAddr`, by the sign of its result. -/
def compareAddr (a b : Bytes) : Ordering :=
  if a.length ≠ b.length then if a.length < b.length then .lt else .gt else compareBytes a b

/-- The loop of `dec`, from the last byte on. -/
def decLoop : Bytes → Bytes
  | [] => []
  | b :: bs => if b - 1 ≠ 0xff then (b - 1) :: bs else (b - 1) :: decLoop bs

def dec (addr : Bytes) : Bytes := (decLoop addr.reverse).reverse

/-- The loop of `inc`, from the last byte on. -/
def incLoop : Bytes → Bytes
  | [] => []
  | b :: bs => if b + 1 ≠ 0 then (b + 1) :: bs else (b + 1) :: incLoop bs

def inc (addr : Bytes) : Bytes := (incLoop addr.reverse).reverse

/-! ## Operations on ranges -/

namespace IPRange

/-- `initializeFromRange`: nothing for addresses of two families, the ends in order otherwise. -/
def initializeFromRange (fa ta : Bytes) : Option IPRange :=
  if fa.length ≠ ta.length then none
  else if compareAddr fa ta = .lt then some ⟨fa, ta⟩
  else some ⟨ta, fa⟩

/-- `initializeFromCIDR` for the address `base` and a prefix of `bits` bits. -/
def initializeFromCIDR (base : Bytes) (bits : ℤ) : Option IPRange :=
  if base.length ≠ 4 ∧ base.length ≠ 16 then none
  else if bits < 0 ∨ bits > base.length * 8 then none
  else
    let mask : UInt8 := UInt8.ofNat (0xff * 2 ^ (8 - bits.toNat % 8))
    let i := bits.toNat / 8
    match base[i]? with
    | none => some ⟨base, base⟩
    | some b =>
      some
        ⟨base.take i ++ (b &&& mask) :: List.replicate (base.length - (i + 1)) 0,
         base.take i ++ (b ||| ~~~mask) :: List.replicate (base.length - (i + 1)) 0xff⟩

def compareTo (r other : IPRange) : Ordering :=
  match compareAddr r.mFrom other.mFrom with
  | .eq => compareAddr r.mTo other.mTo
  | cmp => cmp

def contains (r range : IPRange) : Bool :=
  compareAddr r.mFrom range.mFrom ≠ .gt && compareAddr range.mTo r.mTo ≠ .gt

def overlaps (r range : IPRange) : Bool :=
  !(compareAddr r.mTo range.mFrom = .lt || compareAddr range.mTo r.mFrom = .lt)

/-- What is left of `r` without `range`. -/
def remove (r range : IPRange) : List IPRange :=
  if !r.overlaps range then [r]
  else if !range.contains r then
    if compareAddr r.mFrom range.mFrom = .lt && compareAddr range.mTo r.mTo = .lt then
      [⟨r.mFrom, dec range.mFrom⟩, ⟨inc range.mTo, r.mTo⟩]
    else
      let lo := if compareAddr r.mFrom range.mFrom = .lt then r.mFrom else inc range.mTo
      let hi := if compareAddr r.mTo range.mTo = .gt then r.mTo else dec range.mFrom
      [⟨lo, hi⟩]
  else []

def adjacent (r range : IPRange) : Bool :=
  if compareAddr r.mTo range.mFrom = .lt then compareAddr (inc r.mTo) range.mFrom = .eq
  else compareAddr (dec r.mFrom) range.mTo = .eq

/-- The hull of the two ends. -/
def hull (r range : IPRange) : IPRange where
  mFrom := if compareAddr r.mFrom range.mFrom = .lt then r.mFrom else range.mFrom
  mTo := if compareAddr r.mTo range.mTo = .gt then r.mTo else range.mTo

def merge (r range : IPRange) : Option IPRange :=
  if r.overlaps range then
    if r.contains range then some r
    else if range.contains r then some range
    else some (r.hull range)
  else if !r.adjacent range then none
  else some (r.hull range)

end IPRange

/-! ## Keys -/

/-- The number that the bytes spell in base 256. -/
def value (a : Bytes) : ℕ := Nat.ofDigits 256 (a.reverse.map UInt8.toNat)

/-- Length first, then the value. -/
def key (a : Bytes) : ℕ ×ₗ ℕ := toLex (a.length, value a)

theorem value_cons (b : UInt8) (a : Bytes) :
    value (b :: a) = value a + 256 ^ a.length * b.toNat := by
  simp [value, Nat.ofDigits_append]

theorem value_lt (a : Bytes) : value a < 256 ^ a.length := by
  induction a with
  | nil => simp [value]
  | cons b a ih =>
    have hb : b.toNat < 256 := b.toNat_lt
    rw [value_cons, List.length_cons, pow_succ]
    nlinarith [Nat.zero_le (256 ^ a.length)]

theorem key_lt_iff {a b : Bytes} :
    key a < key b ↔ a.length < b.length ∨ a.length = b.length ∧ value a < value b := by
  rw [key, key, Prod.Lex.toLex_lt_toLex]

theorem key_lt_mk {a : Bytes} {n v : ℕ} :
    key a < toLex (n, v) ↔ a.length < n ∨ a.length = n ∧ value a < v := by
  rw [key, Prod.Lex.toLex_lt_toLex]

theorem compareBytes_spec : ∀ {a b : Bytes}, a.length = b.length →
    compareBytes a b = .lt ∧ value a < value b ∨ compareBytes a b = .eq ∧ a = b ∨
      compareBytes a b = .gt ∧ value b < value a
  | [], [], _ => .inr (.inl ⟨rfl, rfl⟩)
  | x :: a, y :: b, hlen => by
    have hlen' : a.length = b.length := by simpa using hlen
    have ha := value_lt a
    have hb := value_lt b
    rw [compareBytes, value_cons, value_cons, hlen']
    rw [hlen'] at ha
    by_cases hxy : x = y
    · subst hxy
      rw [if_neg (by simp)]
      rcases compareBytes_spec hlen' with ⟨h, hv⟩ | ⟨h, rfl⟩ | ⟨h, hv⟩
      · exact .inl ⟨h, by omega⟩
      · exact .inr (.inl ⟨h, rfl⟩)
      · exact .inr (.inr ⟨h, by omega⟩)
    · rw [if_pos hxy]
      have hne : x.toNat ≠ y.toNat := fun h => hxy (UInt8.toNat_inj.1 h)
      by_cases hlt : x.toNat < y.toNat
      · refine .inl ⟨if_pos hlt, ?_⟩
        nlinarith [Nat.zero_le (256 ^ b.length)]
      · refine .inr (.inr ⟨if_neg hlt, ?_⟩)
        have hgt : y.toNat < x.toNat := by omega
        nlinarith [Nat.zero_le (256 ^ b.length)]

/-- **`compareAddr` compares keys.** -/
theorem compareAddr_spec (a b : Bytes) :
    compareAddr a b = .lt ∧ key a < key b ∨ compareAddr a b = .eq ∧ a = b ∨
      compareAddr a b = .gt ∧ key b < key a := by
  rw [compareAddr]
  by_cases hlen : a.length = b.length
  · rw [if_neg (by simpa using hlen), key_lt_iff, key_lt_iff]
    rcases compareBytes_spec hlen with ⟨h, hv⟩ | ⟨h, hab⟩ | ⟨h, hv⟩
    · exact .inl ⟨h, .inr ⟨hlen, hv⟩⟩
    · exact .inr (.inl ⟨h, hab⟩)
    · exact .inr (.inr ⟨h, .inr ⟨hlen.symm, hv⟩⟩)
  · rw [if_pos hlen, key_lt_iff, key_lt_iff]
    by_cases hlt : a.length < b.length
    · exact .inl ⟨if_pos hlt, .inl hlt⟩
    · exact .inr (.inr ⟨if_neg hlt, .inl (by omega)⟩)

section

variable {a b : Bytes} {x : ℕ ×ₗ ℕ}

theorem compareAddr_lt : compareAddr a b = .lt ↔ key a < key b := by
  rcases compareAddr_spec a b with ⟨h, hk⟩ | ⟨h, rfl⟩ | ⟨h, hk⟩
  · simp [h, hk]
  · simp [h]
  · simp [h, hk.le]

theorem compareAddr_gt : compareAddr a b = .gt ↔ key b < key a := by
  rcases compareAddr_spec a b with ⟨h, hk⟩ | ⟨h, rfl⟩ | ⟨h, hk⟩
  · simp [h, hk.le]
  · simp [h]
  · simp [h, hk]

theorem compareAddr_eq : compareAddr a b = .eq ↔ a = b := by
  rcases compareAddr_spec a b with ⟨h, hk⟩ | ⟨h, rfl⟩ | ⟨h, hk⟩
  · simp only [h, reduceCtorEq, false_iff]
    rintro rfl
    exact lt_irrefl _ hk
  · simp [h]
  · simp only [h, reduceCtorEq, false_iff]
    rintro rfl
    exact lt_irrefl _ hk

theorem key_injective : Function.Injective key := by
  intro a b h
  rcases compareAddr_spec a b with ⟨-, hk⟩ | ⟨-, hab⟩ | ⟨-, hk⟩
  · exact absurd hk (h ▸ lt_irrefl _)
  · exact hab
  · exact absurd hk (h ▸ lt_irrefl _)

/-! ## Neighbours -/

theorem length_incLoop : ∀ l : Bytes, (incLoop l).length = l.length
  | [] => rfl
  | b :: bs => by
    rw [incLoop]
    split
    · rfl
    · rw [List.length_cons, List.length_cons, length_incLoop bs]

theorem length_decLoop : ∀ l : Bytes, (decLoop l).length = l.length
  | [] => rfl
  | b :: bs => by
    rw [decLoop]
    split
    · rfl
    · rw [List.length_cons, List.length_cons, length_decLoop bs]

@[simp] theorem length_inc (a : Bytes) : (inc a).length = a.length := by
  simp [inc, length_incLoop]

@[simp] theorem length_dec (a : Bytes) : (dec a).length = a.length := by
  simp [dec, length_decLoop]

/-- `inc` adds one where it does not wrap around. -/
theorem ofDigits_incLoop : ∀ l : Bytes,
    Nat.ofDigits 256 (l.map UInt8.toNat) + 1 < 256 ^ l.length →
      Nat.ofDigits 256 ((incLoop l).map UInt8.toNat) = Nat.ofDigits 256 (l.map UInt8.toNat) + 1
  | [], h => by simp at h
  | b :: bs, h => by
    have hb : b.toNat < 256 := b.toNat_lt
    rw [List.map_cons, Nat.ofDigits_cons, List.length_cons, pow_succ] at h
    rw [incLoop]
    by_cases h1 : b + 1 = 0
    · have hb255 : b.toNat = 255 := by
        have := congrArg UInt8.toNat h1
        simp at this
        omega
      rw [if_neg (by simpa using h1), List.map_cons, List.map_cons, Nat.ofDigits_cons,
        Nat.ofDigits_cons, ofDigits_incLoop bs (by omega), h1, hb255]
      simp
      ring
    · have hb' : (b + 1).toNat = b.toNat + 1 := by
        have hne : b.toNat ≠ 255 := fun h255 => h1 (UInt8.toNat_inj.1 (by simp [h255]))
        simp
        omega
      rw [if_pos h1, List.map_cons, List.map_cons, Nat.ofDigits_cons, Nat.ofDigits_cons, hb']
      ring

/-- `dec` subtracts one where it does not wrap around. -/
theorem ofDigits_decLoop : ∀ l : Bytes, 0 < Nat.ofDigits 256 (l.map UInt8.toNat) →
    Nat.ofDigits 256 ((decLoop l).map UInt8.toNat) + 1 = Nat.ofDigits 256 (l.map UInt8.toNat)
  | [], h => by simp at h
  | b :: bs, h => by
    have hb : b.toNat < 256 := b.toNat_lt
    rw [List.map_cons, Nat.ofDigits_cons] at h
    rw [decLoop]
    by_cases h0 : b = 0
    · subst h0
      have hpos : 0 < Nat.ofDigits 256 (bs.map UInt8.toNat) := by simpa using h
      have ih := ofDigits_decLoop bs hpos
      rw [if_neg (by decide), List.map_cons, List.map_cons, Nat.ofDigits_cons, Nat.ofDigits_cons,
        ← ih]
      have h255 : ((0 : UInt8) - 1).toNat = 255 := rfl
      rw [h255]
      simp
      ring
    · have hb0 : b.toNat ≠ 0 := fun h' => h0 (UInt8.toNat_inj.1 (by simpa using h'))
      have hb1 : (1 : UInt8) ≤ b := UInt8.le_iff_toNat_le.2 (Nat.one_le_iff_ne_zero.2 hb0)
      have hb' : (b - 1).toNat + 1 = b.toNat := by
        rw [UInt8.toNat_sub_of_le _ _ hb1]
        exact Nat.sub_add_cancel (Nat.one_le_iff_ne_zero.2 hb0)
      have hne : b - 1 ≠ 0xff := by
        intro h'
        have := congrArg UInt8.toNat h'
        have h255 : (0xff : UInt8).toNat = 255 := rfl
        omega
      rw [if_pos hne, List.map_cons, List.map_cons, Nat.ofDigits_cons, Nat.ofDigits_cons, ← hb']
      ring

theorem value_inc (h : value a + 1 < 256 ^ a.length) : value (inc a) = value a + 1 := by
  have := ofDigits_incLoop a.reverse (by simpa [value] using h)
  simpa [value, inc] using this

theorem value_dec (h : 0 < value a) : value (dec a) + 1 = value a := by
  have := ofDigits_decLoop a.reverse (by simpa [value] using h)
  simpa [value, dec] using this

/-- Nothing is between an address and its `inc`. -/
theorem key_inc_le (h : value a + 1 < 256 ^ a.length) : key (inc a) ≤ x ↔ key a < x := by
  obtain ⟨⟨n, v⟩, rfl⟩ := toLex.surjective x
  rw [key, key, Prod.Lex.toLex_le_toLex, Prod.Lex.toLex_lt_toLex, length_inc, value_inc h]
  exact Iff.rfl

/-- Nothing is between an address and its `dec`. -/
theorem le_key_dec (h : 0 < value a) : x ≤ key (dec a) ↔ x < key a := by
  obtain ⟨⟨n, v⟩, rfl⟩ := toLex.surjective x
  rw [key, key, Prod.Lex.toLex_le_toLex, Prod.Lex.toLex_lt_toLex, length_dec, ← value_dec h]
  simp only [Nat.lt_succ_iff]

end

/-! ## Valid ranges -/

namespace IPRange

/-- A range of 4-byte or of 16-byte addresses, in order. -/
structure Valid (r : IPRange) : Prop where
  length : r.mFrom.length = r.mTo.length
  family : r.mFrom.length = 4 ∨ r.mFrom.length = 16
  le : key r.mFrom ≤ key r.mTo

/-- The lower end, as a key. -/
def lo (r : IPRange) : ℕ ×ₗ ℕ := key r.mFrom

/-- The upper end, as a key. -/
def hi (r : IPRange) : ℕ ×ₗ ℕ := key r.mTo

variable {r s t : IPRange} {x : ℕ ×ₗ ℕ}

theorem ext_of_ends (hlo : r.lo = s.lo) (hhi : r.hi = s.hi) : r = s := by
  obtain ⟨f, t⟩ := r
  obtain ⟨f', t'⟩ := s
  rw [IPRange.mk.injEq]
  exact ⟨key_injective hlo, key_injective hhi⟩

theorem compareTo_eq : r.compareTo s = .eq ↔ r = s := by
  rw [compareTo]
  constructor
  · intro h
    rcases compareAddr_spec r.mFrom s.mFrom with ⟨hc, -⟩ | ⟨hc, hf⟩ | ⟨hc, -⟩
    · simp [hc] at h
    · simp only [hc, compareAddr_eq] at h
      exact ext_of_ends (congrArg key hf) (congrArg key h)
    · simp [hc] at h
  · rintro rfl
    simp [compareAddr_eq.2]

theorem lo_le_of_compareTo (h : r.compareTo s ≠ .gt) : r.lo ≤ s.lo := by
  rw [compareTo] at h
  rcases compareAddr_spec r.mFrom s.mFrom with ⟨-, hk⟩ | ⟨-, hf⟩ | ⟨hc, -⟩
  · exact hk.le
  · exact (congrArg key hf).le
  · simp [hc] at h

theorem contains_iff : r.contains s = true ↔ r.lo ≤ s.lo ∧ s.hi ≤ r.hi := by
  simp [contains, compareAddr_gt, lo, hi]

theorem overlaps_iff : r.overlaps s = true ↔ s.lo ≤ r.hi ∧ r.lo ≤ s.hi := by
  simp [overlaps, compareAddr_lt, lo, hi]

/-- Ranges that overlap are of the same family. -/
theorem Valid.length_eq_of_overlaps (hr : r.Valid) (hs : s.Valid) (h : r.overlaps s = true) :
    r.mFrom.length = s.mFrom.length := by
  obtain ⟨h1, h2⟩ := overlaps_iff.1 h
  have h3 := not_lt.2 h1
  have h4 := not_lt.2 h2
  rw [lo, hi, key_lt_iff] at h3 h4
  have := hr.length
  have := hs.length
  omega

theorem value_le_of_forall₂ {a b : Bytes} (h : List.Forall₂ (fun x y => x.toNat ≤ y.toNat) a b) :
    value a ≤ value b := by
  induction h with
  | nil => exact le_rfl
  | cons hxy htail ih =>
    rw [value_cons, value_cons, htail.length_eq]
    exact Nat.add_le_add ih (Nat.mul_le_mul_left _ hxy)

theorem key_le_of_forall₂ {a b : Bytes} (h : List.Forall₂ (fun x y => x.toNat ≤ y.toNat) a b) :
    key a ≤ key b := by
  rw [key, key, Prod.Lex.toLex_le_toLex]
  exact .inr ⟨h.length_eq, value_le_of_forall₂ h⟩

/-- The ranges of the public constructors are valid. -/
theorem valid_of_initializeFromRange {fa ta : Bytes} (hf : fa.length = 4 ∨ fa.length = 16)
    (h : initializeFromRange fa ta = some r) : r.Valid := by
  rw [initializeFromRange] at h
  split_ifs at h with hlen hlt
  · obtain rfl := Option.some_injective _ h
    exact ⟨not_not.1 hlen, hf, (compareAddr_lt.1 hlt).le⟩
  · obtain rfl := Option.some_injective _ h
    rw [compareAddr_lt, not_lt] at hlt
    exact ⟨(not_not.1 hlen).symm, not_not.1 hlen ▸ hf, hlt⟩

theorem valid_of_initializeFromCIDR {base : Bytes} {bits : ℤ}
    (h : initializeFromCIDR base bits = some r) : r.Valid := by
  rw [initializeFromCIDR] at h
  split_ifs at h with hfam hbits
  have hfam' : base.length = 4 ∨ base.length = 16 := by omega
  dsimp only at h
  split at h
  · obtain rfl := Option.some_injective _ h
    exact ⟨rfl, hfam', le_rfl⟩
  · next b hb =>
    have hi : bits.toNat / 8 < base.length := (List.getElem?_eq_some_iff.1 hb).1
    obtain rfl := Option.some_injective _ h
    refine ⟨by simp, by simp; omega, key_le_of_forall₂ ?_⟩
    -- byte by byte: the common part, the masked byte, then 0 against 0xff
    have hcommon : List.Forall₂ (fun x y : UInt8 => x.toNat ≤ y.toNat)
        (base.take (bits.toNat / 8)) (base.take (bits.toNat / 8)) :=
      List.forall₂_same.2 fun x _ => Nat.le_refl x.toNat
    refine List.rel_append hcommon (.cons ?_ ?_)
    · rw [UInt8.toNat_and, UInt8.toNat_or]
      exact Nat.and_le_left.trans Nat.left_le_or
    · rw [List.forall₂_iff_get]
      simp

/-! ## Merging -/

theorem value_lt_of_lt {a b : Bytes} (h : key a < key b) (hlen : a.length = b.length) :
    value a < value b ∧ value b < 256 ^ a.length := by
  rcases key_lt_iff.1 h with h | h
  · omega
  · exact ⟨h.2, hlen ▸ value_lt b⟩

/-- Between two ranges of which one follows the other there is a point, unless the one ends right
before the other begins. -/
theorem apart_iff_of_lt (h : r.hi < s.lo) :
    Apart lo hi r s ↔ ¬ (r.mTo.length = s.mFrom.length ∧ value r.mTo + 1 = value s.mFrom) := by
  constructor
  · rintro ⟨c, h1, h2⟩ ⟨hlen, hval⟩
    have hbound := (value_lt_of_lt h hlen).2
    have h3 : key (inc r.mTo) ≤ c := (key_inc_le (by omega)).2 h1
    have h4 : key (inc r.mTo) = key s.mFrom := by
      rw [key, key, length_inc, value_inc (by omega), hlen, hval]
    rw [h4] at h3
    exact absurd h2 (not_lt.2 h3)
  · intro hne
    refine ⟨toLex (r.mTo.length, value r.mTo + 1), ?_, ?_⟩
    · rw [hi, key_lt_mk]
      exact .inr ⟨rfl, Nat.lt_succ_self _⟩
    · rw [hi, lo, key_lt_iff] at h
      rw [lo, key, Prod.Lex.toLex_lt_toLex]
      omega

theorem adjacent_of_lt (h : r.hi < s.lo) : r.adjacent s = true ↔ ¬ Apart lo hi r s := by
  rw [adjacent, if_pos (compareAddr_lt.2 h), decide_eq_true_iff, compareAddr_eq, apart_iff_of_lt h,
    not_not]
  constructor
  · intro heq
    have hlen : r.mTo.length = s.mFrom.length := by rw [← heq, length_inc]
    have hbound := value_lt_of_lt h hlen
    refine ⟨hlen, ?_⟩
    rw [← heq, value_inc (by omega)]
  · rintro ⟨hlen, hval⟩
    have hbound := value_lt_of_lt h hlen
    apply key_injective
    rw [key, key, length_inc, value_inc (by omega), hlen, hval]

theorem adjacent_of_gt (hr : r.lo ≤ r.hi) (hs : s.lo ≤ s.hi) (h : s.hi < r.lo) :
    r.adjacent s = true ↔ ¬ Apart lo hi s r := by
  have hnot : ¬ compareAddr r.mTo s.mFrom = .lt := by
    rw [compareAddr_lt]
    exact not_lt.2 (hs.trans (h.le.trans hr))
  rw [adjacent, if_neg hnot, decide_eq_true_iff, compareAddr_eq, apart_iff_of_lt h, not_not]
  constructor
  · intro heq
    have hlen : s.mTo.length = r.mFrom.length := by rw [← heq, length_dec]
    have hbound := value_lt_of_lt h hlen
    refine ⟨hlen, ?_⟩
    rw [← heq, value_dec (by omega)]
  · rintro ⟨hlen, hval⟩
    apply key_injective
    have hdec := value_dec (a := r.mFrom) (by omega)
    rw [key, key, length_dec, hlen]
    congr 2
    omega

/-- `merge` returns nothing exactly for ranges with a point between them. -/
theorem merge_eq_none (hr : r.lo ≤ r.hi) (hs : s.lo ≤ s.hi) :
    r.merge s = none ↔ Apart lo hi r s ∨ Apart lo hi s r := by
  by_cases ho : r.overlaps s = true
  · obtain ⟨h1, h2⟩ := overlaps_iff.1 ho
    have hnone : r.merge s ≠ none := by
      rw [merge, if_pos ho]
      split_ifs <;> simp
    refine iff_of_false hnone ?_
    rintro (h | h)
    · exact absurd h1 (not_le.2 h.lt)
    · exact absurd h2 (not_le.2 h.lt)
  · have hmerge : r.merge s = none ↔ ¬ r.adjacent s = true := by
      rw [merge, if_neg ho]
      by_cases ha : r.adjacent s = true <;> simp [ha]
    rw [hmerge]
    rw [overlaps_iff, not_and_or, not_le, not_le] at ho
    rcases ho with h | h
    · rw [adjacent_of_lt h, not_not]
      refine ⟨.inl, fun h' => h'.resolve_right fun hsr => ?_⟩
      exact absurd (hr.trans (h.le.trans hs)) (not_le.2 hsr.lt)
    · rw [adjacent_of_gt hr hs h, not_not]
      refine ⟨.inr, fun h' => h'.resolve_left fun hrs => ?_⟩
      exact absurd (hs.trans (h.le.trans hr)) (not_le.2 hrs.lt)

theorem hull_lo : (r.hull s).lo = min r.lo s.lo := by
  rw [hull, lo]
  dsimp only
  split_ifs with h
  · exact (min_eq_left (compareAddr_lt.1 h).le).symm
  · rw [compareAddr_lt, not_lt] at h
    exact (min_eq_right h).symm

theorem hull_hi : (r.hull s).hi = max r.hi s.hi := by
  rw [hull, hi]
  dsimp only
  split_ifs with h
  · exact (max_eq_left (compareAddr_gt.1 h).le).symm
  · rw [compareAddr_gt, not_lt] at h
    exact (max_eq_right h).symm

theorem merge_ends (h : r.merge s = some t) : t.lo = min r.lo s.lo ∧ t.hi = max r.hi s.hi := by
  have hhull := And.intro (hull_lo (r := r) (s := s)) (hull_hi (r := r) (s := s))
  rw [merge] at h
  split_ifs at h with h1 h2 h3 h4
  · obtain rfl := Option.some_injective _ h
    obtain ⟨h5, h6⟩ := contains_iff.1 h2
    exact ⟨(min_eq_left h5).symm, (max_eq_left h6).symm⟩
  · obtain rfl := Option.some_injective _ h
    obtain ⟨h5, h6⟩ := contains_iff.1 h3
    exact ⟨(min_eq_right h5).symm, (max_eq_right h6).symm⟩
  · obtain rfl := Option.some_injective _ h
    exact hhull
  · obtain rfl := Option.some_injective _ h
    exact hhull

/-- Ranges that can be merged are of the same family. -/
theorem Valid.length_eq_of_merge (hr : r.Valid) (hs : s.Valid) (h : r.merge s = some t) :
    r.mFrom.length = s.mFrom.length := by
  have hsome : ¬ (Apart lo hi r s ∨ Apart lo hi s r) := by
    rw [← merge_eq_none hr.le hs.le, h]
    simp
  have hr' := hr.length
  have hs' := hs.length
  by_contra hne
  rcases lt_or_gt_of_ne hne with hlt | hlt
  · have h : r.hi < s.lo := key_lt_iff.2 (.inl (by omega))
    exact hsome (.inl ((apart_iff_of_lt h).2 (by omega)))
  · have h : s.hi < r.lo := key_lt_iff.2 (.inl (by omega))
    exact hsome (.inr ((apart_iff_of_lt h).2 (by omega)))

theorem Valid.merge (hr : r.Valid) (hs : s.Valid) (h : r.merge s = some t) : t.Valid := by
  have hlen := hr.length_eq_of_merge hs h
  obtain ⟨hlo, hhi⟩ := merge_ends h
  have hfrom : t.mFrom = r.mFrom ∨ t.mFrom = s.mFrom :=
    (min_choice r.lo s.lo).imp (fun h => key_injective (hlo.trans h))
      fun h => key_injective (hlo.trans h)
  have hto : t.mTo = r.mTo ∨ t.mTo = s.mTo :=
    (max_choice r.hi s.hi).imp (fun h => key_injective (hhi.trans h))
      fun h => key_injective (hhi.trans h)
  have hfrom' : t.mFrom.length = r.mFrom.length := by
    rcases hfrom with h | h <;> rw [h]
    exact hlen.symm
  have hto' : t.mTo.length = r.mFrom.length := by
    rcases hto with h | h <;> rw [h]
    · exact hr.length.symm
    · exact hs.length.symm.trans hlen.symm
  refine ⟨hfrom'.trans hto'.symm, hfrom' ▸ hr.family, ?_⟩
  change t.lo ≤ t.hi
  rw [hlo, hhi]
  exact (min_le_left _ _).trans (hr.le.trans (le_max_left _ _))

/-- **Merging.**  The merged range covers the points of both. -/
theorem within_merge (hr : r.Valid) (hs : s.Valid) (h : r.merge s = some t) :
    Within lo hi t x ↔ Within lo hi r x ∨ Within lo hi s x := by
  have hsome : ¬ (Apart lo hi r s ∨ Apart lo hi s r) := by
    rw [← merge_eq_none hr.le hs.le, h]
    simp
  obtain ⟨hrs, hsr⟩ := not_or.1 hsome
  exact within_hull hrs hsr (merge_ends h).1 (merge_ends h).2

/-! ## Removing -/

/-- The part of `r` below `s`. -/
def below (r s : IPRange) : IPRange := ⟨r.mFrom, dec s.mFrom⟩

/-- The part of `r` above `s`. -/
def above (r s : IPRange) : IPRange := ⟨inc s.mTo, r.mTo⟩

theorem le_below_hi (hlen : r.mFrom.length = s.mFrom.length) (h : r.lo < s.lo) :
    x ≤ (below r s).hi ↔ x < s.lo :=
  le_key_dec (by have := (value_lt_of_lt h hlen).1; omega)

theorem above_lo_le (hlen : s.mTo.length = r.mTo.length) (h : s.hi < r.hi) :
    (above r s).lo ≤ x ↔ s.hi < x :=
  key_inc_le (by have := value_lt_of_lt h hlen; omega)

theorem Valid.below (hr : r.Valid) (hlen : r.mFrom.length = s.mFrom.length) (h : r.lo < s.lo) :
    (below r s).Valid :=
  ⟨by simp [IPRange.below, hlen], hr.family, (le_below_hi hlen h).2 h⟩

theorem Valid.above (hr : r.Valid) (hlen : s.mTo.length = r.mTo.length) (h : s.hi < r.hi) :
    (above r s).Valid := by
  refine ⟨by simp [IPRange.above, hlen], ?_, (above_lo_le hlen h).2 h⟩
  have := hr.family
  simpa [IPRange.above, hlen, ← hr.length] using this

/-- The four results of `remove`. -/
theorem remove_cases (r s : IPRange) :
    (¬ r.overlaps s = true ∧ r.remove s = [r]) ∨
    (r.overlaps s = true ∧ s.lo ≤ r.lo ∧ r.hi ≤ s.hi ∧ r.remove s = []) ∨
    (r.overlaps s = true ∧ r.lo < s.lo ∧ s.hi < r.hi ∧ r.remove s = [below r s, above r s]) ∨
    (r.overlaps s = true ∧ r.lo < s.lo ∧ r.hi ≤ s.hi ∧ r.remove s = [below r s]) ∨
    (r.overlaps s = true ∧ s.lo ≤ r.lo ∧ s.hi < r.hi ∧ r.remove s = [above r s]) := by
  by_cases ho : r.overlaps s = true
  · have hfrom : compareAddr r.mFrom s.mFrom = .lt ↔ r.lo < s.lo := compareAddr_lt
    have hto : compareAddr s.mTo r.mTo = .lt ↔ s.hi < r.hi := compareAddr_lt
    have hto' : compareAddr r.mTo s.mTo = .gt ↔ s.hi < r.hi := compareAddr_gt
    rcases lt_or_ge r.lo s.lo with h1 | h1 <;> rcases lt_or_ge s.hi r.hi with h2 | h2
    · have hc : s.contains r = false := by
        rw [← Bool.not_eq_true, contains_iff]
        exact fun h => absurd h.1 (not_le.2 h1)
      refine .inr (.inr (.inl ⟨ho, h1, h2, ?_⟩))
      simp [remove, ho, hc, hfrom, hto, h1, h2, IPRange.below, IPRange.above]
    · have hc : s.contains r = false := by
        rw [← Bool.not_eq_true, contains_iff]
        exact fun h => absurd h.1 (not_le.2 h1)
      refine .inr (.inr (.inr (.inl ⟨ho, h1, h2, ?_⟩)))
      simp [remove, ho, hc, hfrom, hto, hto', h1, not_lt.2 h2, IPRange.below]
    · have hc : s.contains r = false := by
        rw [← Bool.not_eq_true, contains_iff]
        exact fun h => absurd h.2 (not_le.2 h2)
      refine .inr (.inr (.inr (.inr ⟨ho, h1, h2, ?_⟩)))
      simp [remove, ho, hc, hfrom, hto, hto', h2, not_lt.2 h1, IPRange.above]
    · have hc : s.contains r = true := contains_iff.2 ⟨h1, h2⟩
      exact .inr (.inl ⟨ho, h1, h2, by simp [remove, ho, hc]⟩)
  · exact .inl ⟨ho, by simp [remove, ho]⟩

/-- What `remove` should return: valid ranges, each apart from the next, that cover the points of
`r` without those of `s`. -/
structure Removes (r s : IPRange) (l : List IPRange) : Prop where
  valid : ∀ t ∈ l, t.Valid
  canonical : Canonical lo hi l
  cover : ∀ x, x ∈ cover lo hi l ↔ Within lo hi r x ∧ ¬ Within lo hi s x

theorem canonical_singleton (ht : t.Valid) : Canonical lo hi [t] :=
  ⟨fun u hu => by rw [List.mem_singleton.1 hu]; exact ht.le, List.pairwise_singleton _ _⟩

theorem mem_cover_singleton : x ∈ cover lo hi [t] ↔ Within lo hi t x := by
  simp [Lib.cover]

/-- **Removing.** -/
theorem Valid.remove (hr : r.Valid) (hs : s.Valid) : Removes r s (r.remove s) := by
  rcases remove_cases r s with ⟨ho, h⟩ | ⟨ho, h1, h2, h⟩ | ⟨ho, h1, h2, h⟩ | ⟨ho, h1, h2, h⟩ |
    ⟨ho, h1, h2, h⟩ <;> rw [h]
  · refine ⟨by simpa using hr, canonical_singleton hr, fun x => ?_⟩
    rw [mem_cover_singleton]
    refine (and_iff_left_of_imp fun hx hxs => ho (overlaps_iff.2 ?_)).symm
    exact ⟨hxs.1.trans hx.2, hx.1.trans hxs.2⟩
  · refine ⟨by simp, .nil, fun x => ⟨fun hx => by simp [Lib.cover] at hx, fun ⟨hx, hxs⟩ => ?_⟩⟩
    exact absurd ⟨h1.trans hx.1, hx.2.trans h2⟩ hxs
  all_goals
    have hlen := hr.length_eq_of_overlaps hs ho
    have hlen' : s.mTo.length = r.mTo.length := by rw [← hs.length, ← hlen, hr.length]
    obtain ⟨ho1, ho2⟩ := overlaps_iff.1 ho
  · -- both ends of `s` are inside
    have hb := hr.below hlen h1
    have ha := hr.above hlen' h2
    refine ⟨by simpa using ⟨hb, ha⟩, ⟨by simpa using ⟨hb.le, ha.le⟩, ?_⟩, fun x => ?_⟩
    · simp only [List.pairwise_cons, List.mem_singleton, forall_eq, List.not_mem_nil,
        IsEmpty.forall_iff, implies_true, List.Pairwise.nil, and_true]
      refine ⟨s.lo, (le_below_hi hlen h1).1 le_rfl, ?_⟩
      exact hs.le.trans_lt ((above_lo_le hlen' h2).1 le_rfl)
    · rw [mem_cover_cons, mem_cover_singleton, Within, Within, Within, Within,
        le_below_hi hlen h1, above_lo_le hlen' h2, not_and_or, not_le, not_le]
      constructor
      · rintro (⟨h3, h4⟩ | ⟨h3, h4⟩)
        · exact ⟨⟨h3, h4.le.trans (hs.le.trans h2.le)⟩, .inl h4⟩
        · exact ⟨⟨h1.le.trans (hs.le.trans h3.le), h4⟩, .inr h3⟩
      · rintro ⟨⟨h3, h4⟩, h5 | h5⟩
        · exact .inl ⟨h3, h5⟩
        · exact .inr ⟨h5, h4⟩
  · have hb := hr.below hlen h1
    refine ⟨by simpa using hb, canonical_singleton hb, fun x => ?_⟩
    rw [mem_cover_singleton, Within, Within, Within, le_below_hi hlen h1, not_and_or, not_le, not_le]
    constructor
    · rintro ⟨h3, h4⟩
      exact ⟨⟨h3, h4.le.trans ho1⟩, .inl h4⟩
    · rintro ⟨⟨h3, h4⟩, h5 | h5⟩
      · exact ⟨h3, h5⟩
      · exact absurd (h4.trans h2) (not_le.2 h5)
  · have ha := hr.above hlen' h2
    refine ⟨by simpa using ha, canonical_singleton ha, fun x => ?_⟩
    rw [mem_cover_singleton, Within, Within, Within, above_lo_le hlen' h2, not_and_or, not_le,
      not_le]
    constructor
    · rintro ⟨h3, h4⟩
      exact ⟨⟨ho2.trans h3.le, h4⟩, .inr h3⟩
    · rintro ⟨⟨h3, h4⟩, h5 | h5⟩
      · exact absurd (h1.trans h3) (not_le.2 h5)
      · exact ⟨h5, h4⟩

/-- The parts lie inside the range. -/
theorem Removes.within {l : List IPRange} (h : Removes r s l) (ht : t ∈ l) :
    r.lo ≤ t.lo ∧ t.hi ≤ r.hi := by
  have hle := (h.valid t ht).le
  have h1 : t.lo ∈ Lib.cover lo hi l := ⟨t, ht, le_rfl, hle⟩
  have h2 : t.hi ∈ Lib.cover lo hi l := ⟨t, ht, hle, le_rfl⟩
  exact ⟨((h.cover _).1 h1).1.1, ((h.cover _).1 h2).1.2⟩

/-- The first part is the range itself only where nothing is removed. -/
theorem remove_eq_self {rest : List IPRange} (hr : r.Valid) (hs : s.Valid)
    (h : r.remove s = r :: rest) : rest = [] := by
  have hrem := hr.remove hs
  rw [h] at hrem
  cases rest with
  | nil => rfl
  | cons t rest =>
    have hlt := (List.rel_of_pairwise_cons hrem.canonical.apart List.mem_cons_self).lt
    have ht := hrem.within (t := t) (by simp)
    have hle := (hrem.valid t (by simp)).le
    exact absurd (hle.trans ht.2) (not_le.2 hlt)

end IPRange

end VpnCore.Ranges
