import Mathlib.Tactic

/-!
# VpnCore.Lib.Utf8 — text and its bytes

`encode` is the UTF-8 encoding of a list of characters.  An ASCII character is its own byte; every
byte of another character is at least `0x80`, so a byte-level scanner that only looks for ASCII
characters sees the same text as a character-level one.
-/

namespace VpnCore.Lib

def encode (t : List Char) : List UInt8 := t.flatMap String.utf8EncodeChar

@[simp] theorem encode_nil : encode [] = [] := rfl

@[simp] theorem encode_append (a b : List Char) : encode (a ++ b) = encode a ++ encode b :=
  List.flatMap_append

theorem encode_cons (c : Char) (t : List Char) :
    encode (c :: t) = String.utf8EncodeChar c ++ encode t := rfl

/-- A decidable property of all ASCII characters is checked on the 128 of them. -/
theorem ascii_induction {P : Char → Prop} (h : ∀ n : Fin 128, P (Char.ofNat n)) {c : Char}
    (hc : c.toNat < 128) : P c := by
  have := h ⟨c.toNat, hc⟩
  simpa using this

/-- A decidable property of all bytes is checked on the 256 of them. -/
theorem byte_induction {P : UInt8 → Prop} (h : ∀ n : Fin 256, P (UInt8.ofNat n)) (b : UInt8) :
    P b := by
  have := h ⟨b.toNat, b.toNat_lt⟩
  simpa using this

theorem utf8EncodeChar_ascii {c : Char} (hc : c.toNat < 128) :
    String.utf8EncodeChar c = [c.toUInt8] := by
  have hv : c.val.toNat ≤ 127 := Nat.lt_succ_iff.mp hc
  simp only [String.utf8EncodeChar, hv, if_true]
  rfl

theorem toUInt8_inj_ascii {c d : Char} (hc : c.toNat < 128) (hd : d.toNat < 128)
    (h : c.toUInt8 = d.toUInt8) : c = d := by
  have hn : ∀ {e : Char}, e.toNat < 128 → e.toUInt8.toNat = e.toNat := fun {e} he => by
    change e.toNat % 256 = e.toNat
    omega
  have : c.toNat = d.toNat := by rw [← hn hc, ← hn hd, h]
  rw [← Char.ofNat_toNat c, ← Char.ofNat_toNat d, this]

theorem encode_ascii {t : List Char} (h : ∀ c ∈ t, c.toNat < 128) :
    encode t = t.map Char.toUInt8 := by
  induction t with
  | nil => rfl
  | cons c t ih =>
    rw [encode_cons, utf8EncodeChar_ascii (h c List.mem_cons_self),
      ih fun d hd => h d (List.mem_cons_of_mem c hd)]
    rfl

theorem high_of_mem_utf8EncodeChar {c : Char} (hc : 128 ≤ c.toNat) {b : UInt8}
    (hb : b ∈ String.utf8EncodeChar c) : 128 ≤ b.toNat := by
  have hv : ¬ c.val.toNat ≤ 127 := Nat.not_le.mpr hc
  have key : ∀ n, 128 ≤ n → n < 256 → 128 ≤ (UInt8.ofNat n).toNat := fun n h1 h2 => by
    rw [UInt8.toNat_ofNat', Nat.mod_eq_of_lt h2]
    exact h1
  simp only [String.utf8EncodeChar, hv, if_false] at hb
  split_ifs at hb <;> simp only [List.mem_cons, List.not_mem_nil, or_false] at hb
  · rcases hb with rfl | rfl <;> exact key _ (by omega) (by omega)
  · rcases hb with rfl | rfl | rfl <;> exact key _ (by omega) (by omega)
  · rcases hb with rfl | rfl | rfl | rfl <;> exact key _ (by omega) (by omega)

/-- An ASCII byte of the encoding is a character of the text. -/
theorem mem_encode_ascii {d : Char} (hd : d.toNat < 128) {t : List Char} :
    d.toUInt8 ∈ encode t ↔ d ∈ t := by
  have hdn : d.toUInt8.toNat < 128 := by
    change d.toNat % 256 < 128
    omega
  constructor
  · intro h
    obtain ⟨c, hc, hb⟩ := List.mem_flatMap.mp h
    by_cases hlow : c.toNat < 128
    · rw [utf8EncodeChar_ascii hlow, List.mem_singleton] at hb
      rwa [toUInt8_inj_ascii hd hlow hb]
    · have := high_of_mem_utf8EncodeChar (Nat.le_of_not_lt hlow) hb
      omega
  · intro h
    exact List.mem_flatMap.mpr ⟨d, h, by rw [utf8EncodeChar_ascii hd]; exact List.mem_singleton_self _⟩

theorem encode_eq_nil {t : List Char} : encode t = [] ↔ t = [] := by
  cases t with
  | nil => simp
  | cons c t => simp [encode_cons, String.utf8EncodeChar_ne_nil]

/-- The first character can be read off the bytes. -/
theorem utf8EncodeChar_append_inj {c d : Char} {x y : List UInt8}
    (h : String.utf8EncodeChar c ++ x = String.utf8EncodeChar d ++ y) : c = d ∧ x = y := by
  have hc := ByteArray.utf8DecodeChar?_utf8EncodeChar_append (b := x.toByteArray) (c := c)
  have hd := ByteArray.utf8DecodeChar?_utf8EncodeChar_append (b := y.toByteArray) (c := d)
  rw [← List.toByteArray_append] at hc hd
  rw [h, hd] at hc
  obtain rfl := Option.some.inj hc
  exact ⟨rfl, List.append_cancel_left h⟩

theorem encode_prefix {p q : List Char} : encode p <+: encode q ↔ p <+: q := by
  constructor
  · intro h
    induction p generalizing q with
    | nil => exact List.nil_prefix
    | cons c p ih =>
      cases q with
      | nil => exact absurd (encode_eq_nil.mp (List.prefix_nil.mp h)) (List.cons_ne_nil c p)
      | cons d q =>
        obtain ⟨t, ht⟩ := h
        rw [encode_cons, encode_cons, List.append_assoc] at ht
        obtain ⟨rfl, hrest⟩ := utf8EncodeChar_append_inj ht
        exact List.cons_prefix_cons.mpr ⟨rfl, ih ⟨t, hrest⟩⟩
  · rintro ⟨t, rfl⟩
    exact ⟨encode t, (encode_append p t).symm⟩

end VpnCore.Lib
