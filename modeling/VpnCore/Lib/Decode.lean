import VpnCore.Lib.Utf8

/-!
# VpnCore.Lib.Decode — bytes and their text

`decode` reads UTF-8 and puts U+FFFD where the bytes are malformed: once for the beginning of a
character that is broken off, and once for each byte that no character begins with.  It is a machine
that takes one byte at a time; `decodeFrom` starts in the middle of a character.  The bytes of a text
are read as that text (`decode_encode`).  If they are decoded piece by piece, a character that is
divided between two pieces becomes at least two replacement characters (`decode_pieces`).
-/

namespace VpnCore.Lib

/-- The beginning of a character: its first bits, the number of bytes after the next one, and the
bounds of the next one. -/
structure Begun where
  code : ℕ
  more : ℕ
  lower : ℕ
  upper : ℕ
  deriving DecidableEq, Repr

def replacement : Char := Char.ofNat 0xfffd

/-- A byte that does not continue a character. -/
def decodeFirst (b : UInt8) : List Char × Option Begun :=
  let n := b.toNat
  if n < 0x80 then ([Char.ofNat n], none)
  else if 0xc2 ≤ n ∧ n ≤ 0xdf then ([], some ⟨n - 0xc0, 0, 0x80, 0xbf⟩)
  else if 0xe0 ≤ n ∧ n ≤ 0xef then
    -- no character is written with more bytes than it needs, and none is a surrogate
    ([], some ⟨n - 0xe0, 1, if n = 0xe0 then 0xa0 else 0x80, if n = 0xed then 0x9f else 0xbf⟩)
  else if 0xf0 ≤ n ∧ n ≤ 0xf4 then
    ([], some ⟨n - 0xf0, 2, if n = 0xf0 then 0x90 else 0x80, if n = 0xf4 then 0x8f else 0xbf⟩)
  else ([replacement], none)

def decodeStep : Option Begun → UInt8 → List Char × Option Begun
  | none, b => decodeFirst b
  | some s, b =>
    if s.lower ≤ b.toNat ∧ b.toNat ≤ s.upper then
      let code := s.code * 64 + (b.toNat - 0x80)
      match s.more with
      | 0 => ([Char.ofNat code], none)
      | more + 1 => ([], some ⟨code, more, 0x80, 0xbf⟩)
    else (replacement :: (decodeFirst b).1, (decodeFirst b).2)

def decodeFrom : Option Begun → List UInt8 → List Char
  | none, [] => []
  | some _, [] => [replacement]
  | s, b :: bs => (decodeStep s b).1 ++ decodeFrom (decodeStep s b).2 bs

def decode (bs : List UInt8) : List Char := decodeFrom none bs

@[simp] theorem decodeFrom_cons (s : Option Begun) (b : UInt8) (bs : List UInt8) :
    decodeFrom s (b :: bs) = (decodeStep s b).1 ++ decodeFrom (decodeStep s b).2 bs := by
  cases s <;> rfl

theorem toNat_ofNat_byte {n : ℕ} (h : n < 256) : (UInt8.ofNat n).toNat = n := by
  rw [UInt8.toNat_ofNat', Nat.mod_eq_of_lt h]

section First

variable {n : ℕ}

theorem decodeFirst_ascii (h : n < 0x80) : decodeFirst (UInt8.ofNat n) = ([Char.ofNat n], none) := by
  simp only [decodeFirst, toNat_ofNat_byte (show n < 256 by omega), h, if_true]

theorem decodeFirst_two (h : 0xc2 ≤ n) (h' : n ≤ 0xdf) :
    decodeFirst (UInt8.ofNat n) = ([], some ⟨n - 0xc0, 0, 0x80, 0xbf⟩) := by
  simp only [decodeFirst, toNat_ofNat_byte (show n < 256 by omega)]
  rw [if_neg (by omega), if_pos ⟨h, h'⟩]

theorem decodeFirst_three (h : 0xe0 ≤ n) (h' : n ≤ 0xef) :
    decodeFirst (UInt8.ofNat n) = ([], some ⟨n - 0xe0, 1, if n = 0xe0 then 0xa0 else 0x80,
      if n = 0xed then 0x9f else 0xbf⟩) := by
  simp only [decodeFirst, toNat_ofNat_byte (show n < 256 by omega)]
  rw [if_neg (by omega), if_neg (by omega), if_pos ⟨h, h'⟩]

theorem decodeFirst_four (h : 0xf0 ≤ n) (h' : n ≤ 0xf4) :
    decodeFirst (UInt8.ofNat n) = ([], some ⟨n - 0xf0, 2, if n = 0xf0 then 0x90 else 0x80,
      if n = 0xf4 then 0x8f else 0xbf⟩) := by
  simp only [decodeFirst, toNat_ofNat_byte (show n < 256 by omega)]
  rw [if_neg (by omega), if_neg (by omega), if_neg (by omega), if_pos ⟨h, h'⟩]

theorem decodeStep_last {s : Begun} (hn : n < 64) (hlower : s.lower ≤ n + 128)
    (hupper : n + 128 ≤ s.upper) (hmore : s.more = 0) :
    decodeStep (some s) (UInt8.ofNat (n + 128)) = ([Char.ofNat (s.code * 64 + n)], none) := by
  simp only [decodeStep, toNat_ofNat_byte (show n + 128 < 256 by omega), hlower, hupper, and_self,
    if_true, hmore, Nat.add_sub_cancel]

theorem decodeStep_more {s : Begun} {more : ℕ} (hn : n < 64) (hlower : s.lower ≤ n + 128)
    (hupper : n + 128 ≤ s.upper) (hmore : s.more = more + 1) :
    decodeStep (some s) (UInt8.ofNat (n + 128)) =
      ([], some ⟨s.code * 64 + n, more, 0x80, 0xbf⟩) := by
  simp only [decodeStep, toNat_ofNat_byte (show n + 128 < 256 by omega), hlower, hupper, and_self,
    if_true, hmore, Nat.add_sub_cancel]

end First

/-- The bytes of a character are read as that character. -/
theorem decodeFrom_char (c : Char) (rest : List UInt8) :
    decodeFrom none (String.utf8EncodeChar c ++ rest) = c :: decodeFrom none rest := by
  have hvalid : c.val.toNat < 0xd800 ∨ 0xdfff < c.val.toNat ∧ c.val.toNat < 0x110000 := c.valid
  have hc : ∀ n, n = c.val.toNat → Char.ofNat n = c := by
    rintro n rfl
    exact Char.ofNat_toNat c
  unfold String.utf8EncodeChar
  generalize c.val.toNat = v at hvalid hc
  dsimp only
  split_ifs with h1 h2 h3
  · simp only [List.singleton_append, decodeFrom_cons, decodeStep,
      decodeFirst_ascii (show v < 0x80 by omega), hc v rfl]
  · simp only [List.cons_append, List.nil_append, decodeFrom_cons]
    rw [decodeStep, decodeFirst_two (by omega) (by omega)]
    simp only [List.nil_append]
    rw [decodeStep_last (by omega) (by dsimp only; omega) (by dsimp only; omega) rfl,
      hc _ (by dsimp only; omega)]
    rfl
  · simp only [List.cons_append, List.nil_append, decodeFrom_cons]
    rw [decodeStep, decodeFirst_three (by omega) (by omega)]
    simp only [List.nil_append]
    rw [decodeStep_more (by omega) (by dsimp only; split_ifs <;> omega)
      (by dsimp only; split_ifs <;> omega) rfl]
    simp only [List.nil_append]
    rw [decodeStep_last (by omega) (by dsimp only; omega) (by dsimp only; omega) rfl,
      hc _ (by dsimp only; omega)]
    rfl
  · simp only [List.cons_append, List.nil_append, decodeFrom_cons]
    rw [decodeStep, decodeFirst_four (by omega) (by omega)]
    simp only [List.nil_append]
    rw [decodeStep_more (by omega) (by dsimp only; split_ifs <;> omega)
      (by dsimp only; split_ifs <;> omega) rfl]
    simp only [List.nil_append]
    rw [decodeStep_more (by omega) (by dsimp only; omega) (by dsimp only; omega) rfl]
    simp only [List.nil_append]
    rw [decodeStep_last (by omega) (by dsimp only; omega) (by dsimp only; omega) rfl,
      hc _ (by dsimp only; omega)]
    rfl

theorem decode_encode_append (t : List Char) (rest : List UInt8) :
    decode (encode t ++ rest) = t ++ decode rest := by
  induction t with
  | nil => rfl
  | cons c t ih =>
    rw [decode, encode_cons, List.append_assoc, decodeFrom_char, ← decode, ih, List.cons_append]

theorem decode_encode (t : List Char) : decode (encode t) = t := by
  have h := decode_encode_append t []
  rwa [List.append_nil, show decode [] = [] from rfl, List.append_nil] at h

/-! ## Pieces of a text -/

/-- What was read after some bytes, and the beginning of a character that is left. -/
def decodeRun : Option Begun → List UInt8 → List Char × Option Begun
  | s, [] => ([], s)
  | s, b :: bs =>
    ((decodeStep s b).1 ++ (decodeRun (decodeStep s b).2 bs).1, (decodeRun (decodeStep s b).2 bs).2)

theorem decodeFrom_append : ∀ (s : Option Begun) (as bs : List UInt8),
    decodeFrom s (as ++ bs) = (decodeRun s as).1 ++ decodeFrom (decodeRun s as).2 bs
  | _, [], _ => rfl
  | s, a :: as, bs => by
    rw [List.cons_append, decodeFrom_cons, decodeFrom_append _ as bs, decodeRun, List.append_assoc]

/-- Where no character is left, one was read. -/
theorem decodeStep_ne_nil {s : Option Begun} {b : UInt8} (h : (decodeStep s b).2 = none) :
    (decodeStep s b).1 ≠ [] := by
  have hfirst : (decodeFirst b).2 = none → (decodeFirst b).1 ≠ [] := by
    unfold decodeFirst
    dsimp only
    split_ifs <;> simp
  cases s with
  | none => exact hfirst h
  | some s =>
    by_cases hin : s.lower ≤ b.toNat ∧ b.toNat ≤ s.upper
    · rw [decodeStep, if_pos hin] at h ⊢
      cases hmore : s.more with
      | zero => simp
      | succ more => simp [hmore] at h
    · rw [decodeStep, if_neg hin]
      exact List.cons_ne_nil _ _

theorem decodeRun_ne_nil : ∀ {bs : List UInt8} {s : Option Begun}, bs ≠ [] →
    (decodeRun s bs).2 = none → (decodeRun s bs).1 ≠ []
  | [b], s, _, h => by
    rw [decodeRun, decodeRun, List.append_nil]
    exact decodeStep_ne_nil h
  | b :: c :: bs, s, _, h => by
    rw [decodeRun]
    have ih := @decodeRun_ne_nil (c :: bs) (decodeStep s b).2 (List.cons_ne_nil c bs) h
    exact fun happ => ih (List.append_eq_nil_iff.1 happ).2

/-- A beginning is never read as nothing. -/
theorem decodeFrom_some_ne_nil : ∀ (bs : List UInt8) (s : Begun), decodeFrom (some s) bs ≠ []
  | [], s => List.cons_ne_nil _ _
  | b :: bs, s => by
    rw [decodeFrom_cons]
    rcases hstep : (decodeStep (some s) b).2 with _ | s'
    · exact fun happ => decodeStep_ne_nil hstep (List.append_eq_nil_iff.1 happ).1
    · exact fun happ => decodeFrom_some_ne_nil bs s' (List.append_eq_nil_iff.1 happ).2

/-- A byte that only continues a character. -/
def Continues (b : UInt8) : Prop := 0x80 ≤ b.toNat ∧ b.toNat ≤ 0xbf

theorem decodeFirst_continues {b : UInt8} (h : Continues b) :
    decodeFirst b = ([replacement], none) := by
  obtain ⟨h1, h2⟩ := h
  unfold decodeFirst
  dsimp only
  rw [if_neg (by omega), if_neg (by omega), if_neg (by omega), if_neg (by omega)]

theorem decodeFrom_continues (rest : List UInt8) : ∀ {bs : List UInt8}, (∀ b ∈ bs, Continues b) →
    decodeFrom none (bs ++ rest) = List.replicate bs.length replacement ++ decodeFrom none rest
  | [], _ => rfl
  | b :: bs, h => by
    rw [List.cons_append, decodeFrom_cons, decodeStep, decodeFirst_continues (h b List.mem_cons_self),
      decodeFrom_continues rest fun b' hb => h b' (List.mem_cons_of_mem b hb)]
    rfl

theorem continues_of_mem_tail {c : Char} {b : UInt8} (h : b ∈ (String.utf8EncodeChar c).tail) :
    Continues b := by
  have hbyte : ∀ n, n < 64 → Continues (UInt8.ofNat (n + 128)) := fun n hn => by
    unfold Continues
    rw [toNat_ofNat_byte (by omega)]
    omega
  unfold String.utf8EncodeChar at h
  dsimp only at h
  split_ifs at h <;> simp only [List.tail_cons, List.mem_cons, List.not_mem_nil, or_false] at h
  · subst h
    exact hbyte _ (by omega)
  · rcases h with rfl | rfl <;> exact hbyte _ (by omega)
  · rcases h with rfl | rfl | rfl <;> exact hbyte _ (by omega)

theorem continues_of_divided {c : Char} {q r : List UInt8} (h : String.utf8EncodeChar c = q ++ r)
    (hq : q ≠ []) : ∀ b ∈ r, Continues b := by
  intro b hb
  obtain ⟨a, q, rfl⟩ := List.exists_cons_of_ne_nil hq
  exact continues_of_mem_tail (c := c) (by rw [h]; exact List.mem_append_right _ hb)

/-- The beginning of a character is read as one replacement character. -/
theorem decode_beginning {c : Char} {q r : List UInt8} (h : String.utf8EncodeChar c = q ++ r)
    (hq : q ≠ []) (hr : r ≠ []) : decode q = [replacement] := by
  have hchar := decodeFrom_char c []
  rw [List.append_nil, h, decodeFrom_append] at hchar
  have hlen := congrArg List.length hchar
  rcases hstate : (decodeRun none q).2 with _ | s
  · -- then the rest would be read as replacement characters
    have hout := decodeRun_ne_nil hq hstate
    rw [hstate, ← List.append_nil r, decodeFrom_continues [] (continues_of_divided h hq)] at hlen
    have h1 := List.length_pos_iff.2 hout
    have h2 := List.length_pos_iff.2 hr
    simp [decodeFrom] at hlen
    omega
  · rw [hstate] at hlen
    have h1 := List.length_pos_iff.2 (decodeFrom_some_ne_nil r s)
    have hout : (decodeRun none q).1 = [] := by
      rw [← List.length_eq_zero_iff]
      simp [decodeFrom] at hlen
      omega
    have hread := decodeFrom_append none q []
    rw [List.append_nil, hstate, hout] at hread
    exact hread

/-- Where the bytes of a text are cut: between two characters, or in one. -/
theorem cut_encode : ∀ {t : List Char} {p rest : List UInt8}, p ++ rest = encode t →
    (∃ t₁ t₂, t = t₁ ++ t₂ ∧ p = encode t₁ ∧ rest = encode t₂) ∨
    ∃ t₁ c t₂ q r, t = t₁ ++ c :: t₂ ∧ p = encode t₁ ++ q ∧ rest = r ++ encode t₂ ∧
      String.utf8EncodeChar c = q ++ r ∧ q ≠ [] ∧ r ≠ []
  | [], p, rest, h => by
    obtain ⟨rfl, rfl⟩ := List.append_eq_nil_iff.1 h
    exact Or.inl ⟨[], [], rfl, rfl, rfl⟩
  | c :: t, p, rest, h => by
    rw [encode_cons] at h
    rcases List.append_eq_append_iff.1 h with ⟨r, hc, hrest⟩ | ⟨p', hp, hrest⟩
    · by_cases hp : p = []
      · subst hp
        refine Or.inl ⟨[], c :: t, rfl, rfl, ?_⟩
        rw [hrest, encode_cons, hc, List.nil_append]
      · by_cases hr : r = []
        · subst hr
          refine Or.inl ⟨[c], t, rfl, ?_, by rw [hrest, List.nil_append]⟩
          rw [List.append_nil] at hc
          rw [← hc, encode_cons, encode_nil, List.append_nil]
        · exact Or.inr ⟨[], c, t, p, r, rfl, rfl, hrest, hc, hp, hr⟩
    · rcases cut_encode hrest.symm with ⟨t₁, t₂, rfl, rfl, rfl⟩ |
        ⟨t₁, d, t₂, q, r, rfl, rfl, rfl, hd, hq, hr⟩
      · exact Or.inl ⟨c :: t₁, t₂, rfl, by rw [hp, encode_cons], rfl⟩
      · exact Or.inr ⟨c :: t₁, d, t₂, q, r, rfl, by rw [hp, encode_cons, List.append_assoc], rfl, hd,
          hq, hr⟩

/-- **Decoding piece by piece.**  If the pieces are those of a text, behind the end `f` of a character,
they are read as at least as many characters of any kind that contains the replacement character; and
if they are read as the same number, every piece is a text. -/
theorem decode_pieces {P : Char → Bool} (hP : P replacement = true) :
    ∀ (pieces : List (List UInt8)) {f : List UInt8} {t : List Char}, (∀ b ∈ f, Continues b) →
    pieces.flatten = f ++ encode t →
    f.length + t.countP P ≤ (pieces.flatMap decode).countP P ∧
      (f = [] → (pieces.flatMap decode).countP P = t.countP P → ∀ p ∈ pieces, ∃ u, p = encode u)
  | [], f, t, _, h => by
    obtain ⟨rfl, ht⟩ := List.append_eq_nil_iff.1 h.symm
    obtain rfl := encode_eq_nil.1 ht
    exact ⟨le_rfl, fun _ _ p hp => absurd hp List.not_mem_nil⟩
  | p :: pieces, f, t, hf, h => by
    have hrepl : ∀ n, (List.replicate n replacement).countP P = n := fun n => by
      rw [List.countP_replicate, if_pos hP]
    rw [List.flatten_cons] at h
    rw [List.flatMap_cons, List.countP_append]
    rcases List.append_eq_append_iff.1 h with ⟨f', rfl, hrest⟩ | ⟨p', rfl, hrest⟩
    · -- the piece ends before the character does
      have hp : decode p = List.replicate p.length replacement := by
        have hread := decodeFrom_continues [] fun b hb => hf b (List.mem_append_left _ hb)
        rwa [List.append_nil, decodeFrom, List.append_nil] at hread
      obtain ⟨ih, ih'⟩ := decode_pieces hP pieces (fun b hb => hf b (List.mem_append_right _ hb)) hrest
      rw [hp, hrepl, List.length_append]
      refine ⟨by omega, fun hnil heq q hq => ?_⟩
      obtain ⟨rfl, rfl⟩ := List.append_eq_nil_iff.1 hnil
      rw [List.length_nil, Nat.zero_add] at heq
      rcases List.mem_cons.1 hq with rfl | hq
      · exact ⟨[], rfl⟩
      · exact ih' rfl heq q hq
    · have hp : decode (f ++ p') = List.replicate f.length replacement ++ decode p' :=
        decodeFrom_continues p' hf
      rw [hp, List.countP_append, hrepl]
      rcases cut_encode hrest.symm with ⟨t₁, t₂, rfl, rfl, hcut⟩ |
        ⟨t₁, c, t₂, q, r, rfl, rfl, hcut, hc, hq, hr⟩
      · obtain ⟨ih, ih'⟩ := decode_pieces hP pieces (f := []) (by simp) hcut
        rw [decode_encode, List.countP_append]
        rw [List.length_nil, Nat.zero_add] at ih
        refine ⟨by omega, ?_⟩
        rintro rfl heq q hq
        rcases List.mem_cons.1 hq with rfl | hq
        · exact ⟨t₁, rfl⟩
        · exact ih' rfl (by simp at heq; omega) q hq
      · -- the divided character is read once before the cut and once for each byte after it
        have hread : decode (encode t₁ ++ q) = t₁ ++ [replacement] := by
          rw [decode_encode_append, decode_beginning hc hq hr]
        obtain ⟨ih, -⟩ := decode_pieces hP pieces (continues_of_divided hc hq) hcut
        have hpos := List.length_pos_iff.2 hr
        have hone : [c].countP P ≤ 1 := List.countP_le_length
        rw [hread, List.countP_append, List.countP_append, ← List.singleton_append,
          List.countP_append, show [replacement].countP P = 1 from hrepl 1]
        refine ⟨by omega, fun _ heq => ?_⟩
        omega

end VpnCore.Lib
