import Mathlib.Data.List.DropRight
import VpnCore.Config.Line

/-!
# VpnCore.Config.Strings — the methods of `java.lang` that the parsers use

Numbers are written with ASCII digits and read with those of every script.  `int` and `long` values are
integers; where the source can overflow, `wrap` brings them back into their range.  A text is a list of code
points; where the source counts its `char` values, so does `utf16Length`.
-/

namespace VpnCore.Config

def numberFormatException : Thrown := .runtimeException "NumberFormatException".toList

def arrayIndexOutOfBoundsException : Thrown :=
  .runtimeException "ArrayIndexOutOfBoundsException".toList

def stringIndexOutOfBoundsException : Thrown :=
  .runtimeException "StringIndexOutOfBoundsException".toList

def illegalArgumentException : Thrown := .runtimeException "IllegalArgumentException".toList

/-- What `catch (IllegalArgumentException e)` catches: `NumberFormatException` extends it. -/
def Thrown.isIllegalArgument (e : Thrown) : Bool :=
  e == illegalArgumentException || e == numberFormatException

/-- `s.split(sep)` for a separator of one character: trailing empty parts are removed, unless the
separator does not occur. -/
def split (sep : Char) (s : Text) : List Text :=
  let parts := s.splitOn sep
  if parts.length ≤ 1 then parts else parts.rdropWhile List.isEmpty

theorem split_pair {sep : Char} {a b : Text} (ha : sep ∉ a) (hb : sep ∉ b) (hne : b ≠ []) :
    split sep (a ++ sep :: b) = [a, b] := by
  have hjoin : a ++ sep :: b = [sep].intercalate [a, b] := by simp [List.intercalate_cons_cons]
  have hparts : (a ++ sep :: b).splitOn sep = [a, b] := by
    rw [hjoin, List.splitOn_intercalate sep ?_ (by simp)]
    intro t ht
    rcases List.mem_pair.mp ht with rfl | rfl
    · exact ha
    · exact hb
  rw [split, hparts]
  simp [List.rdropWhile, hne]

/-- `xs[i]` -/
def elementAt (xs : List Text) (i : ℕ) : Except Thrown Text :=
  match xs[i]? with
  | some x => .ok x
  | none => .error arrayIndexOutOfBoundsException

def isDigit (c : Char) : Bool := '0' ≤ c && c ≤ '9'

def digitsValue (s : Text) : ℕ := s.foldl (fun n c => n * 10 + (c.toNat - '0'.toNat)) 0

/-- The zeros of the scripts of the basic plane; the other nine digits follow each of them. -/
def zeroDigits : List ℕ :=
  [0x30, 0x660, 0x6f0, 0x7c0, 0x966, 0x9e6, 0xa66, 0xae6, 0xb66, 0xbe6, 0xc66, 0xce6, 0xd66, 0xde6, 0xe50,
    0xed0, 0xf20, 0x1040, 0x1090, 0x17e0, 0x1810, 0x1946, 0x19d0, 0x1a80, 0x1a90, 0x1b50, 0x1bb0, 0x1c40,
    0x1c50, 0xa620, 0xa8d0, 0xa900, 0xa9d0, 0xa9f0, 0xaa50, 0xabf0, 0xff10]

/-- `Character.digit(c, 10)` for a `char`.  A digit outside of the basic plane is two surrogates for the code
that reads numbers, and none of them is a digit. -/
def characterDigit (c : Char) : Option ℕ :=
  (zeroDigits.find? fun z => z ≤ c.toNat && c.toNat < z + 10).map (c.toNat - ·)

/-- The number of its decimal digits. -/
def ofDigits (digits : List ℕ) : ℕ := digits.foldl (fun n d => n * 10 + d) 0

/-- The sign of a number and what stands behind it. -/
def signed : Text → Bool × Text
  | '-' :: rest => (true, rest)
  | '+' :: rest => (false, rest)
  | s => (false, s)

/-- `Integer.parseInt` and `Long.parseLong`, which differ in their range. -/
def parseNumber (bits : ℕ) (s : Text) : Except Thrown ℤ :=
  match (signed s).2.mapM characterDigit with
  | none => .error numberFormatException
  | some digits =>
    let n : ℤ := if (signed s).1 then -(ofDigits digits : ℤ) else ofDigits digits
    if digits.isEmpty then .error numberFormatException
    else if n < -2 ^ (bits - 1) || 2 ^ (bits - 1) ≤ n then .error numberFormatException
    else .ok n

/-- The text has these digits, of any script. -/
def DigitsOf (s : Text) (digits : List ℕ) : Prop := List.Forall₂ (fun c d => characterDigit c = some d) s digits

theorem mapM_characterDigit {s : Text} {digits : List ℕ} :
    s.mapM characterDigit = some digits ↔ DigitsOf s digits := by
  unfold DigitsOf
  induction s generalizing digits with
  | nil => simp [eq_comm]
  | cons c s ih =>
    rw [List.mapM_cons, List.forall₂_cons_left_iff]
    simp only [Option.bind_eq_bind, Option.bind_eq_some_iff, Option.pure_def, Option.some.injEq, ← ih]
    grind

/-- An optional sign and digits of any script. -/
def Numeral (s : Text) (n : ℤ) : Prop :=
  ∃ digits values, DigitsOf digits values ∧ values ≠ [] ∧
    ((s = digits ∨ s = '+' :: digits) ∧ n = ofDigits values ∨ s = '-' :: digits ∧ n = -(ofDigits values : ℤ))

/-- A sign is no digit. -/
theorem signed_digits {digits : Text} {values : List ℕ} (h : DigitsOf digits values) :
    signed digits = (false, digits) := by
  cases h with
  | nil => rfl
  | cons hc _ =>
    refine signed.eq_3 _ ?_ ?_
    · rintro rest heq
      rw [(List.cons.inj heq).1] at hc
      exact absurd hc (by decide +revert)
    · rintro rest heq
      rw [(List.cons.inj heq).1] at hc
      exact absurd hc (by decide +revert)

theorem numeral_iff {s : Text} {n : ℤ} : Numeral s n ↔ ∃ values ≠ [], DigitsOf (signed s).2 values ∧
    n = if (signed s).1 then -(ofDigits values : ℤ) else ofDigits values := by
  constructor
  · rintro ⟨digits, values, hdigits, hne, ⟨rfl | rfl, rfl⟩ | ⟨rfl, rfl⟩⟩
    · rw [signed_digits hdigits]
      exact ⟨values, hne, hdigits, rfl⟩
    · exact ⟨values, hne, hdigits, rfl⟩
    · exact ⟨values, hne, hdigits, rfl⟩
  · rintro ⟨values, hne, hdigits, hn⟩
    refine ⟨(signed s).2, values, hdigits, hne, ?_⟩
    unfold signed at hn hdigits ⊢
    split at hn
    · exact .inr ⟨rfl, hn⟩
    · exact .inl ⟨.inr rfl, hn⟩
    · exact .inl ⟨.inl rfl, hn⟩

/-- **What is read as a number.** -/
theorem parseNumber_eq_ok {bits : ℕ} {s : Text} {n : ℤ} :
    parseNumber bits s = .ok n ↔ Numeral s n ∧ -2 ^ (bits - 1) ≤ n ∧ n < 2 ^ (bits - 1) := by
  simp only [numeral_iff, ← mapM_characterDigit]
  unfold parseNumber
  cases hdigits : (signed s).2.mapM characterDigit with
  | none => simp
  | some digits =>
    simp only [Option.some.injEq, Bool.or_eq_true, decide_eq_true_eq, List.isEmpty_iff]
    split_ifs <;> grind

theorem parseNumber_error {bits : ℕ} {s : Text} {e : Thrown} (h : parseNumber bits s = .error e) :
    e = numberFormatException := by
  unfold parseNumber at h
  split at h
  · exact (Except.error.inj h).symm
  · dsimp only at h
    split_ifs at h <;> exact (Except.error.inj h).symm

def parseInt (s : Text) : Except Thrown ℤ := parseNumber 32 s

def parseLong (s : Text) : Except Thrown ℤ := parseNumber 64 s

/-- The two's complement number of `bits` bits. -/
def wrap (bits : ℕ) (n : ℤ) : ℤ := n.bmod (2 ^ bits)

/-- `%d` -/
def decimal (n : ℤ) : Text :=
  if n < 0 then '-' :: Nat.toDigits 10 n.natAbs else Nat.toDigits 10 n.natAbs

theorem digitsValue_toDigits (n : ℕ) : digitsValue (Nat.toDigits 10 n) = n := by
  have h := Nat.ofDigitChars_ten_toDigits (n := n)
  rw [Nat.ofDigitChars_eq_foldl] at h
  have hmul : ∀ (m : ℕ) (c : Char), m * 10 + (c.toNat - '0'.toNat) = 10 * m + (c.toNat - '0'.toNat) :=
    fun m c => by omega
  simpa only [digitsValue, hmul] using h

theorem isDigit_of_mem_toDigits {n : ℕ} {c : Char} (h : c ∈ Nat.toDigits 10 n) : isDigit c = true := by
  have hc := Nat.isDigit_of_mem_toDigits (by omega) (by omega) h
  simpa [Char.isDigit, isDigit, Char.le_def] using hc

theorem toDigits_eq_cons (n : ℕ) :
    ∃ c rest, Nat.toDigits 10 n = c :: rest ∧ c ≠ '-' ∧ c ≠ '+' := by
  obtain ⟨c, rest, h⟩ := List.exists_cons_of_ne_nil (Nat.toDigits_ne_nil (b := 10) (n := n))
  have hc : isDigit c = true := isDigit_of_mem_toDigits (n := n) (h ▸ List.mem_cons_self)
  refine ⟨c, rest, h, ?_, ?_⟩ <;> rintro rfl <;> exact absurd hc (by decide)

/-- The digits of ASCII have the values that `digitsValue` gives them. -/
theorem digitsOf_ascii {s : Text} (h : ∀ c ∈ s, isDigit c = true) :
    ∃ values, DigitsOf s values ∧ ofDigits values = digitsValue s := by
  refine ⟨s.map fun c => c.toNat - '0'.toNat, ?_, ?_⟩
  · rw [DigitsOf, List.forall₂_map_right_iff, List.forall₂_same]
    intro c hc
    have hdigit := h c hc
    simp only [isDigit, Bool.and_eq_true, decide_eq_true_eq, Char.le_def, UInt32.le_iff_toNat_le] at hdigit
    have hzero : (0x30 ≤ c.toNat && c.toNat < 0x30 + 10) = true := by
      have : c.toNat = c.val.toNat := rfl
      have : '0'.val.toNat = 48 := rfl
      have : '9'.val.toNat = 57 := rfl
      rw [Bool.and_eq_true, decide_eq_true_eq, decide_eq_true_eq]
      omega
    rw [characterDigit, zeroDigits,
      List.find?_cons_of_pos (p := fun z => z ≤ c.toNat && c.toNat < z + 10) hzero]
    rfl
  · rw [ofDigits, List.foldl_map]
    rfl

/-- Digits of ASCII are read as their number. -/
theorem numeral_digitsValue {s : Text} (hne : s ≠ []) (h : ∀ c ∈ s, isDigit c = true) :
    Numeral s (digitsValue s) := by
  obtain ⟨values, hdigits, hvalue⟩ := digitsOf_ascii h
  refine ⟨s, values, hdigits, ?_, .inl ⟨.inl rfl, by rw [hvalue]⟩⟩
  rintro rfl
  exact hne (List.forall₂_nil_right_iff.mp hdigits)

theorem numeral_decimal (n : ℤ) : Numeral (decimal n) n := by
  have hdigits : ∀ c ∈ Nat.toDigits 10 n.natAbs, isDigit c = true := fun c => isDigit_of_mem_toDigits
  obtain ⟨values, hvalues, hvalue⟩ := digitsOf_ascii hdigits
  rw [digitsValue_toDigits] at hvalue
  refine ⟨Nat.toDigits 10 n.natAbs, values, hvalues, ?_, ?_⟩
  · rintro rfl
    exact Nat.toDigits_ne_nil (List.forall₂_nil_right_iff.mp hvalues)
  · rw [decimal, hvalue]
    split_ifs with hn
    · exact .inr ⟨rfl, by omega⟩
    · exact .inl ⟨.inl rfl, by omega⟩

theorem newline_not_mem_decimal (n : ℤ) : '\n' ∉ decimal n := by
  have hdigits : '\n' ∉ Nat.toDigits 10 n.natAbs := fun h => absurd (isDigit_of_mem_toDigits h) (by decide)
  unfold decimal
  split_ifs
  · simpa using hdigits
  · exact hdigits

/-- A number in its range is read back from its decimal text. -/
theorem parseNumber_decimal {bits : ℕ} {n : ℤ} (hlo : -2 ^ (bits - 1) ≤ n)
    (hhi : n < 2 ^ (bits - 1)) : parseNumber bits (decimal n) = .ok n :=
  parseNumber_eq_ok.mpr ⟨numeral_decimal n, hlo, hhi⟩

/-- The number of `char` values of a code point. -/
def charCount (c : Char) : ℕ := if c.toNat < 0x10000 then 1 else 2

/-- `s.length()` -/
def utf16Length (s : Text) : ℕ := (s.map charCount).sum

/-- `s.substring(n)`, if `s` is not shorter.  U+FFFD stands for a surrogate whose partner is cut off. -/
def substring : ℕ → Text → Text
  | 0, s => s
  | _, [] => []
  | 1, c :: s => if charCount c = 1 then s else '\uFFFD' :: s
  | n + 2, c :: s => if charCount c = 1 then substring (n + 1) s else substring n s

/-- `%x` of a value that is not negative. -/
def hexadecimal (n : ℤ) : Text := Nat.toDigits 16 n.natAbs

/-- `s.startsWith(p)` -/
def startsWith (s p : Text) : Bool := p.isPrefixOf s

/-- `s.endsWith(p)` -/
def endsWith (s p : Text) : Bool := p.isSuffixOf s

/-- `s.substring(s.indexOf(p) + p.length())`, if `p` occurs in `s`. -/
def textAfter (p : Text) : Text → Option Text
  | [] => if p.isEmpty then some [] else none
  | c :: s => if p.isPrefixOf (c :: s) then some ((c :: s).drop p.length) else textAfter p s

/-- `s.contains(p)` -/
def contains (s p : Text) : Bool := (textAfter p s).isSome

/-- `s.trim()` removes the control characters too. -/
def trim (s : Text) : Text :=
  (s.dropWhile fun c => c.toNat ≤ 0x20).rdropWhile fun c => c.toNat ≤ 0x20

/-- `s.split("[\n \t]")`.  Its callers skip empty parts, so that those at the end may stay. -/
def splitBlanks (s : Text) : List Text := s.splitOnP fun c => c == '\n' || c == ' ' || c == '\t'

/-- The lines that `BufferedReader.readLine` returns one after the other. -/
def readLines : Text → List Text
  | [] => []
  | '\r' :: '\n' :: rest => [] :: readLines rest
  | c :: rest =>
    if c = '\n' ∨ c = '\r' then [] :: readLines rest
    else
      match readLines rest with
      | [] => [[c]]
      | line :: lines => (c :: line) :: lines

theorem readLines_cons {c : Char} (hc : c ≠ '\n' ∧ c ≠ '\r') (t : Text) :
    readLines (c :: t) =
      match readLines t with
      | [] => [[c]]
      | line :: lines => (c :: line) :: lines := by
  have hcrlf : ∀ rest : Text, c = '\r' → t = '\n' :: rest → False := fun _ h _ => hc.2 h
  rw [readLines.eq_3 c t hcrlf, if_neg (not_or.mpr hc)]

theorem readLines_newline (t : Text) : readLines ('\n' :: t) = [] :: readLines t := by
  rw [readLines.eq_3 '\n' t fun _ h => absurd h (by decide), if_pos (.inl rfl)]

/-- A line that ends with a newline. -/
theorem readLines_line {a : Text} (hn : '\n' ∉ a) (hr : '\r' ∉ a) (t : Text) :
    readLines (a ++ '\n' :: t) = a :: readLines t := by
  induction a with
  | nil => exact readLines_newline t
  | cons c a ih =>
    rw [List.mem_cons, not_or] at hn hr
    rw [List.cons_append, readLines_cons ⟨Ne.symm hn.1, Ne.symm hr.1⟩, ih hn.2 hr.2]

end VpnCore.Config
