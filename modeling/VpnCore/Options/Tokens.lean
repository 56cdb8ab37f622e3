import VpnCore.Options.ParseLine

/-!
# VpnCore.Options.Tokens — what `parse_line` reads

The spec of the loop token by token: blanks, a plain word, a double-quoted text with its escapes and
a single-quoted text.  `resume` is where the loop goes on after a parameter.
-/

namespace VpnCore.Options

open VpnCore.Lib

variable {n : ℕ} {p : List Bytes} {w : Bytes} {c : UInt8}

/-- Between two parameters. -/
def idle (p : List Bytes) : Parse := { p := p }

/-- Inside a parameter. -/
def reading (state : ParmState) (p : List Bytes) (w : Bytes) : Parse :=
  { p := p, state := state, parm := w }

/-- The loop after a parameter: it goes on with `rest` unless `p` is full. -/
def resume (n : ℕ) (p : List Bytes) (rest : Bytes) : Loop Parse ParseError :=
  if n ≤ p.length then .stopped (idle p) else loop (Parse.body n) (idle p) rest

theorem body_of_step {s s' : Parse} (h : s.step c = .running s') (hp : s'.p.length < n) :
    s.body n c = .running s' := by
  rw [Parse.body, h, checkRoom, if_neg (Nat.not_le.mpr hp)]

theorem loop_resume {s : Parse} (h : s.step c = .running (idle p)) (rest : Bytes) :
    loop (Parse.body n) s (c :: rest) = resume n p rest := by
  simp only [loop, Parse.body, h, checkRoom, resume]
  by_cases hp : n ≤ p.length
  · rw [if_pos (show n ≤ (idle p).p.length from hp), if_pos hp]
  · rw [if_neg (show ¬ n ≤ (idle p).p.length from hp), if_neg hp]

theorem ne_zero_of_space (h : space c = false) : c ≠ 0 := by
  rintro rfl
  cases h

theorem ne_backslash_of_space (h : space c = true) : c ≠ '\\'.toUInt8 := by
  rintro rfl
  cases h

/-! ## Single characters -/

theorem step_blank (hc : space c = true) : (idle p).step c = .running (idle p) := by
  have hb := ne_backslash_of_space hc
  simp [Parse.step, Parse.escapes, Parse.read, idle, hc, hb, badBackslash, Parse.enter, Parse.store,
    Parse.setBackslash]

/-- The first character of a plain word. -/
def startsWord (c : UInt8) : Bool :=
  !(space c || c == '\\'.toUInt8 || c == ';'.toUInt8 || c == '#'.toUInt8 || c == '"'.toUInt8 ||
    c == '\''.toUInt8)

theorem step_word_start (hc : startsWord c = true) :
    (idle p).step c = .running (reading .readingUnquotedParm p [c]) := by
  simp only [startsWord, Bool.not_eq_true', Bool.or_eq_false_iff, beq_eq_false_iff_ne] at hc
  obtain ⟨⟨⟨⟨⟨h1, h2⟩, h3⟩, h4⟩, h5⟩, h6⟩ := hc
  have h0 := ne_zero_of_space h1
  simp [Parse.step, Parse.escapes, Parse.read, idle, reading, h0, h1, h2, h3, h4, h5, h6,
    badBackslash, Parse.enter, Parse.store, Parse.setBackslash, Parse.put, optionParmSize]

theorem step_word_char (h1 : space c = false) (h2 : c ≠ '\\'.toUInt8)
    (hw : w.length < optionParmSize) :
    (reading .readingUnquotedParm p w).step c =
      .running (reading .readingUnquotedParm p (w ++ [c])) := by
  have h0 := ne_zero_of_space h1
  simp [Parse.step, Parse.escapes, Parse.read, reading, h0, h1, h2, badBackslash, Parse.enter,
    Parse.store, Parse.setBackslash, Parse.put, hw]

theorem step_word_end (hc : space c = true) :
    (reading .readingUnquotedParm p w).step c = .running (idle (p ++ [w])) := by
  have hb := ne_backslash_of_space hc
  simp [Parse.step, Parse.escapes, Parse.read, reading, idle, hc, hb, badBackslash, Parse.enter,
    Parse.store, Parse.setBackslash, Parse.put]

theorem step_quote_start :
    (idle p).step '"'.toUInt8 = .running (reading .readingQuotedParm p []) := by
  rfl

theorem step_quoted_char (h0 : c ≠ 0) (h1 : c ≠ '"'.toUInt8) (h2 : c ≠ '\\'.toUInt8)
    (hw : w.length < optionParmSize) :
    (reading .readingQuotedParm p w).step c =
      .running (reading .readingQuotedParm p (w ++ [c])) := by
  simp [Parse.step, Parse.escapes, Parse.read, reading, h0, h1, h2, badBackslash, Parse.enter,
    Parse.store, Parse.setBackslash, Parse.put, hw]

theorem step_quoted_escape :
    (reading .readingQuotedParm p w).step '\\'.toUInt8 =
      .running ((reading .readingQuotedParm p w).setBackslash true) := by
  rfl

theorem step_quoted_escaped (h : c = '\\'.toUInt8 ∨ c = '"'.toUInt8)
    (hw : w.length < optionParmSize) :
    ((reading .readingQuotedParm p w).setBackslash true).step c =
      .running (reading .readingQuotedParm p (w ++ [c])) := by
  have h0 : c ≠ 0 := by rcases h with rfl | rfl <;> decide
  have hbad : badBackslash true c = false := by rcases h with rfl | rfl <;> decide
  simp [Parse.step, Parse.escapes, Parse.read, reading, h0, hbad, Parse.enter, Parse.store,
    Parse.setBackslash, Parse.put, hw]

theorem step_quoted_end :
    (reading .readingQuotedParm p w).step '"'.toUInt8 = .running (idle (p ++ [w])) := by
  rfl

theorem step_single_start :
    (idle p).step '\''.toUInt8 = .running (reading .readingSquotedParm p []) := by
  rfl

theorem step_single_char (h0 : c ≠ 0) (h1 : c ≠ '\''.toUInt8) (hw : w.length < optionParmSize) :
    (reading .readingSquotedParm p w).step c =
      .running (reading .readingSquotedParm p (w ++ [c])) := by
  simp [Parse.step, Parse.escapes, Parse.read, reading, h0, h1, badBackslash, Parse.enter,
    Parse.store, Parse.setBackslash, Parse.put, hw]

theorem step_single_end :
    (reading .readingSquotedParm p w).step '\''.toUInt8 = .running (idle (p ++ [w])) := by
  rfl

/-! ## Tokens -/

/-- A stretch of characters that are read alike is appended to the parameter. -/
theorem loop_reading {state : ParmState} {P : UInt8 → Prop} (hp : p.length < n)
    (hstep : ∀ c w, P c → w.length < optionParmSize →
      (reading state p w).step c = .running (reading state p (w ++ [c]))) :
    ∀ (bs w rest : Bytes), (∀ c ∈ bs, P c) → w.length + bs.length ≤ optionParmSize →
      loop (Parse.body n) (reading state p w) (bs ++ rest) =
        loop (Parse.body n) (reading state p (w ++ bs)) rest
  | [], w, rest, _, _ => by simp
  | c :: bs, w, rest, h, hl => by
    rw [List.length_cons] at hl
    have hc := hstep c w (h c List.mem_cons_self) (by omega)
    have ih := loop_reading hp hstep bs (w ++ [c]) rest
      (fun d hd => h d (List.mem_cons_of_mem c hd)) (by simp; omega)
    rw [List.cons_append, loop_cons_running (body_of_step hc hp), ih, List.append_assoc,
      List.singleton_append]

/-- The characters of a plain word after the first. -/
def wordChar (c : UInt8) : Bool := !space c && c != '\\'.toUInt8

/-- Text that is read back as one parameter when it stands unquoted. -/
def plainWord : Bytes → Bool
  | [] => false
  | c :: cs => startsWord c && cs.all wordChar

theorem loop_unquoted (hp : p.length < n) {bs : Bytes} (rest : Bytes)
    (h : ∀ c ∈ bs, wordChar c = true) (hl : w.length + bs.length ≤ optionParmSize) :
    loop (Parse.body n) (reading .readingUnquotedParm p w) (bs ++ rest) =
      loop (Parse.body n) (reading .readingUnquotedParm p (w ++ bs)) rest := by
  refine loop_reading hp (P := fun c => wordChar c = true) (fun c w hc hw => ?_) bs w rest h hl
  simp only [wordChar, Bool.and_eq_true, Bool.not_eq_true', bne_iff_ne] at hc
  exact step_word_char hc.1 hc.2 hw

theorem loop_word (hp : p.length < n) (hc : space c = true) {bs : Bytes} (rest : Bytes)
    (h : plainWord bs = true) (hl : bs.length ≤ optionParmSize) :
    loop (Parse.body n) (idle p) (bs ++ c :: rest) = resume n (p ++ [bs]) rest := by
  cases bs with
  | nil => cases h
  | cons b bs =>
    simp only [plainWord, Bool.and_eq_true, List.all_eq_true] at h
    rw [List.length_cons] at hl
    rw [List.cons_append, loop_cons_running (body_of_step (step_word_start h.1) hp),
      loop_unquoted hp (c :: rest) h.2 (by simp; omega), List.singleton_append,
      loop_resume (step_word_end hc)]

theorem loop_single (hp : p.length < n) {bs : Bytes} (rest : Bytes)
    (h : ∀ c ∈ bs, c ≠ 0 ∧ c ≠ '\''.toUInt8) (hl : bs.length ≤ optionParmSize) :
    loop (Parse.body n) (idle p) ('\''.toUInt8 :: (bs ++ '\''.toUInt8 :: rest)) =
      resume n (p ++ [bs]) rest := by
  rw [loop_cons_running (body_of_step step_single_start hp),
    loop_reading hp (fun c w hc hw => step_single_char hc.1 hc.2 hw) bs [] _ h (by simpa using hl),
    List.nil_append, loop_resume step_single_end]

end VpnCore.Options
