import VpnCore.Settings.Scanner
import VpnCore.Settings.Writer

/-!
# VpnCore.Settings.Lexing — the tokens of serialized settings

The scanner reads back what the writer wrote, rule by rule: names, quoted values and sections.  A carriage return
in a value is the one character that is lost: `escapeValue` leaves it as it is, and the rules of quoted strings
ignore it.
-/

namespace VpnCore.Settings

open Config (Text)
open Lib

/-! ## Names -/

/-- A name of the characters that the scanner takes for names. -/
structure ValidName (n : Text) : Prop where
  ne_nil : n ≠ []
  nameChar : ∀ c ∈ n, nameChar c = true

def includeName : Text := "include".toList

theorem nameChar_ne {c d : Char} (hc : nameChar c = true) (hd : nameChar d = false) : c ≠ d := by
  rintro rfl
  rw [hc] at hd
  cases hd

theorem blank_of_nameChar {c : Char} (hc : nameChar c = true) : blank c = false := by
  rw [blank, Bool.or_eq_false_iff]
  exact ⟨beq_eq_false_iff_ne.2 (nameChar_ne hc rfl), beq_eq_false_iff_ne.2 (nameChar_ne hc rfl)⟩

/-- A name is no `include`, unless it is that word and a blank follows. -/
theorem includeRule_name {n : Text} (hn : ∀ c ∈ n, nameChar c = true) {sep : Char}
    (hsep : sep ∉ includeName) (h : blank sep = false ∨ n ≠ includeName) (t : Text) :
    includeRule (n ++ sep :: t) = none := by
  by_cases hpre : includeName <+: n ++ sep :: t
  · -- the word is a prefix of the name
    obtain ⟨r, rfl⟩ : includeName <+: n := by
      rcases List.prefix_or_prefix_of_prefix hpre (List.prefix_append n (sep :: t)) with h | ⟨k, hk⟩
      · exact h
      · rw [← hk, List.prefix_append_right_inj] at hpre
        cases k with
        | nil => rw [← hk, List.append_nil]
        | cons d k =>
          obtain ⟨rfl, -⟩ := List.cons_prefix_cons.1 hpre
          exact absurd (hk ▸ List.mem_append_right n List.mem_cons_self) hsep
    have hdrop : (includeName ++ r ++ sep :: t).drop 7 = r ++ sep :: t := by
      rw [List.append_assoc]
      rfl
    have hblanks : (r ++ sep :: t).takeWhile blank = [] := by
      cases r with
      | nil =>
        rw [List.append_nil] at h
        have hblank : blank sep = false := h.resolve_right (fun hne => hne rfl)
        simp [hblank]
      | cons c r =>
        have hc : nameChar c = true := hn c (List.mem_append_right _ List.mem_cons_self)
        simp [blank_of_nameChar hc]
    unfold includeRule
    rw [hdrop, hblanks]
    dsimp only
    rw [List.isEmpty_nil, Bool.not_true, Bool.and_false]
    rfl
  · have hpre' : includeName.isPrefixOf (n ++ sep :: t) = false := by
      rw [Bool.eq_false_iff, Ne, List.isPrefixOf_iff_prefix]
      exact hpre
    rw [includeRule, show "include".toList.isPrefixOf (n ++ sep :: t) = false from hpre']
    rfl

theorem skipped_nameChar {c : Char} (hc : nameChar c = true) (t : Text) : skipped (c :: t) = none := by
  have hcr : (c == '\r') = false := beq_eq_false_iff_ne.2 (nameChar_ne hc rfl)
  rw [skipped, if_neg (nameChar_ne hc rfl), if_neg (nameChar_ne hc rfl), blank_of_nameChar hc, hcr]
  rfl

/-- **A name.** -/
theorem lex_name {n : Text} (hn : ValidName n) {sep : Char} (hend : nameChar sep = false) {t : Text}
    (hinc : includeRule (n ++ sep :: t) = none) :
    lex {} (n ++ sep :: t) = .name n :: lex {} (sep :: t) := by
  obtain ⟨c, n, rfl⟩ := List.exists_cons_of_ne_nil hn.ne_nil
  have hc : nameChar c = true := hn.nameChar c List.mem_cons_self
  have hrest : ∀ d ∈ n, nameChar d = true := fun d hd => hn.nameChar d (List.mem_cons_of_mem c hd)
  have htake : (n ++ sep :: t).takeWhile nameChar = n := by
    rw [List.takeWhile_append_of_pos hrest, List.takeWhile_cons_of_neg (by simp [hend]),
      List.append_nil]
  have hdrop : (n ++ sep :: t).dropWhile nameChar = sep :: t := by
    rw [List.dropWhile_append_of_pos hrest, List.dropWhile_cons_of_neg (by simp [hend])]
  refine lex_token ?_
  rw [List.cons_append] at hinc ⊢
  simp only [scan, scanInitial, skipped_nameChar hc, if_neg (nameChar_ne hc (d := '{') rfl),
    if_neg (nameChar_ne hc (d := '}') rfl), if_neg (nameChar_ne hc (d := '.') rfl),
    if_neg (nameChar_ne hc (d := ',') rfl), if_neg (nameChar_ne hc (d := ':') rfl),
    if_neg (nameChar_ne hc (d := '=') rfl), if_neg (nameChar_ne hc (d := '"') rfl), hinc, htake, hdrop]

/-! ## Quoted values -/

/-- What the scanner keeps of a value. -/
def withoutCr (value : Text) : Text := value.filter (· != '\r')

section Strings

variable (stack : List Start) (string t : Text)

theorem lex_stringChar {c : Char} (hc : stringChar c = true) :
    lex ⟨.str :: stack, string⟩ (c :: t) = lex ⟨.str :: stack, string ++ [c]⟩ t := by
  have hchar : ∀ {c : Char}, stringChar c = true → c ≠ '\r' ∧ c ≠ '"' ∧ c ≠ '\\' := fun hc => by
    simp only [stringChar, List.mem_cons, List.not_mem_nil, or_false, not_or, decide_eq_true_eq] at hc
    exact ⟨hc.2.1, hc.2.2, hc.1⟩
  have hscan : ∀ (string : Text) {c : Char} (t : Text), c ≠ '\r' ∧ c ≠ '"' ∧ c ≠ '\\' →
      scan ⟨.str :: stack, string⟩ (c :: t) = .more [] ⟨.str :: stack,
        string ++ c :: t.takeWhile stringChar⟩ (t.dropWhile stringChar) := by
    rintro string c t ⟨h1, h2, h3⟩
    simp only [scan, scanStr, if_neg h1, if_neg h2, if_neg h3, Scanner.stringAdd]
  rw [lex_skip (hscan string t (hchar hc))]
  cases t with
  | nil => rfl
  | cons d t =>
    by_cases hd : stringChar d = true
    · -- the rest of the run is a run of its own
      rw [List.takeWhile_cons_of_pos hd, List.dropWhile_cons_of_pos hd,
        lex_skip (hscan (string ++ [c]) t (hchar hd)), List.append_assoc, List.singleton_append]
    · rw [List.takeWhile_cons_of_neg hd, List.dropWhile_cons_of_neg hd]

theorem lex_str_cr : lex ⟨.str :: stack, string⟩ ('\r' :: t) = lex ⟨.str :: stack, string⟩ t :=
  lex_skip rfl

/-- An escaped backslash or quote. -/
theorem lex_str_escape {c : Char} (hc : c = '\\' ∨ c = '"') :
    lex ⟨.str :: stack, string⟩ ('\\' :: c :: t) = lex ⟨.str :: stack, string ++ [c]⟩ t := by
  rcases hc with rfl | rfl <;> exact lex_skip rfl

/-- **A value.**  All of it comes back but its carriage returns. -/
theorem lex_escapeValue (value : Text) :
    lex ⟨.str :: stack, string⟩ (escapeValue value ++ t) =
      lex ⟨.str :: stack, string ++ withoutCr value⟩ t := by
  induction value generalizing string with
  | nil => rw [escapeValue_nil, withoutCr, List.filter_nil, List.append_nil, List.nil_append]
  | cons c value ih =>
    rw [escapeValue_cons, List.append_assoc]
    have hkeep : c ≠ '\r' → withoutCr (c :: value) = c :: withoutCr value := fun h => by
      simp [withoutCr, h]
    by_cases hescape : c = '\\' ∨ c = '"'
    · have hcr : c ≠ '\r' := by rcases hescape with rfl | rfl <;> decide
      have htext : (if c = '\\' then ['\\', '\\'] else if c = '"' then ['\\', '"'] else [c]) =
          ['\\', c] := by
        rcases hescape with rfl | rfl <;> rfl
      rw [htext, hkeep hcr, List.cons_append, List.singleton_append, lex_str_escape stack string _ hescape,
        ih, List.append_assoc, List.singleton_append]
    · rw [not_or] at hescape
      rw [if_neg hescape.1, if_neg hescape.2, List.singleton_append]
      by_cases hcr : c = '\r'
      · subst hcr
        rw [lex_str_cr, ih]
        rfl
      · have hc : stringChar c = true := by simp [stringChar, hescape, hcr]
        rw [lex_stringChar stack string _ hc, ih, hkeep hcr, List.append_assoc, List.singleton_append]

end Strings

/-! ## Settings and sections -/

/-- The tokens of a setting. -/
def settingTokens (setting : Text × Option Text) : List Token :=
  .name setting.1 :: .equals :: ((setting.2.map fun v => .string (withoutCr v)).toList ++ [.newline])

mutual

def sectionTokens : SettingsSection → List Token
  | .mk settings sections => settings.flatMap settingTokens ++ sectionsTokens sections

def sectionsTokens : List (Text × SettingsSection) → List Token
  | [] => []
  | (name, sub) :: rest =>
    .name name :: .lbrace :: (sectionTokens sub ++ .rbrace :: sectionsTokens rest)

end

/-- The sections that the writer builds from valid keys: every name once. -/
inductive SettingsSection.Wf : SettingsSection → Prop
  | mk {settings : List (Text × Option Text)} {sections : List (Text × SettingsSection)}
      (keys_nodup : (settings.map Prod.fst).Nodup) (names_nodup : (sections.map Prod.fst).Nodup)
      (keys_valid : ∀ e ∈ settings, ValidName e.1)
      (names_valid : ∀ e ∈ sections, ValidName e.1 ∧ e.1 ≠ includeName)
      (sub : ∀ e ∈ sections, e.2.Wf) : (SettingsSection.mk settings sections).Wf

theorem lex_newline (t : Text) : lex {} ('\n' :: t) = lex {} t := lex_skip rfl

/-- The end of the line after a value. -/
theorem lex_val_newline (t : Text) : lex ⟨[.val], []⟩ ('\n' :: t) = .newline :: lex {} t := by
  rw [lex_token (show scan ⟨[.val], []⟩ ('\n' :: t) = .more [.newline] {} ('\n' :: t) from rfl),
    lex_newline]

theorem lex_setting {setting : Text × Option Text} (hn : ValidName setting.1) (t : Text) :
    lex {} (serializeSetting setting ++ t) = settingTokens setting ++ lex {} t := by
  obtain ⟨n, value⟩ := setting
  have hinc : ∀ t, includeRule (n ++ '=' :: t) = none :=
    includeRule_name hn.nameChar (by decide) (.inl rfl)
  have hequals : ∀ t, lex {} ('=' :: t) = .equals :: lex ⟨[.val], []⟩ t := fun t => lex_token rfl
  cases value with
  | none =>
    rw [serializeSetting, List.append_assoc, List.cons_append, lex_name hn rfl (hinc _), hequals]
    exact congrArg (.name n :: .equals :: ·) (lex_val_newline t)
  | some v =>
    have hquote : ∀ t, lex ⟨[.val], []⟩ ('"' :: t) = lex ⟨[.str, .val], []⟩ t := fun t => lex_skip rfl
    have hend : ∀ string t, lex ⟨[.str, .val], string⟩ ('"' :: t) =
        .string string :: lex ⟨[.val], []⟩ t := fun string t => lex_token rfl
    rw [serializeSetting, List.append_assoc, List.cons_append, lex_name hn rfl (hinc _), hequals]
    dsimp only
    rw [List.cons_append, List.cons_append, hquote, List.append_assoc, List.append_assoc,
      lex_escapeValue, List.singleton_append, hend, List.singleton_append, lex_val_newline]
    rfl

theorem lex_settings (t : Text) : ∀ {settings : List (Text × Option Text)},
    (∀ e ∈ settings, ValidName e.1) →
    lex {} (settings.flatMap serializeSetting ++ t) = settings.flatMap settingTokens ++ lex {} t
  | [], _ => rfl
  | e :: settings, h => by
    rw [List.flatMap_cons, List.append_assoc, lex_setting (h e List.mem_cons_self),
      lex_settings t fun e' he' => h e' (List.mem_cons_of_mem e he'), List.flatMap_cons,
      List.append_assoc]

mutual

/-- **The tokens of a section.** -/
theorem lex_section : ∀ {s : SettingsSection}, s.Wf → ∀ t,
    lex {} (serializeSection s ++ t) = sectionTokens s ++ lex {} t
  | .mk settings sections, .mk _ _ hkeys hnames hsub, t => by
    rw [serializeSection, List.append_assoc, lex_settings _ hkeys, lex_sections hnames hsub,
      sectionTokens, List.append_assoc]

theorem lex_sections : ∀ {l : List (Text × SettingsSection)},
    (∀ e ∈ l, ValidName e.1 ∧ e.1 ≠ includeName) → (∀ e ∈ l, e.2.Wf) → ∀ t,
    lex {} (serializeSections l ++ t) = sectionsTokens l ++ lex {} t
  | [], _, _, t => rfl
  | (name, sub) :: rest, hnames, hsub, t => by
    obtain ⟨hn, hne⟩ := hnames (name, sub) List.mem_cons_self
    have hinc := includeRule_name hn.nameChar (show ' ' ∉ includeName by decide) (.inr hne)
    have hopen : ∀ t, lex {} (' ' :: '{' :: '\n' :: t) = .lbrace :: lex {} t := fun t => by
      rw [lex_skip (show scan {} (' ' :: '{' :: '\n' :: t) = .more [] {} ('{' :: '\n' :: t) from rfl),
        lex_token (show scan {} ('{' :: '\n' :: t) = .more [.lbrace] {} ('\n' :: t) from rfl),
        lex_newline]
    have hclose : ∀ t, lex {} ('}' :: '\n' :: t) = .rbrace :: lex {} t := fun t => by
      rw [lex_token (show scan {} ('}' :: '\n' :: t) = .more [.rbrace] {} ('\n' :: t) from rfl),
        lex_newline]
    rw [serializeSections, List.append_assoc, List.cons_append, lex_name hn rfl (hinc _),
      List.cons_append, List.cons_append, hopen, List.append_assoc, List.cons_append, List.cons_append,
      lex_section (hsub (name, sub) List.mem_cons_self), hclose,
      lex_sections (fun e he => hnames e (List.mem_cons_of_mem _ he))
        (fun e he => hsub e (List.mem_cons_of_mem _ he)), sectionsTokens]
    simp only [List.cons_append, List.append_assoc]

end

end VpnCore.Settings
