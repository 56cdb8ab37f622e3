import VpnCore.Config.Line

/-!
# VpnCore.Settings.Scanner — the scanner of `settings_lexer.l`

The start conditions are a stack on top of the initial one.  A rule takes the longest text that it matches, and
of two rules with the same text the first one counts.  The bytes of a character outside ASCII are in all the
negated classes and in none of the others, so that the scanner can be read as one of characters.

There are no files here: what an `include` names is a token, and nothing comes from it.
-/

namespace VpnCore.Settings

open Config (Text)

/-- The start conditions `ref`, `val`, `inc` and `str`. -/
inductive Start
  | ref
  | val
  | inc
  | str
  deriving DecidableEq

/-- What the scanner passes to the parser. -/
inductive Token
  | lbrace
  | rbrace
  | dot
  | comma
  | colon
  | equals
  | newline
  | name (s : Text)
  | string (s : Text)
  | stringError
  /-- the pattern of an `include` -/
  | includes (pattern : Text)
  deriving DecidableEq

/-- The stack of start conditions, and the string of the parser helper. -/
structure Scanner where
  stack : List Start := []
  string : Text := []
  deriving DecidableEq

/-- What one rule does. -/
inductive Scan
  | done (tokens : List Token)
  | more (tokens : List Token) (s : Scanner) (rest : Text)

namespace Scanner

variable (s : Scanner)

def push (start : Start) : Scanner := { s with stack := start :: s.stack }

def pop : Scanner := { s with stack := s.stack.tail }

def stringInit : Scanner := { s with string := [] }

def stringAdd (text : Text) : Scanner := { s with string := s.string ++ text }

end Scanner

/-! ## The rules -/

/-- `NAME` -/
def nameChar (c : Char) : Bool :=
  decide (c ∉ ['#', '{', '}', ':', '.', ',', '=', '"', '\r', '\n', '\t', ' '])

def blank (c : Char) : Bool := c == '\t' || c == ' '

/-- What is left after a comment, blanks or a newline. -/
def skipped : Text → Option Text
  | [] => none
  | c :: t =>
    if c = '\n' then some t
    else if c = '#' then
      -- the rule that takes the newline too is the longer one
      if '\n' ∈ t then some (t.dropWhile (· != '\n')).tail
      else some (t.dropWhile (· != '\r'))
    else if blank c || c == '\r' then
      match (c :: t).dropWhile blank with
      | '#' :: t' => some (t'.dropWhile fun c => c != '\r' && c != '\n')
      | _ => some (t.dropWhile fun c => blank c || c == '\r')
    else none

/-- `"include"[\t ]+/[^=]`: what is left.  The last blank can be the character after it. -/
def includeRule (t : Text) : Option Text :=
  let blanks := (t.drop 7).takeWhile blank
  let after := (t.drop 7).dropWhile blank
  if "include".toList.isPrefixOf t && !blanks.isEmpty then
    if after.head?.any (· != '=') then some after
    else if 2 ≤ blanks.length then some (blanks.drop (blanks.length - 1) ++ after)
    else none
  else none

def scanInitial (s : Scanner) (t : Text) : Scan :=
  match skipped t with
  | some rest => .more [] s rest
  | none =>
    match t with
    | [] => .done []
    | c :: rest =>
      if c = '{' then .more [.lbrace] s rest
      else if c = '}' then .more [.rbrace] s rest
      else if c = '.' then .more [.dot] s rest
      else if c = ',' then .more [.comma] s rest
      else if c = ':' then .more [.colon] (s.push .ref) rest
      else if c = '=' then .more [.equals] (s.push .val) rest
      else if c = '"' then .done [.stringError]
      else
        match includeRule (c :: rest) with
        | some rest => .more [] (s.stringInit.push .inc) rest
        | none => .more [.name (c :: rest.takeWhile nameChar)] s (rest.dropWhile nameChar)

/-- `{NAME}+(\.{NAME}+)*` -/
def dotted : Text → Text
  | [] => []
  | c :: t =>
    if nameChar c then c :: dotted t
    else if c = '.' && t.head?.any nameChar then c :: dotted t
    else []

def scanRef (s : Scanner) (t : Text) : Scan :=
  match skipped t with
  | some rest => .more [] s rest
  | none =>
    match t with
    | [] => .done []
    | c :: rest =>
      if c = ',' then .more [.comma] s rest
      else if nameChar c then .more [.name (c :: dotted rest)] s (rest.drop (dotted rest).length)
      else .more [] s.pop (c :: rest)

/-- The characters of an unquoted value. -/
def valueChar (c : Char) : Bool := decide (c ∉ ['#', '}', '"', '\r', '\n', '\t', ' '])

def scanVal (s : Scanner) : Text → Scan
  | [] => .more [.newline] s.pop []
  | c :: rest =>
    if c = '\r' then .more [] s rest
    else if blank c then .more [] s (rest.dropWhile blank)
    else if c = '#' ∨ c = '}' ∨ c = '\n' then .more [.newline] s.pop (c :: rest)
    else if c = '"' then .more [] (s.stringInit.push .str) rest
    else .more [.name (c :: rest.takeWhile valueChar)] s (rest.dropWhile valueChar)

/-- The characters of a file pattern that are neither quoted nor escaped. -/
def patternChar (c : Char) : Bool := decide (c ∉ ['"', '\\', '#', '}', '\r', '\n', '\t', ' '])

def scanInc (s : Scanner) : Text → Scan
  | [] => .more [.includes s.string] s.pop.stringInit []
  | c :: rest =>
    if c = '\r' then .more [] s rest
    else if c = '#' ∨ c = '}' ∨ c = '\n' then .more [.includes s.string] s.pop.stringInit (c :: rest)
    else if blank c then .more [.includes s.string] s.pop.stringInit rest
    else if c = '"' then .more [] (s.push .str) rest
    else if c = '\\' then
      match rest with
      | [] => .more [] (s.stringAdd ['\\']) []
      | d :: rest' =>
        if d = '"' ∨ d = '#' ∨ d = '}' ∨ d = ' ' then .more [] (s.stringAdd [d]) rest'
        else .more [] (s.stringAdd ['\\']) (d :: rest')
    else .more [] (s.stringAdd (c :: rest.takeWhile patternChar)) (rest.dropWhile patternChar)

/-- The characters of a string that stand for themselves. -/
def stringChar (c : Char) : Bool := decide (c ∉ ['\\', '\r', '"'])

/-- The character that an escape stands for. -/
def unescape (c : Char) : Char :=
  if c = 'n' then '\n' else if c = 'r' then '\r' else if c = 't' then '\t' else c

def scanStr (s : Scanner) : Text → Scan
  | [] => .done [.stringError]
  | c :: rest =>
    if c = '\r' then .more [] s rest
    else if c = '"' then
      if s.stack.tail.head? = some .inc then .more [.includes s.string] s.pop.pop.stringInit rest
      else .more [.string s.string] s.pop.stringInit rest
    else if c = '\\' then
      match rest with
      | [] => .done [.stringError]
      | '\n' :: rest' => .more [] s rest'
      | '\r' :: '\n' :: rest' => .more [] s rest'
      | d :: rest' => .more [] (s.stringAdd [unescape d]) rest'
    else .more [] (s.stringAdd (c :: rest.takeWhile stringChar)) (rest.dropWhile stringChar)

/-- The rule for the start condition on top. -/
def scan (s : Scanner) (t : Text) : Scan :=
  match s.stack with
  | [] => scanInitial s t
  | .ref :: _ => scanRef s t
  | .val :: _ => scanVal s t
  | .inc :: _ => scanInc s t
  | .str :: _ => scanStr s t

/-! ## The tokens of a text -/

/-- A rule takes a character, and then pushes at most one start condition, or it pops one. -/
def size (s : Scanner) (t : Text) : ℕ := 2 * t.length + s.stack.length

theorem length_dropWhile_le (p : Char → Bool) (l : Text) : (l.dropWhile p).length ≤ l.length :=
  (List.dropWhile_suffix p).length_le

theorem skipped_length {t rest : Text} (h : skipped t = some rest) : rest.length < t.length := by
  cases t with
  | nil => cases h
  | cons c t =>
    rw [skipped] at h
    split_ifs at h with h1 h2 h3 h4
    · cases h
      simp
    · cases h
      have := length_dropWhile_le (· != '\n') t
      simp only [List.length_tail, List.length_cons]
      omega
    · cases h
      have := length_dropWhile_le (· != '\r') t
      rw [List.length_cons]
      omega
    · split at h
      · rename_i t' ht'
        cases h
        have h5 := length_dropWhile_le blank (c :: t)
        have h6 := length_dropWhile_le (fun c => c != '\r' && c != '\n') t'
        rw [ht', List.length_cons] at h5
        omega
      · cases h
        have := length_dropWhile_le (fun c => blank c || c == '\r') t
        rw [List.length_cons]
        omega

theorem includeRule_length {t rest : Text} (h : includeRule t = some rest) :
    rest.length < t.length := by
  have hsplit : (t.drop 7).takeWhile blank ++ (t.drop 7).dropWhile blank = t.drop 7 :=
    List.takeWhile_append_dropWhile
  have hlen := congrArg List.length hsplit
  rw [List.length_append, List.length_drop] at hlen
  unfold includeRule at h
  dsimp only at h
  split_ifs at h with h1 h2 h3
  · have hpos : 0 < ((t.drop 7).takeWhile blank).length := by
      rw [Bool.and_eq_true] at h1
      exact List.length_pos_iff.2 (by simpa using h1.2)
    cases h
    omega
  · cases h
    rw [List.length_append, List.length_drop]
    omega

section Progress

variable {s s' : Scanner} {t rest : Text} {tokens : List Token}

theorem scanInitial_size (h : scanInitial s t = .more tokens s' rest) : size s' rest < size s t := by
  unfold scanInitial at h
  split at h
  · rename_i hskip
    cases h
    have := skipped_length hskip
    simp only [size]
    omega
  · split at h
    · cases h
    · rename_i c t' _
      split_ifs at h
      all_goals try (cases h; simp only [size, Scanner.push, List.length_cons]; omega)
      split at h
      · rename_i hinc
        cases h
        have := includeRule_length hinc
        simp only [size, Scanner.push, Scanner.stringInit, List.length_cons] at this ⊢
        omega
      · cases h
        have := length_dropWhile_le nameChar t'
        simp only [size, List.length_cons]
        omega

theorem scanRef_size (hs : s.stack ≠ []) (h : scanRef s t = .more tokens s' rest) :
    size s' rest < size s t := by
  have hpos := List.length_pos_iff.2 hs
  unfold scanRef at h
  split at h
  · rename_i hskip
    cases h
    have := skipped_length hskip
    simp only [size]
    omega
  · split at h
    · cases h
    · split_ifs at h <;> cases h <;>
        simp only [size, Scanner.pop, List.length_tail, List.length_cons, List.length_drop] <;> omega

theorem scanVal_size (hs : s.stack ≠ []) (h : scanVal s t = .more tokens s' rest) :
    size s' rest < size s t := by
  have hpos := List.length_pos_iff.2 hs
  cases t with
  | nil =>
    cases h
    simp only [size, Scanner.pop, List.length_tail]
    omega
  | cons c t =>
    have h1 := length_dropWhile_le blank t
    have h2 := length_dropWhile_le valueChar t
    rw [scanVal] at h
    split_ifs at h <;> cases h <;>
      simp only [size, Scanner.pop, Scanner.push, Scanner.stringInit, List.length_tail,
        List.length_cons] <;> omega

theorem scanInc_size (hs : s.stack ≠ []) (h : scanInc s t = .more tokens s' rest) :
    size s' rest < size s t := by
  have hpos := List.length_pos_iff.2 hs
  cases t with
  | nil =>
    cases h
    simp only [size, Scanner.pop, Scanner.stringInit, List.length_tail]
    omega
  | cons c t =>
    have h1 := length_dropWhile_le patternChar t
    unfold scanInc at h
    dsimp only at h
    split_ifs at h
    all_goals try (cases h; simp only [size, Scanner.pop, Scanner.push, Scanner.stringInit,
      Scanner.stringAdd, List.length_tail, List.length_cons]; omega)
    split at h
    · cases h
      simp [size, Scanner.stringAdd]
    · split_ifs at h <;> cases h <;> simp only [size, Scanner.stringAdd, List.length_cons] <;> omega

theorem scanStr_size (h : scanStr s t = .more tokens s' rest) : size s' rest < size s t := by
  cases t with
  | nil => cases h
  | cons c t =>
    have h1 := length_dropWhile_le stringChar t
    unfold scanStr at h
    dsimp only at h
    split_ifs at h
    · cases h
      simp [size]
    · cases h
      simp only [size, Scanner.pop, Scanner.stringInit, List.length_tail, List.length_cons]
      omega
    · cases h
      simp only [size, Scanner.pop, Scanner.stringInit, List.length_tail, List.length_cons]
      omega
    · split at h <;> cases h <;> simp only [size, Scanner.stringAdd, List.length_cons] <;> omega
    · cases h
      simp only [size, Scanner.stringAdd, List.length_cons]
      omega

/-- Every rule makes progress. -/
theorem scan_size (h : scan s t = .more tokens s' rest) : size s' rest < size s t := by
  unfold scan at h
  split at h <;> rename_i hstack
  · exact scanInitial_size h
  · exact scanRef_size (by simp [hstack]) h
  · exact scanVal_size (by simp [hstack]) h
  · exact scanInc_size (by simp [hstack]) h
  · exact scanStr_size h

end Progress

/-- The tokens up to the end of the text, or to an error. -/
def lex (s : Scanner) (t : Text) : List Token :=
  match h : scan s t with
  | .done tokens => tokens
  | .more tokens s' rest =>
    have := scan_size h
    tokens ++ lex s' rest
termination_by size s t

theorem lex_more {s s' : Scanner} {t rest : Text} {tokens : List Token}
    (h : scan s t = .more tokens s' rest) : lex s t = tokens ++ lex s' rest := by
  rw [lex]
  split
  · rename_i h'
    rw [h] at h'
    cases h'
  · rename_i h'
    rw [h] at h'
    cases h'
    rfl

theorem lex_skip {s s' : Scanner} {t rest : Text} (h : scan s t = .more [] s' rest) :
    lex s t = lex s' rest := lex_more h

theorem lex_token {s s' : Scanner} {t rest : Text} {token : Token}
    (h : scan s t = .more [token] s' rest) : lex s t = token :: lex s' rest := lex_more h

theorem lex_done {s : Scanner} {t : Text} {tokens : List Token} (h : scan s t = .done tokens) :
    lex s t = tokens := by
  rw [lex]
  split
  · rename_i h'
    rw [h] at h'
    cases h'
    rfl
  · rename_i h'
    rw [h] at h'
    cases h'

end VpnCore.Settings
