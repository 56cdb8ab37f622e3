import VpnCore.Lib.Loop

/-!
# VpnCore.Options.ParseLine — `parse_line` of OpenVPN's `options.c`

The line is a C string: bytes up to the terminating NUL, which the loop reads as its last
character.  `n` is the room in the array `p`.
-/

namespace VpnCore.Options

open VpnCore.Lib

abbrev Bytes := List UInt8

/-- `OPTION_PARM_SIZE` and `OPTION_LINE_SIZE`. -/
def optionParmSize : ℕ := 256

def optionLineSize : ℕ := 256

/-- `MAX_PARMS` -/
def maxParms : ℕ := 16

/-- `isspace` in the C locale. -/
def isspace (c : UInt8) : Bool := c == ' '.toUInt8 || (9 ≤ c && c ≤ 13)

def space (c : UInt8) : Bool := c == 0 || isspace c

/-- The states of `parse_line`. -/
inductive ParmState
  | initial
  | readingQuotedParm
  | readingUnquotedParm
  | done
  | readingSquotedParm
  deriving DecidableEq, Repr

inductive ParseError
  | badBackslash
  | parameterTooLong
  | noClosingQuotation
  | noClosingSingleQuotation
  | residualParseState
  deriving DecidableEq, Repr

/-- The variables of the loop. -/
structure Parse where
  p : List Bytes := []
  state : ParmState := .initial
  backslash : Bool := false
  parm : Bytes := []
  deriving DecidableEq, Repr

/-- The state and the output character after `c`; `none` is the `break` at a comment. -/
def Parse.read (s : Parse) (c : UInt8) : Option (ParmState × UInt8) :=
  match s.state with
  | .initial =>
    if space c then some (.initial, 0)
    else if c == ';'.toUInt8 || c == '#'.toUInt8 then none
    else if !s.backslash && c == '"'.toUInt8 then some (.readingQuotedParm, 0)
    else if !s.backslash && c == '\''.toUInt8 then some (.readingSquotedParm, 0)
    else some (.readingUnquotedParm, c)
  | .readingUnquotedParm =>
    if !s.backslash && space c then some (.done, 0) else some (.readingUnquotedParm, c)
  | .readingQuotedParm =>
    if !s.backslash && c == '"'.toUInt8 then some (.done, 0) else some (.readingQuotedParm, c)
  | .readingSquotedParm =>
    if c == '\''.toUInt8 then some (.done, 0) else some (.readingSquotedParm, c)
  | .done => some (.done, 0)

/-- `STATE_DONE` moves the parameter to `p`. -/
def Parse.enter (s : Parse) (state : ParmState) : Parse :=
  if state = .done then { s with p := s.p ++ [s.parm], parm := [], state := .initial }
  else { s with state := state }

/-- A backslash may only stand before a backslash, a double quote or a blank. -/
def badBackslash (backslash : Bool) (out : UInt8) : Bool :=
  backslash && out != 0 && !(out == '\\'.toUInt8 || out == '"'.toUInt8 || space out)

/-- Append the output character, if there is one. -/
def Parse.put (s : Parse) (out : UInt8) : Parse :=
  if out != 0 then { s with parm := s.parm ++ [out] } else s

def Parse.store (s : Parse) (out : UInt8) : Loop Parse ParseError :=
  if out != 0 && optionParmSize ≤ s.parm.length then .failed .parameterTooLong
  else .running (s.put out)

/-- A backslash that starts an escape. -/
def Parse.escapes (s : Parse) (c : UInt8) : Bool :=
  !s.backslash && c == '\\'.toUInt8 && s.state != .readingSquotedParm

def Parse.setBackslash (s : Parse) (b : Bool) : Parse := { s with backslash := b }

/-- The body of the `do` loop up to the test for room in `p`. -/
def Parse.step (s : Parse) (c : UInt8) : Loop Parse ParseError :=
  if s.escapes c then (s.setBackslash true).store 0
  else
    match s.read c with
    | none => .stopped s
    | some (state, out) =>
      if badBackslash s.backslash out then .failed .badBackslash
      else ((s.enter state).setBackslash false).store out

/-- Leave the loop if `p` is full. -/
def checkRoom (n : ℕ) : Loop Parse ParseError → Loop Parse ParseError
  | .running s => if n ≤ s.p.length then .stopped s else .running s
  | .stopped s => .stopped s
  | .failed e => .failed e

/-- One round of the loop. -/
def Parse.body (n : ℕ) (s : Parse) (c : UInt8) : Loop Parse ParseError := checkRoom n (s.step c)

/-- What is reported after the loop. -/
def Parse.close (s : Parse) : Except ParseError (List Bytes) :=
  match s.state with
  | .initial => .ok s.p
  | .readingQuotedParm => .error .noClosingQuotation
  | .readingSquotedParm => .error .noClosingSingleQuotation
  | _ => .error .residualParseState

def finish : Loop Parse ParseError → Except ParseError (List Bytes)
  | .running s => s.close
  | .stopped s => s.close
  | .failed e => .error e

/-- `parse_line` into `n` parameters. -/
def parseLine (n : ℕ) (line : Bytes) : Except ParseError (List Bytes) :=
  finish (loop (Parse.body n) {} (line ++ [0]))

/-! ## One character -/

@[simp] theorem Parse.put_zero (s : Parse) : s.put 0 = s := rfl

theorem Parse.put_of_ne {s : Parse} {out : UInt8} (h : out ≠ 0) :
    s.put out = { s with parm := s.parm ++ [out] } := by
  simp [Parse.put, h]

@[simp] theorem Parse.put_p (s : Parse) (out : UInt8) : (s.put out).p = s.p := by
  unfold Parse.put
  split_ifs <;> rfl

@[simp] theorem Parse.put_state (s : Parse) (out : UInt8) : (s.put out).state = s.state := by
  unfold Parse.put
  split_ifs <;> rfl

theorem Parse.enter_of_ne {s : Parse} {state : ParmState} (h : state ≠ .done) :
    s.enter state = { s with state := state } := if_neg h

/-- The output is the input character or nothing. -/
theorem Parse.read_out {s : Parse} {c out : UInt8} {state : ParmState}
    (h : s.read c = some (state, out)) : out = 0 ∨ out = c := by
  unfold Parse.read at h
  split at h <;> (try split_ifs at h) <;>
    simp only [Option.some.injEq, Prod.mk.injEq] at h <;>
    first
    | exact .inl h.2.symm
    | exact .inr h.2.symm

theorem Parse.store_of_lt {s : Parse} {out : UInt8}
    (hl : out ≠ 0 → s.parm.length < optionParmSize) : s.store out = .running (s.put out) := by
  unfold Parse.store
  rw [if_neg (by simpa using hl)]

theorem Parse.step_of_escapes {s : Parse} {c : UInt8} (h : s.escapes c = true) :
    s.step c = .running (s.setBackslash true) := by
  unfold Parse.step
  rw [if_pos h]
  rfl

theorem Parse.escapes_zero (s : Parse) : s.escapes 0 = false := by
  simp [Parse.escapes, show ((0 : UInt8) == '\\'.toUInt8) = false from rfl]

theorem Parse.step_of_not_escapes {s : Parse} {c : UInt8} (h : s.escapes c = false)
    (hl : c ≠ 0 → s.parm.length < optionParmSize) :
    s.step c =
      match s.read c with
      | none => .stopped s
      | some (state, out) =>
        if badBackslash s.backslash out then .failed .badBackslash
        else .running (((s.enter state).setBackslash false).put out) := by
  unfold Parse.step
  rw [if_neg (by simp [h])]
  rcases hr : s.read c with _ | ⟨state, out⟩
  · rfl
  · have hl' : out ≠ 0 → (s.enter state).parm.length < optionParmSize := by
      intro ho
      rcases Parse.read_out hr with h0 | rfl
      · exact absurd h0 ho
      · unfold Parse.enter
        split_ifs
        · exact (by decide : 0 < optionParmSize)
        · exact hl ho
    dsimp only
    rw [Parse.store_of_lt (s := (s.enter state).setBackslash false) hl']

/-- A parameter is added only on the way back to `STATE_INITIAL`. -/
theorem Parse.step_p {s s' : Parse} {c : UInt8} (h : s.step c = .running s') :
    s'.p = s.p ∨ s'.state = .initial := by
  cases he : s.escapes c with
  | true =>
    rw [Parse.step_of_escapes he, Loop.running.injEq] at h
    exact .inl (h ▸ rfl)
  | false =>
    unfold Parse.step at h
    rw [if_neg (by simp [he])] at h
    rcases hr : s.read c with _ | ⟨state, out⟩ <;> rw [hr] at h
    · cases h
    · dsimp only [Parse.store] at h
      split_ifs at h
      obtain rfl := Loop.running.inj h
      by_cases hd : state = .done
      · subst hd
        exact .inr (Parse.put_state _ _)
      · rw [Parse.put_p, Parse.enter_of_ne hd]
        exact .inl rfl

end VpnCore.Options
