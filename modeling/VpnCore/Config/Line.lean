import VpnCore.Lib.Loop

/-!
# VpnCore.Config.Line — `ConfigParser.parseline`

The Java port of OpenVPN's line parser.  Strings are lists of characters; the loop reads a NUL
after the last character of the line.
-/

namespace VpnCore.Config

open VpnCore.Lib

abbrev Text := List Char

/-- How a method of `ConfigParser` can end if it does not return a value. -/
inductive Thrown
  | configParseError (msg : Text)
  /-- an unchecked exception, by its class -/
  | runtimeException (cls : Text)
  /-- nothing is thrown, the method does not end -/
  | endless
  deriving DecidableEq, Repr

/-- `Character.isWhitespace`: the separators of Unicode but the non-breaking ones, and the control
characters that separate. -/
def isWhitespace (c : Char) : Bool :=
  let n := c.toNat
  n == 0x20 || (0x09 ≤ n && n ≤ 0x0d) || (0x1c ≤ n && n ≤ 0x1f) || n == 0x1680 ||
    (0x2000 ≤ n && n ≤ 0x200a && n != 0x2007) || n == 0x2028 || n == 0x2029 || n == 0x205f ||
    n == 0x3000

def space (c : Char) : Bool := isWhitespace c || c == '\x00'

/-- `linestate` -/
inductive LineState
  | initial
  | readinSingleQuote
  | readingQuoted
  | readingUnquoted
  | done
  deriving DecidableEq, Repr

/-- The variables of the loop.  Unlike in the C original `out` is not cleared by an iteration. -/
structure Line where
  parameters : List Text := []
  state : LineState := .initial
  backslash : Bool := false
  out : Char := '\x00'
  currentarg : Text := []
  deriving DecidableEq, Repr

/-- The state and the output character after `c`; `none` is the `break` at a comment. -/
def Line.read (s : Line) (c : Char) : Option (LineState × Char) :=
  match s.state with
  | .initial =>
    if !space c then
      if c == ';' || c == '#' then none
      else if !s.backslash && c == '"' then some (.readingQuoted, s.out)
      else if !s.backslash && c == '\'' then some (.readinSingleQuote, s.out)
      else some (.readingUnquoted, c)
    else some (.initial, s.out)
  | .readingUnquoted =>
    if !s.backslash && space c then some (.done, s.out) else some (.readingUnquoted, c)
  | .readingQuoted =>
    if !s.backslash && c == '"' then some (.done, s.out) else some (.readingQuoted, c)
  | .readinSingleQuote =>
    if c == '\'' then some (.done, s.out) else some (.readinSingleQuote, c)
  | .done => some (.done, s.out)

/-- `done` moves the argument to `parameters` and clears `out`. -/
def Line.enter (s : Line) (state : LineState) : Line :=
  if state = .done then
    { s with
      state := .initial, parameters := s.parameters ++ [s.currentarg], currentarg := [],
      out := '\x00' }
  else { s with state := state }

def Line.store (s : Line) : Line :=
  if s.out != '\x00' then { s with currentarg := s.currentarg ++ [s.out] } else s

def badBackslashError : Thrown :=
  .configParseError "Options warning: Bad backslash ('\\') usage".toList

/-- A backslash that starts an escape. -/
def Line.escapes (s : Line) (c : Char) : Bool :=
  !s.backslash && c == '\\' && s.state != .readinSingleQuote

def badBackslash (backslash : Bool) (out : Char) : Bool :=
  backslash && out != '\x00' && !(out == '\\' || out == '"' || space out)

def Line.setBackslash (s : Line) (b : Bool) : Line := { s with backslash := b }

def Line.setOut (s : Line) (out : Char) : Line := { s with out := out }

/-- The body of the `do` loop. -/
def Line.body (s : Line) (c : Char) : Loop Line Thrown :=
  if s.escapes c then .running (s.setBackslash true).store
  else
    match s.read c with
    | none => .stopped s
    | some (state, out) =>
      let s' := (s.setOut out).enter state
      if badBackslash s.backslash s'.out then .failed badBackslashError
      else .running (s'.setBackslash false).store

/-- `ConfigParser.parseline`. -/
def parseline (line : Text) : Except Thrown (List Text) :=
  if line.length = 0 then .ok []
  else
    match loop Line.body {} (line ++ ['\x00']) with
    | .running s => .ok s.parameters
    | .stopped s => .ok s.parameters
    | .failed e => .error e

end VpnCore.Config
