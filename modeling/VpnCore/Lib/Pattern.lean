import Mathlib.Data.List.TakeWhile
import Mathlib.Tactic

/-!
# VpnCore.Lib.Pattern — a backtracking matcher with groups

A pattern is a sequence of pieces, each of which repeats a class of characters.  `fullMatch` takes the
whole text: every piece tries its longest run first and gives characters back if the pieces after it
fail.  A group around a repetition holds what all rounds took, a repeated group only what the last round
took.
-/

namespace VpnCore.Lib

inductive Repeat
  | one
  | plus
  | star
  deriving DecidableEq

inductive Capture
  | nothing
  /-- `(x+)` -/
  | rounds
  /-- `(x)+` -/
  | lastRound
  deriving DecidableEq

structure Piece where
  chars : Char → Bool
  rep : Repeat := .one
  capture : Capture := .nothing

/-- The lengths of the runs it can take, in the order in which it tries them. -/
def Piece.runs (p : Piece) (s : List Char) : List ℕ :=
  let longest := (s.takeWhile p.chars).length
  match p.rep with
  | .one => if longest = 0 then [] else [1]
  | .plus => (List.range' 1 longest).reverse
  | .star => (List.range (longest + 1)).reverse

def Piece.groups (p : Piece) (run : List Char) : List (List Char) :=
  match p.capture with
  | .nothing => []
  | .rounds => [run]
  | .lastRound => [run.getLast?.toList]

/-- The groups of the first match of the whole text. -/
def fullMatch : List Piece → List Char → Option (List (List Char))
  | [], s => if s = [] then some [] else none
  | p :: ps, s =>
    (p.runs s).findSome? fun n => (fullMatch ps (s.drop n)).map (p.groups (s.take n) ++ ·)

variable {p : Piece} {ps : List Piece} {run rest : List Char} {groups : List (List Char)}

/-- **The longest run.**  If the rest matches after it, no other one is tried. -/
theorem fullMatch_longest (hrun : (p.runs (run ++ rest)).head? = some run.length)
    (hrest : fullMatch ps rest = some groups) :
    fullMatch (p :: ps) (run ++ rest) = some (p.groups run ++ groups) := by
  obtain ⟨more, hmore⟩ := List.head?_eq_some_iff.1 hrun
  rw [fullMatch, hmore, List.findSome?_cons, List.drop_left, List.take_left, hrest]
  rfl

theorem fullMatch_no_run {s : List Char} (h : p.runs s = []) : fullMatch (p :: ps) s = none := by
  rw [fullMatch, h, List.findSome?_nil]

/-- A run that the next character ends. -/
theorem takeWhile_run {q : Char → Bool} (hrun : ∀ c ∈ run, q c = true)
    (hrest : ∀ c ∈ rest.head?, q c = false) : (run ++ rest).takeWhile q = run := by
  rw [List.takeWhile_append_of_pos hrun]
  cases rest with
  | nil => simp
  | cons c rest => simp [hrest c rfl]

theorem head?_runs_plus (hp : p.rep = .plus) (hne : run ≠ []) (hrun : ∀ c ∈ run, p.chars c = true)
    (hrest : ∀ c ∈ rest.head?, p.chars c = false) :
    (p.runs (run ++ rest)).head? = some run.length := by
  have hpos := List.length_pos_iff.2 hne
  simp only [Piece.runs, hp, takeWhile_run hrun hrest, List.head?_reverse, List.getLast?_range']
  rw [if_neg (by omega)]
  congr 1
  omega

variable {chars : Char → Bool}

/-- `(x+)` -/
theorem fullMatch_rounds (hne : run ≠ []) (hrun : ∀ c ∈ run, chars c = true)
    (hrest : ∀ c ∈ rest.head?, chars c = false) (h : fullMatch ps rest = some groups) :
    fullMatch (⟨chars, .plus, .rounds⟩ :: ps) (run ++ rest) = some (run :: groups) :=
  fullMatch_longest (head?_runs_plus rfl hne hrun hrest) h

/-- `(x)+` -/
theorem fullMatch_lastRound {c : Char} (hlast : run.getLast? = some c)
    (hrun : ∀ c ∈ run, chars c = true) (hrest : ∀ c ∈ rest.head?, chars c = false)
    (h : fullMatch ps rest = some groups) :
    fullMatch (⟨chars, .plus, .lastRound⟩ :: ps) (run ++ rest) = some ([c] :: groups) := by
  have hne : run ≠ [] := by
    rintro rfl
    cases hlast
  have hmatch := fullMatch_longest (p := ⟨chars, .plus, .lastRound⟩)
    (head?_runs_plus rfl hne hrun hrest) h
  rw [Piece.groups, hlast] at hmatch
  exact hmatch

/-- `x` -/
theorem fullMatch_one {c : Char} (hc : chars c = true) (h : fullMatch ps rest = some groups) :
    fullMatch (⟨chars, .one, .nothing⟩ :: ps) (c :: rest) = some groups := by
  refine fullMatch_longest (p := ⟨chars, .one, .nothing⟩) (?_ : (Piece.runs _ ([c] ++ rest)).head? = _) h
  simp [Piece.runs, List.takeWhile_cons_of_pos hc]

/-- `(x*)` at the end of the pattern. -/
theorem fullMatch_end (hrun : ∀ c ∈ run, chars c = true) :
    fullMatch [⟨chars, .star, .rounds⟩] run = some [run] := by
  have hlongest : (Piece.runs ⟨chars, .star, .rounds⟩ (run ++ [])).head? = some run.length := by
    have htake : (run ++ []).takeWhile chars = run := takeWhile_run hrun (by simp)
    simp only [Piece.runs, htake, List.head?_reverse, List.getLast?_range]
    rw [if_neg (by omega)]
    rfl
  have hmatch := fullMatch_longest hlongest (show fullMatch [] [] = some [] from rfl)
  rwa [List.append_nil] at hmatch

end VpnCore.Lib
