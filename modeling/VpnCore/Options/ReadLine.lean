import Mathlib.Data.List.TakeWhile
import VpnCore.Options.ReadConfig

/-!
# VpnCore.Options.ReadLine — the reader from the beginning of a line

What was seen before does not change what the reader sees next (`lineStart_after`).  A line without a NUL
that fits into the buffer is taken as a whole (`after_line`).
-/

namespace VpnCore.Options

/-! ## Reading from the beginning of a line -/

/-- At the beginning of a line that is not the first, outside of inline files. -/
def lineStart (seen : List Seen) : Reader := { seen := seen, firstLine := false }

/-- The reader with more seen before. -/
def Reader.behind (r : Reader) (s : List Seen) : Reader := { r with seen := s ++ r.seen }

theorem step_complete {r : Reader} {c : UInt8}
    (h : c = newline ∨ (r.line ++ [c]).length = r.room) : r.step c = (r.store c).take := if_pos h

theorem step_incomplete {r : Reader} {c : UInt8}
    (h : ¬ (c = newline ∨ (r.line ++ [c]).length = r.room)) : r.step c = r.store c := if_neg h

theorem readLine_behind (r : Reader) (s : List Seen) (line : Bytes) :
    (r.behind s).readLine line = (r.readLine line).behind s := by
  simp only [Reader.readLine, Reader.behind, List.append_assoc]
  rfl

theorem readInline_behind (r : Reader) (s : List Seen) (b : Block) (line : Bytes) :
    (r.behind s).readInline b line = (r.readInline b line).behind s := by
  unfold Reader.readInline
  by_cases h : closes b.tag line = true
  · rw [if_pos h, if_pos h]
    simp only [Reader.behind, List.append_assoc]
  · rw [if_neg h, if_neg h]
    rfl

theorem take_behind (r : Reader) (s : List Seen) : (r.behind s).take = r.take.behind s := by
  unfold Reader.take
  cases hb : r.block with
  | none =>
    rw [show (r.behind s).block = none from hb]
    exact readLine_behind r s _
  | some b =>
    rw [show (r.behind s).block = some b from hb]
    exact readInline_behind r s b _

theorem step_behind (r : Reader) (s : List Seen) (c : UInt8) :
    (r.behind s).step c = (r.step c).behind s := by
  by_cases h : c = newline ∨ (r.line ++ [c]).length = r.room
  · rw [step_complete h, step_complete (r := r.behind s) h]
    exact take_behind (r.store c) s
  · rw [step_incomplete h, step_incomplete (r := r.behind s) h]
    rfl

theorem after_behind (bs : Bytes) (r : Reader) (s : List Seen) :
    (r.behind s).after bs = (r.after bs).behind s := by
  induction bs generalizing r with
  | nil => rfl
  | cons c bs ih =>
    change ((r.behind s).step c).after bs = ((r.step c).after bs).behind s
    rw [step_behind, ih]

theorem after_append (r : Reader) (a b : Bytes) : r.after (a ++ b) = (r.after a).after b :=
  List.foldl_append ..

/-- What was seen stays. -/
theorem seen_prefix_after (r : Reader) (bs : Bytes) : r.seen <+: (r.after bs).seen := by
  have h := after_behind bs { r with seen := [] } r.seen
  have hr : ({ r with seen := [] } : Reader).behind r.seen = r := by
    simp [Reader.behind]
  rw [hr] at h
  rw [h]
  exact List.prefix_append _ _

theorem lineStart_after (s : List Seen) (bs : Bytes) :
    (lineStart s).after bs = ((lineStart []).after bs).behind s := by
  rw [← after_behind]
  simp [lineStart, Reader.behind]

/-! ## A line -/

theorem cstring_of_not_mem {line : Bytes} (h : 0 ∉ line) : cstring line = line := by
  unfold cstring
  rw [List.takeWhile_eq_self_iff]
  intro c hc
  exact bne_iff_ne.mpr fun h0 => h (h0 ▸ hc)

/-- Bytes that leave the buffer incomplete. -/
theorem after_incomplete : ∀ (bs : Bytes) (r : Reader), newline ∉ bs →
    r.line.length + bs.length < r.room → r.after bs = { r with line := r.line ++ bs }
  | [], r, _, _ => by simp [Reader.after]
  | c :: bs, r, hn, hl => by
    rw [List.mem_cons, not_or] at hn
    rw [List.length_cons] at hl
    have hstep : r.step c = r.store c := by
      refine step_incomplete ?_
      rintro (rfl | h)
      · exact hn.1 rfl
      · rw [List.length_append, List.length_singleton] at h
        omega
    have hrest := after_incomplete bs (r.store c) hn.2 (by
      change (r.line ++ [c]).length + bs.length < r.room
      rw [List.length_append, List.length_singleton]
      omega)
    change (r.step c).after bs = _
    rw [hstep, hrest]
    simp [Reader.store]

/-- The byte that completes the buffer. -/
theorem after_complete {r : Reader} {bs : Bytes} {c : UInt8} (hn : newline ∉ bs)
    (hl : r.line.length + bs.length < r.room)
    (hc : c = newline ∨ r.line.length + bs.length + 1 = r.room) :
    r.after (bs ++ [c]) = ({ r with line := r.line ++ bs ++ [c] } : Reader).take := by
  rw [after_append, after_incomplete bs r hn hl]
  refine step_complete ?_
  rcases hc with hc | hc
  · exact .inl hc
  · refine .inr ?_
    simp only [List.length_append, List.length_singleton]
    exact hc

/-- Outside of inline files, with a buffer that is not empty. -/
def midLine (bs : Bytes) : Reader := { firstLine := false, line := bs }

theorem midLine_take (bs : Bytes) (h0 : 0 ∉ bs) :
    (midLine bs).take =
      { seen := (if bs.length = optionLineSize then [Seen.msg] else []) ++ (entry bs).seen,
        firstLine := false, line := [], block := (entry bs).block } := by
  simp only [Reader.take, midLine, cstring_of_not_mem h0, Reader.readLine, List.nil_append,
    Bool.false_and, Bool.false_eq_true, if_false]

theorem zero_not_mem_snoc {line : Bytes} (h0 : 0 ∉ line) : 0 ∉ line ++ [newline] := by
  rw [List.mem_append, List.mem_singleton]
  rintro (h | h)
  · exact h0 h
  · cases h

/-- A line that is short enough. -/
theorem after_line {line : Bytes} (hn : newline ∉ line) (h0 : 0 ∉ line)
    (hl : line.length + 1 < optionLineSize) :
    (lineStart []).after (line ++ [newline]) =
      { seen := (entry (line ++ [newline])).seen, firstLine := false,
        block := (entry (line ++ [newline])).block } := by
  have hlen : (line ++ [newline]).length ≠ optionLineSize := by
    rw [List.length_append, List.length_singleton]
    omega
  rw [after_complete hn (by change 0 + line.length < optionLineSize; omega) (.inl rfl)]
  change (midLine (line ++ [newline])).take = _
  rw [midLine_take _ (zero_not_mem_snoc h0), if_neg hlen]
  rfl

/-! ## The name of an option -/

theorem bypassDoubledash_of_head {p : Bytes} (h : p.head? ≠ some '-'.toUInt8) :
    bypassDoubledash p = p := by
  refine if_neg ?_
  rintro ⟨-, t, rfl⟩
  exact h rfl

end VpnCore.Options
