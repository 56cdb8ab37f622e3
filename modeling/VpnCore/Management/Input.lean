import VpnCore.Config.Strings
import VpnCore.Lib.Decode
import VpnCore.Lib.Runs
import VpnCore.Lib.Separated

/-!
# VpnCore.Management.Input — the lines of the management socket

`OpenVpnManagementThread.run` reads up to 2048 bytes at a time, decodes each read by itself, appends
the text to `pendingInput` and hands every complete line to `processCommand`, which may throw and end the
thread.  Where the lines end does not depend on the reads (`hasRead_run`); the characters do: the lines are
those of the stream exactly when no character is divided between two reads and no line makes
`processCommand` throw (`lines_iff_whole`).
-/

namespace VpnCore.Management

open VpnCore.Lib

open Config (Text Thrown parseLong startsWith stringIndexOutOfBoundsException)

/-! ## The reader -/

/-- The first line end, CR LF or LF: the text before it and the text after it. -/
def splitEol : Text → Option (Text × Text)
  | [] => none
  | c :: t =>
    if c = '\r' ∧ t.head? = some '\n' then some ([], t.tail)
    else if c = '\n' then some ([], t)
    else (splitEol t).map fun p => (c :: p.1, p.2)

/-- `pendingInput.split("\\r?\\n", 2)` -/
def tokens (pendingInput : Text) : List Text :=
  match splitEol pendingInput with
  | none => [pendingInput]
  | some (line, rest) => [line, rest]

theorem splitEol_length : ∀ {t line rest : Text}, splitEol t = some (line, rest) →
    rest.length < t.length
  | [], _, _, h => by cases h
  | c :: t, line, rest, h => by
    rw [splitEol] at h
    split_ifs at h with hcr hlf
    · cases h
      rw [List.length_tail, List.length_cons]
      omega
    · cases h
      exact Nat.lt_succ_self _
    · obtain ⟨⟨line', rest'⟩, hsplit, heq⟩ := Option.map_eq_some_iff.1 h
      cases heq
      exact (splitEol_length hsplit).trans (Nat.lt_succ_self _)

theorem tokens_length {t line rest : Text} {more : List Text} (h : tokens t = line :: rest :: more) :
    rest.length < t.length := by
  unfold tokens at h
  split at h
  · cases h
  · rename_i hsplit
    cases h
    exact splitEol_length hsplit

section

variable {σ ε : Type} (processCommand : σ → Text → Except ε σ)

/-- The lines handed to `processCommand`, and what is left.  What `processCommand` throws ends the loop. -/
def processInput (h : σ) (pendingInput : Text) : List Text × Except ε (σ × Text) :=
  if '\n' ∈ pendingInput then
    match heq : tokens pendingInput with
    | [] => ([], .ok (h, pendingInput))  -- `split` gives a token at least
    | [line] => ([line], (processCommand h line).map (·, []))
    | line :: rest :: _ =>
      have := tokens_length heq
      match processCommand h line with
      | .error e => ([line], .error e)
      | .ok h => (line :: (processInput h rest).1, (processInput h rest).2)
  else ([], .ok (h, pendingInput))
termination_by pendingInput.length

/-- The loop of `run`: what is pending, the strings that were given to `processCommand`, and what it has made
of them.  After an exception the thread is at its end. -/
structure Reader (σ ε : Type) where
  pendingInput : Text := []
  commands : List Text := []
  handler : Except ε σ

/-- One read. -/
def Reader.read (s : Reader σ ε) (buffer : List UInt8) : Reader σ ε :=
  match s.handler with
  | .error _ => s
  | .ok h =>
    let pendingInput := s.pendingInput ++ decode buffer
    let done := processInput processCommand h pendingInput
    match done.2 with
    | .ok (h, rest) => { pendingInput := rest, commands := s.commands ++ done.1, handler := .ok h }
    -- `pendingInput = processInput(pendingInput)` is not reached
    | .error e => { pendingInput, commands := s.commands ++ done.1, handler := .error e }

end

/-! ## The lines of a text -/

/-- A line without the CR of its line end. -/
def chomp (line : Text) : Text := if line.getLast? = some '\r' then line.dropLast else line

/-- The complete lines of a text. -/
def lines (t : Text) : List Text := (t.splitOn '\n').dropLast.map chomp

/-- What stands after its last line end. -/
def rest (t : Text) : Text := (t.splitOn '\n').getLast (List.splitOn_ne_nil '\n' t)

theorem lines_free {t : Text} (h : '\n' ∉ t) : lines t = [] := by
  rw [lines, List.splitOn_eq_singleton h, List.dropLast_singleton, List.map_nil]

theorem rest_free {t : Text} (h : '\n' ∉ t) : rest t = t := by
  simp only [rest, List.splitOn_eq_singleton h, List.getLast_singleton]

theorem lines_cons {a : Text} (h : '\n' ∉ a) (b : Text) :
    lines (a ++ '\n' :: b) = chomp a :: lines b := by
  rw [lines, List.splitOn_append_cons_self_of_not_mem h,
    List.dropLast_cons_of_ne_nil (List.splitOn_ne_nil '\n' b), List.map_cons, lines]

theorem rest_cons {a : Text} (h : '\n' ∉ a) (b : Text) : rest (a ++ '\n' :: b) = rest b := by
  simp only [rest, List.splitOn_append_cons_self_of_not_mem h,
    List.getLast_cons (List.splitOn_ne_nil '\n' b)]

/-- A text has no line end, or a first one. -/
theorem first_line (P : Text → Prop) (hfree : ∀ t, '\n' ∉ t → P t)
    (hline : ∀ a b, '\n' ∉ a → P b → P (a ++ '\n' :: b)) (t : Text) : P t := by
  induction hn : t.length using Nat.strong_induction_on generalizing t with
  | _ n ih =>
    by_cases hmem : '\n' ∈ t
    · obtain ⟨a, b, rfl, ha⟩ := List.eq_append_cons_of_mem hmem
      rw [List.length_append, List.length_cons] at hn
      exact hline a b ha (ih b.length (by omega) b rfl)
    · exact hfree t hmem

/-- The end of a text decides on its lines only through what the rest before it is. -/
theorem lines_append (a b : Text) :
    lines (a ++ b) = lines a ++ lines (rest a ++ b) ∧ rest (a ++ b) = rest (rest a ++ b) := by
  induction a using first_line with
  | hfree a ha => rw [lines_free ha, rest_free ha, List.nil_append]; exact ⟨rfl, rfl⟩
  | hline x y hx ih =>
    rw [List.append_assoc, List.cons_append, lines_cons hx, lines_cons hx, rest_cons hx, rest_cons hx,
      ih.1, ih.2, List.cons_append]
    exact ⟨rfl, rfl⟩

/-! ## The reader finds them -/

theorem splitEol_line : ∀ {a : Text}, '\n' ∉ a → ∀ b, splitEol (a ++ '\n' :: b) = some (chomp a, b)
  | [], _, b => by simp [splitEol, chomp]
  | [c], h, b => by
    have hc : c ≠ '\n' := fun hc => h (hc ▸ List.mem_cons_self)
    by_cases hcr : c = '\r'
    · simp [splitEol, chomp, hcr]
    · simp [splitEol, chomp, hcr, hc]
  | c :: d :: a, h, b => by
    have hc : c ≠ '\n' := fun hc => h (hc ▸ List.mem_cons_self)
    have hrest : '\n' ∉ d :: a := fun hm => h (List.mem_cons_of_mem c hm)
    have hd : d ≠ '\n' := fun hd => hrest (hd ▸ List.mem_cons_self)
    have hchomp : chomp (c :: d :: a) = c :: chomp (d :: a) := by
      unfold chomp
      rw [List.getLast?_cons_cons]
      split_ifs <;> rfl
    rw [List.cons_append, splitEol, splitEol_line hrest b, hchomp, if_neg, if_neg hc]
    · rfl
    · rintro ⟨-, hhead⟩
      exact hd (Option.some.inj hhead)

section

variable {σ ε : Type} (processCommand : σ → Text → Except ε σ)

/-- Lines that are handed out one after the other, up to the first that makes `processCommand` throw. -/
def handOut (h : σ) : List Text → List Text × Except ε σ
  | [] => ([], .ok h)
  | line :: lines =>
    match processCommand h line with
    | .error e => ([line], .error e)
    | .ok h => (line :: (handOut h lines).1, (handOut h lines).2)

variable {processCommand}

theorem handOut_append_error {h : σ} {a : List Text} {e : ε}
    (herror : (handOut processCommand h a).2 = .error e) (b : List Text) :
    handOut processCommand h (a ++ b) = handOut processCommand h a := by
  induction a generalizing h with
  | nil => cases herror
  | cons line a ih =>
    rw [List.cons_append, handOut, handOut]
    rw [handOut] at herror
    cases hline : processCommand h line with
    | error e' => rfl
    | ok h₁ =>
      rw [hline] at herror
      dsimp only
      rw [ih herror]

theorem handOut_append_ok {h h' : σ} {a : List Text} (hok : (handOut processCommand h a).2 = .ok h')
    (b : List Text) :
    handOut processCommand h (a ++ b) =
      (a ++ (handOut processCommand h' b).1, (handOut processCommand h' b).2) := by
  induction a generalizing h with
  | nil =>
    cases hok
    rfl
  | cons line a ih =>
    rw [List.cons_append, handOut]
    rw [handOut] at hok
    cases hline : processCommand h line with
    | error e =>
      rw [hline] at hok
      cases hok
    | ok h₁ =>
      rw [hline] at hok
      dsimp only
      rw [ih hok]
      rfl

theorem handOut_foldlM (h : σ) (ls : List Text) :
    (handOut processCommand h ls).2 = ls.foldlM processCommand h := by
  induction ls generalizing h with
  | nil => rfl
  | cons line ls ih =>
    rw [handOut, List.foldlM_cons]
    cases processCommand h line with
    | error e => rfl
    | ok h₁ => exact ih h₁

/-- Without an exception all lines are handed out. -/
theorem handOut_ok {h h' : σ} {ls : List Text} (hok : (handOut processCommand h ls).2 = .ok h') :
    handOut processCommand h ls = (ls, .ok h') := by
  have happend := handOut_append_ok hok []
  rwa [List.append_nil, handOut, List.append_nil] at happend

theorem processInput_eq (h : σ) (t : Text) : processInput processCommand h t =
    ((handOut processCommand h (lines t)).1, (handOut processCommand h (lines t)).2.map (·, rest t)) := by
  induction t using first_line generalizing h with
  | hfree t ht =>
    rw [processInput, if_neg ht, lines_free ht, rest_free ht]
    rfl
  | hline a b ha ih =>
    have htokens : tokens (a ++ '\n' :: b) = [chomp a, b] := by
      rw [tokens, splitEol_line ha b]
    rw [processInput, if_pos (by simp), lines_cons ha, rest_cons ha, handOut]
    split
    · simp_all
    · simp_all
    · rename_i heq
      rw [htokens] at heq
      cases heq
      cases processCommand h (chomp a) with
      | error e => rfl
      | ok h₁ =>
        dsimp only
        rw [ih]

/-- The thread has read the text: it has handed out the lines, and keeps what stands after them, or has ended
with a line that is still pending. -/
structure HasRead (processCommand : σ → Text → Except ε σ) (h : σ) (t : Text) (s : Reader σ ε) : Prop where
  commands : s.commands = (handOut processCommand h (lines t)).1
  handler : s.handler = (handOut processCommand h (lines t)).2
  pending : ∀ h', s.handler = .ok h' → s.pendingInput = rest t
  ended : ∀ e, s.handler = .error e → '\n' ∈ s.pendingInput

/-- One read goes on in the text. -/
theorem HasRead.read {h : σ} {t : Text} {s : Reader σ ε} (hs : HasRead processCommand h t s)
    (buffer : List UInt8) :
    HasRead processCommand h (t ++ decode buffer) (s.read processCommand buffer) := by
  obtain ⟨hlines, hrest⟩ := lines_append t (decode buffer)
  cases hhandler : s.handler with
  | error e =>
    have hend := handOut_append_error (hs.handler.symm.trans hhandler) (lines (rest t ++ decode buffer))
    rw [← hlines] at hend
    have hread : s.read processCommand buffer = s := by
      rw [Reader.read, hhandler]
    rw [hread]
    refine ⟨hend ▸ hs.commands, hend ▸ hs.handler, fun h' hok => ?_, hs.ended⟩
    rw [hhandler] at hok
    cases hok
  | ok h' =>
    have hok := hs.handler.symm.trans hhandler
    have hdone := handOut_append_ok hok (lines (rest t ++ decode buffer))
    rw [← hlines] at hdone
    have hcommands := hs.commands
    rw [handOut_ok hok] at hcommands
    rw [Reader.read, hhandler]
    simp only [hs.pending h' hhandler, hcommands, processInput_eq]
    cases hnew : (handOut processCommand h' (lines (rest t ++ decode buffer))).2 with
    | ok h₁ =>
      refine ⟨by rw [hdone]; rfl, by rw [hdone, hnew]; rfl, fun _ _ => hrest.symm, fun e herror => ?_⟩
      cases herror
    | error e =>
      refine ⟨by rw [hdone]; rfl, by rw [hdone, hnew]; rfl, fun _ herror => ?_, fun _ _ => ?_⟩
      · cases herror
      · by_contra hfree
        change '\n' ∉ rest t ++ decode buffer at hfree
        rw [lines_free hfree] at hnew
        cases hnew

/-- **The reads decide on the characters only.** -/
theorem hasRead_run (h : σ) : ∀ (reads : List (List UInt8)) {t : Text} {s : Reader σ ε},
    HasRead processCommand h t s →
      HasRead processCommand h (t ++ reads.flatMap decode) (run (Reader.read processCommand) s reads)
  | [], t, s, hs => by rwa [run_nil, List.flatMap_nil, List.append_nil]
  | r :: reads, t, s, hs => by
    rw [run_cons, List.flatMap_cons, ← List.append_assoc]
    exact hasRead_run h reads (hs.read r)

end

/-! ## Divisions of a stream -/

/-- A stream of UTF-8 text, divided into consecutive reads of the buffer. -/
structure Division where
  text : Text
  reads : List (List UInt8)
  flatten_eq : reads.flatten = encode text
  sizes : ∀ r ∈ reads, 1 ≤ r.length ∧ r.length ≤ 2048

/-- The thread after the reads. -/
def Division.reader {σ ε : Type} (d : Division) (processCommand : σ → Text → Except ε σ) (h : σ) :
    Reader σ ε :=
  run (Reader.read processCommand) { handler := .ok h } d.reads

/-- No character is divided between two reads. -/
def Division.Whole (d : Division) : Prop := ∀ r ∈ d.reads, ∃ u, r = encode u

theorem decode_whole : ∀ {reads : List (List UInt8)}, (∀ r ∈ reads, ∃ u, r = encode u) →
    reads.flatMap decode = decode reads.flatten
  | [], _ => rfl
  | r :: reads, h => by
    obtain ⟨u, rfl⟩ := h r List.mem_cons_self
    rw [List.flatMap_cons, List.flatten_cons, decode_encode_append, decode_encode,
      decode_whole fun r hr => h r (List.mem_cons_of_mem _ hr)]

/-- The characters that are not part of a line end. -/
def ordinary (c : Char) : Bool := c != '\r' && c != '\n'

theorem countP_chomp (line : Text) : (chomp line).countP ordinary = line.countP ordinary := by
  unfold chomp
  split_ifs with h
  · obtain ⟨init, rfl⟩ := List.getLast?_eq_some_iff.1 h
    rw [List.dropLast_concat, List.countP_append]
    rfl
  · rfl

/-- They all stand in the lines or in the rest. -/
theorem countP_lines (t : Text) :
    t.countP ordinary = ((lines t).map (List.countP ordinary)).sum + (rest t).countP ordinary := by
  induction t using first_line with
  | hfree t ht => rw [lines_free ht, rest_free ht, List.map_nil, List.sum_nil, Nat.zero_add]
  | hline a b ha ih =>
    rw [lines_cons ha, rest_cons ha, List.countP_append,
      List.countP_cons_of_neg (show ¬ ordinary '\n' = true by decide), List.map_cons, List.sum_cons,
      countP_chomp, ih, Nat.add_assoc]

theorem newline_not_mem_rest (t : Text) : '\n' ∉ rest t := by
  induction t using first_line with
  | hfree t ht => rwa [rest_free ht]
  | hline a b ha ih => rwa [rest_cons ha]

/-- **The lines of the stream.**  The thread hands out the lines of the decoded stream and keeps what
stands after the last of them, exactly when no character is divided and no line makes `processCommand`
throw. -/
theorem lines_iff_whole {σ ε : Type} (d : Division) (processCommand : σ → Text → Except ε σ) (h : σ) :
    (d.reader processCommand h).commands = lines d.text ∧
        (d.reader processCommand h).pendingInput = rest d.text ↔
      d.Whole ∧ ∃ h', (lines d.text).foldlM processCommand h = .ok h' := by
  have hstart : HasRead processCommand h [] { handler := .ok h } :=
    ⟨rfl, rfl, fun _ _ => rfl, fun _ herror => by cases herror⟩
  have hrun : HasRead processCommand h (d.reads.flatMap decode) (d.reader processCommand h) :=
    hasRead_run h d.reads hstart
  constructor
  · rintro ⟨hcommands, hpending⟩
    cases hhandler : (d.reader processCommand h).handler with
    | error e =>
      exact absurd (hpending ▸ hrun.ended e hhandler) (newline_not_mem_rest d.text)
    | ok h' =>
      have hok := hrun.handler.symm.trans hhandler
      have hlines : lines d.text = lines (d.reads.flatMap decode) := by
        rw [← hcommands, hrun.commands, handOut_ok hok]
      have hrest := hrun.pending h' hhandler
      rw [hpending] at hrest
      have hcount : (d.reads.flatMap decode).countP ordinary = d.text.countP ordinary := by
        rw [countP_lines, ← hlines, ← hrest, ← countP_lines]
      rw [← hlines, handOut_foldlM] at hok
      exact ⟨(decode_pieces (show ordinary replacement = true by decide) d.reads (f := []) (by simp)
        d.flatten_eq).2 rfl hcount, h', hok⟩
  · rintro ⟨hwhole, h', hok⟩
    rw [decode_whole hwhole, d.flatten_eq, decode_encode] at hrun
    rw [← handOut_foldlM] at hok
    refine ⟨?_, hrun.pending h' (hrun.handler.trans hok)⟩
    rw [hrun.commands, handOut_ok hok]

/-- A line `é` in two reads. -/
def dividedLine : Division where
  text := ['é', '\n']
  reads := [[0xc3], [0xa9, 0x0a]]
  flatten_eq := by decide
  sizes := by decide

/-- `processByteCount` -/
def processByteCount (argument : Text) : Except Thrown (ℤ × ℤ) := do
  -- `substring(0, comma)` throws if there is no comma
  if ',' ∉ argument then throw stringIndexOutOfBoundsException
  let bytesIn ← parseLong (argument.takeWhile (· != ','))
  let bytesOut ← parseLong ((argument.dropWhile (· != ',')).drop 1)
  return (bytesIn, bytesOut)

/-- The branch of `processCommand` for byte counts, which are kept. -/
def processCounts (counts : ℤ × ℤ) (command : Text) : Except Thrown (ℤ × ℤ) :=
  if startsWith command ">BYTECOUNT:".toList then processByteCount (command.drop 11) else .ok counts

/-- A byte count without a comma, and another line, in one read. -/
def halfCount : Division where
  text := ">BYTECOUNT:1\nfoo\n".toList
  reads := [encode ">BYTECOUNT:1\nfoo\n".toList]
  flatten_eq := by decide
  sizes := by decide

/-- Two unknown characters come out of the first.  The second line of the other one is not handed out. -/
theorem dividedLine_commands :
    (dividedLine.reader processCounts (0, 0)).commands = [[replacement, replacement]] ∧
      (dividedLine.reader processCounts (0, 0)).commands ≠ lines dividedLine.text ∧
      (halfCount.reader processCounts (0, 0)).commands = [">BYTECOUNT:1".toList] ∧
      lines halfCount.text = [">BYTECOUNT:1".toList, "foo".toList] := by
  have hstart : HasRead processCounts (0, 0) [] { handler := .ok (0, 0) } :=
    ⟨rfl, rfl, fun _ _ => rfl, fun _ herror => by cases herror⟩
  have hdivided : (dividedLine.reader processCounts (0, 0)).commands = _ :=
    (hasRead_run (0, 0) dividedLine.reads hstart).commands
  have hhalf : (halfCount.reader processCounts (0, 0)).commands = _ :=
    (hasRead_run (0, 0) halfCount.reads hstart).commands
  rw [hdivided, hhalf]
  exact ⟨by decide +kernel, by decide +kernel, by decide +kernel, by decide +kernel⟩

end VpnCore.Management
