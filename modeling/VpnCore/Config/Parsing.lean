import VpnCore.Config.Options
import VpnCore.Config.ParseConfig

/-!
# VpnCore.Config.Parsing — what a line does to a `ConfigParser`

A line is a comment, gives an option, opens an inline file, belongs to one or closes it (`Step`).  The lines of
an option stay in the order in which they were given.
-/

namespace VpnCore.Config

open VpnCore.Lib

/-! ## The map of the options -/

theorem get_put (o : OptionMap) (key : Text) (lines : List OptionLine) :
    (o.put key lines).get key = some lines := by
  have hfree : (o.remove key).lookup key = none := by
    rw [List.lookup_eq_none_iff]
    intro e he
    exact bne_iff_ne.mpr (bne_iff_ne.mp (List.mem_filter.mp he).2).symm
  rw [OptionMap.get, OptionMap.put, List.lookup_append, hfree, Option.none_or, List.lookup_cons_self]

theorem get_put_of_ne {key k : Text} (h : key ≠ k) (o : OptionMap) (lines : List OptionLine) :
    (o.put k lines).get key = o.get key := by
  rw [OptionMap.get, OptionMap.put, lookup_append_of_ne h]
  refine lookup_filter _ key o fun e _ he => ?_
  rw [bne_iff_ne, he]
  exact h

theorem get_add (o : OptionMap) (key k : Text) (line : OptionLine) :
    (o.add k line).get key =
      if key = k then some ((o.get key).getD [] ++ [line]) else o.get key := by
  rw [OptionMap.add]
  split_ifs with h
  · rw [← h, get_put]
  · exact get_put_of_ne h o _

/-! ## Lines -/

/-- After the opening tag and some lines of an inline file. -/
def reading (s : Parser) (name file : Text) : Parser :=
  { s with firstLine := false, inlined := some (name, file) }

/-- The content without the newline after its last line. -/
def unterminated (file : Text) : Text := if endsWith file ['\n'] then file.dropLast else file

/-- What a line does. -/
inductive Parser.Step (s : Parser) (line : Text) : Parser → Prop
  /-- a comment, an empty line or a line with metadata -/
  | skips {s' : Parser} : s.inlined = none → s'.options = s.options → s'.inlined = none → Step s line s'
  | gives {text : Text} {args : OptionLine} : s.inlined = none → text <:+ line →
      parseline text = .ok args → args ≠ [] → inlineName (stripDashes args) = none →
      Step s line ({ s with firstLine := false }.addLine (stripDashes args))
  | opens {text : Text} {args : OptionLine} {name : Text} : s.inlined = none → text <:+ line →
      parseline text = .ok args → args ≠ [] → inlineName (stripDashes args) = some name →
      Step s line (reading s name inlineMark)
  | collects {name file : Text} : s.inlined = some (name, file) → trim line ≠ endtag name →
      Step s line { s with inlined := some (name, file ++ line ++ ['\n']) }
  | closes {name file : Text} : s.inlined = some (name, file) → trim line = endtag name →
      Step s line (s.addLine [name, unterminated file])

variable {s s' : Parser} {line text : Text}

theorem optionLine_step (hs : s.inlined = none) (htext : text <:+ line)
    (h : { s with firstLine := false }.optionLine text = .ok s') : s.Step line s' := by
  rw [Parser.optionLine] at h
  by_cases hmark : startsWith text accessServerMark = true
  · rw [if_pos hmark] at h
    obtain rfl := Except.ok.inj h
    exact .skips hs rfl hs
  · rw [if_neg hmark] at h
    obtain ⟨args, hargs, h⟩ := bind_eq_ok.mp h
    by_cases hnil : args.isEmpty = true
    · rw [if_pos hnil] at h
      obtain rfl := Except.ok.inj h
      exact .skips hs rfl hs
    · rw [if_neg hnil] at h
      have hne : args ≠ [] := fun heq => hnil (by rw [heq]; rfl)
      dsimp only at h
      cases hname : inlineName (stripDashes args) with
      | some name =>
        rw [hname] at h
        obtain rfl := Except.ok.inj h
        exact .opens hs htext hargs hne hname
      | none =>
        rw [hname] at h
        obtain rfl := Except.ok.inj h
        exact .gives hs htext hargs hne hname

/-- **What a line does.** -/
theorem line_step (h : s.line line = .ok s') : s.Step line s' := by
  rw [Parser.line] at h
  cases hs : s.inlined with
  | some inlined =>
    obtain ⟨name, file⟩ := inlined
    rw [hs] at h
    obtain rfl := Except.ok.inj h
    rw [Parser.inlineLine]
    by_cases hend : trim line = endtag name
    · rw [if_pos hend]
      exact .closes hs hend
    · rw [if_neg hend]
      exact .collects hs hend
  | none =>
    rw [hs] at h
    dsimp only at h
    by_cases hf : s.firstLine = true
    · rw [if_pos hf] at h
      by_cases hzip : looksLikeZip line = true
      · rw [if_pos hzip] at h
        cases h
      · rw [if_neg hzip] at h
        refine optionLine_step hs ?_ (by rw [hs]; exact h)
        split_ifs
        · exact List.tail_suffix line
        · exact List.suffix_refl line
    · rw [if_neg hf] at h
      refine optionLine_step hs (List.suffix_refl line) ?_
      have hf' : s.firstLine = false := by simpa using hf
      rwa [← hf']

/-! ## The first line of an option -/

/-- The first line that was given under the key. -/
def FirstLine (key : Text) (args : OptionLine) (s : Parser) : Prop :=
  ∃ more, s.options.get key = some (args :: more)

theorem FirstLine.addLine {key : Text} {args args' : OptionLine} (h : FirstLine key args s) :
    FirstLine key args (s.addLine args') := by
  obtain ⟨more, hget⟩ := h
  refine ⟨if key = optionAlias (args'.headD []) then more ++ [args'] else more, ?_⟩
  change (s.options.add _ args').get key = _
  rw [get_add, hget]
  split_ifs <;> rfl

/-- It stays the first. -/
theorem FirstLine.step {key : Text} {args : OptionLine} (h : FirstLine key args s)
    (hline : s.line line = .ok s') : FirstLine key args s' := by
  cases line_step hline with
  | skips _ ho _ => rwa [FirstLine, ho]
  | gives => exact FirstLine.addLine (s := { s with firstLine := false }) h
  | opens => exact h
  | collects => exact h
  | closes => exact h.addLine

end VpnCore.Config
