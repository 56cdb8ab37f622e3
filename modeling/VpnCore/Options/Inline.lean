import VpnCore.Options.ReadLine

/-!
# VpnCore.Options.Inline — inline files

`read_inline_file` reads chunks of up to 255 bytes and takes the first one that begins with the end
tag for the end.  A content that has no such chunk is read as a whole (`after_inlineLines`).
-/

namespace VpnCore.Options

/-! ## Chunks -/

/-- The chunks that `fgets` with room for `n` bytes completes, if `line` is in its buffer. -/
def cut (n : ℕ) : Bytes → Bytes → List Bytes
  | _, [] => []
  | line, c :: bs =>
    if c = newline ∨ (line ++ [c]).length = n then (line ++ [c]) :: cut n [] bs
    else cut n (line ++ [c]) bs

/-- No chunk of the lines is taken for the end of an inline file of the name `tag`. -/
def Enclosed (tag lines : Bytes) : Prop :=
  ∀ chunk ∈ cut (optionLineSize - 1) [] lines, closes tag (cstring chunk) = false

instance (tag lines : Bytes) : Decidable (Enclosed tag lines) :=
  inferInstanceAs (Decidable (∀ _ ∈ _, _))

/-- The content can stand in an inline file.  (The newline before the end tag is read with it.) -/
def Encloses (tag content : Bytes) : Prop := Enclosed tag (content ++ [newline])

instance (tag content : Bytes) : Decidable (Encloses tag content) :=
  inferInstanceAs (Decidable (Enclosed _ _))

/-- A line that fits into the buffer. -/
theorem cut_line (n : ℕ) (rest : Bytes) : ∀ (a line : Bytes), newline ∉ a → line.length + a.length < n →
    cut n line (a ++ newline :: rest) = (line ++ a ++ [newline]) :: cut n [] rest
  | [], line, _, _ => by rw [List.nil_append, cut, if_pos (.inl rfl), List.append_nil]
  | c :: a, line, hn, hl => by
    rw [List.mem_cons, not_or] at hn
    rw [List.length_cons] at hl
    have hc : ¬ (c = newline ∨ (line ++ [c]).length = n) := by
      rw [List.length_append, List.length_singleton]
      rintro (rfl | h)
      · exact hn.1 rfl
      · omega
    rw [List.cons_append, cut, if_neg hc, cut_line n rest a (line ++ [c]) hn.2 (by
      rw [List.length_append, List.length_singleton]
      omega)]
    simp

theorem cut_lines {n : ℕ} : ∀ {parts : List Bytes}, parts ≠ [] →
    (∀ p ∈ parts, newline ∉ p ∧ p.length < n) →
    cut n [] ([newline].intercalate parts ++ [newline]) = parts.map (· ++ [newline])
  | [], hne, _ => absurd rfl hne
  | [a], _, h => by
    obtain ⟨hn, hl⟩ := h a List.mem_cons_self
    rw [List.intercalate_singleton, cut_line n [] a [] hn (by simpa using hl)]
    rfl
  | a :: b :: parts, _, h => by
    obtain ⟨hn, hl⟩ := h a List.mem_cons_self
    have ih := cut_lines (List.cons_ne_nil b parts) fun p hp => h p (List.mem_cons_of_mem a hp)
    rw [List.intercalate_cons_cons, List.append_assoc, List.append_assoc, List.singleton_append,
      cut_line n _ a [] hn (by simpa using hl), ih]
    rfl

/-- What `read_inline_file` returns for the content: the lines with a newline after the last. -/
def inlineContent (content : Bytes) : Bytes :=
  (cut (optionLineSize - 1) [] (content ++ [newline])).flatMap cstring

theorem cut_flatten (n : ℕ) : ∀ (bs line : Bytes),
    (cut n line (bs ++ [newline])).flatten = line ++ bs ++ [newline]
  | [], line => by
    rw [List.nil_append, cut, if_pos (.inl rfl)]
    simp [cut]
  | c :: bs, line => by
    rw [List.cons_append, cut]
    split_ifs
    · rw [List.flatten_cons, cut_flatten n bs []]
      simp
    · rw [cut_flatten n bs (line ++ [c])]
      simp

theorem inlineContent_eq {content : Bytes} (h0 : 0 ∉ content) :
    inlineContent content = content ++ [newline] := by
  have hflat := cut_flatten (optionLineSize - 1) content []
  unfold inlineContent
  rw [List.flatMap_congr (g := id), List.flatMap_id, hflat, List.nil_append]
  intro chunk hchunk
  refine cstring_of_not_mem fun hz => ?_
  have hmem : (0 : UInt8) ∈ [] ++ content ++ [newline] := by
    rw [← hflat]
    exact List.mem_flatten_of_mem hchunk hz
  exact zero_not_mem_snoc h0 hmem

/-- Inside an inline file. -/
def inside (b : Block) (line : Bytes) : Reader :=
  { firstLine := false, line := line, block := some b }

theorem inside_take {b : Block} {line : Bytes} (h : closes b.tag (cstring line) = false) :
    (inside b line).take = inside { b with content := b.content ++ cstring line } [] := by
  simp [Reader.take, inside, Reader.readInline, h]

/-- Lines of the content are collected. -/
theorem inside_after : ∀ (bs line : Bytes) (b : Block), line.length < optionLineSize - 1 →
    (∀ chunk ∈ cut (optionLineSize - 1) line (bs ++ [newline]),
      closes b.tag (cstring chunk) = false) →
    (inside b line).after (bs ++ [newline]) =
      inside { b with
        content := b.content ++
          (cut (optionLineSize - 1) line (bs ++ [newline])).flatMap cstring } []
  | [], line, b, _, h => by
    have hcut : cut (optionLineSize - 1) line ([] ++ [newline]) = [line ++ [newline]] := by
      rw [List.nil_append, cut, if_pos (.inl rfl), cut]
    rw [hcut] at h ⊢
    change (inside b line).step newline = _
    rw [step_complete (.inl rfl), List.flatMap_singleton]
    exact inside_take (h (line ++ [newline]) List.mem_cons_self)
  | c :: bs, line, b, hl, h => by
    change ((inside b line).step c).after (bs ++ [newline]) = _
    by_cases hc : c = newline ∨ (line ++ [c]).length = optionLineSize - 1
    · rw [List.cons_append, cut, if_pos hc] at h ⊢
      have hstep : (inside b line).step c =
          inside { b with content := b.content ++ cstring (line ++ [c]) } [] := by
        rw [step_complete hc]
        exact inside_take (h (line ++ [c]) List.mem_cons_self)
      have hrest := inside_after bs [] { b with content := b.content ++ cstring (line ++ [c]) }
        (by decide) fun chunk hm => h chunk (List.mem_cons_of_mem _ hm)
      rw [hstep, hrest]
      simp [List.append_assoc]
    · rw [List.cons_append, cut, if_neg hc] at h ⊢
      have hlen : (line ++ [c]).length ≠ optionLineSize - 1 := fun hh => hc (.inr hh)
      have hstep : (inside b line).step c = inside b (line ++ [c]) := step_incomplete hc
      rw [hstep]
      refine inside_after bs (line ++ [c]) b ?_ h
      rw [List.length_append, List.length_singleton] at hlen ⊢
      omega

/-- A name that can stand in a tag. -/
def tagName (tag : Bytes) : Bool := tag.all wordChar && tag.length + 3 < optionLineSize - 1

/-- The lines around the content. -/
def openLine (tag : Bytes) : Bytes := '<'.toUInt8 :: (tag ++ ['>'.toUInt8, newline])

def closeLine (tag : Bytes) : Bytes := closeTag tag ++ [newline]

theorem tagName_not_mem {tag : Bytes} (h : tagName tag = true) {c : UInt8} (hc : space c = true) :
    c ∉ tag := by
  simp only [tagName, Bool.and_eq_true, List.all_eq_true] at h
  intro hm
  have := h.1 c hm
  simp [wordChar, hc] at this

theorem entry_openLine {tag : Bytes} (h : tagName tag = true) :
    entry (openLine tag) = .opens tag := by
  have hwords := h
  simp only [tagName, Bool.and_eq_true, List.all_eq_true, decide_eq_true_eq] at hwords
  obtain ⟨hw, hl⟩ := hwords
  have hword : plainWord ('<'.toUInt8 :: (tag ++ ['>'.toUInt8])) = true := by
    have hend : ∀ c ∈ tag ++ ['>'.toUInt8], wordChar c = true := by
      intro c hc
      rcases List.mem_append.mp hc with hc | hc
      · exact hw c hc
      · rw [List.mem_singleton.mp hc]
        rfl
    rw [plainWord, List.all_eq_true.mpr hend]
    rfl
  have hparse : parseLine maxParms (openLine tag) = .ok ['<'.toUInt8 :: (tag ++ ['>'.toUInt8])] := by
    have hloop := loop_word (n := maxParms) (p := []) (c := newline) (by decide) rfl [0] hword
      (by simp only [List.length_cons, List.length_append, List.length_nil]
          exact Nat.le_of_lt (by unfold optionLineSize at hl; unfold optionParmSize; omega))
    unfold parseLine openLine
    rw [List.cons_append, List.append_assoc] at hloop ⊢
    simp only [List.cons_append, List.nil_append] at hloop ⊢
    exact congrArg finish hloop
  have hhead : ('<'.toUInt8 :: (tag ++ ['>'.toUInt8])).head? ≠ some '-'.toUInt8 := by
    rw [List.head?_cons]
    decide
  have htag : inlineTag ['<'.toUInt8 :: (tag ++ ['>'.toUInt8])] = some tag := by
    rw [inlineTag, if_pos ⟨rfl, by rw [← List.cons_append, List.getLast?_concat]⟩, List.tail_cons,
      List.dropLast_concat]
  simp only [entry, hparse, bypassDoubledash_of_head hhead, htag]

theorem after_openLine {tag : Bytes} (h : tagName tag = true) :
    (lineStart []).after (openLine tag) = inside { tag := tag } [] := by
  have hsnoc : openLine tag = '<'.toUInt8 :: (tag ++ ['>'.toUInt8]) ++ [newline] := by
    simp [openLine]
  have hmem : ∀ c : UInt8, space c = true → c ∉ '<'.toUInt8 :: (tag ++ ['>'.toUInt8]) := by
    intro c hc hm
    simp only [List.mem_cons, List.mem_append, List.not_mem_nil, or_false] at hm
    rcases hm with rfl | hm | rfl
    · cases hc
    · exact tagName_not_mem h hc hm
    · cases hc
  have hl : tag.length + 3 < optionLineSize - 1 := by
    simp only [tagName, Bool.and_eq_true, decide_eq_true_eq] at h
    exact h.2
  rw [hsnoc, after_line (hmem newline rfl) (hmem 0 rfl) (by simp; omega), ← hsnoc,
    entry_openLine h]
  rfl

theorem inside_after_closeLine {b : Block} (h : tagName b.tag = true) :
    (inside b []).after (closeLine b.tag) =
      lineStart [.option [b.tag, inlineFileTag, b.content]] := by
  have hmem : ∀ c : UInt8, space c = true → c ∉ closeTag b.tag := by
    intro c hc hm
    simp only [closeTag, List.mem_cons, List.mem_append, List.not_mem_nil, or_false] at hm
    rcases hm with ((rfl | rfl) | hm) | rfl
    · cases hc
    · cases hc
    · exact tagName_not_mem h hc hm
    · cases hc
  have hl : b.tag.length + 3 < optionLineSize - 1 := by
    simp only [tagName, Bool.and_eq_true, decide_eq_true_eq] at h
    exact h.2
  have hclose : closes b.tag (closeTag b.tag ++ [newline]) = true := by
    unfold closes
    rw [List.isPrefixOf_iff_prefix]
    have hdrop : (closeTag b.tag ++ [newline]).dropWhile isspace = closeTag b.tag ++ [newline] := rfl
    rw [hdrop]
    exact List.prefix_append _ _
  unfold closeLine
  rw [after_complete (hmem newline rfl) (by simp [inside, Reader.room, closeTag]; omega) (.inl rfl)]
  simp only [Reader.take, inside, List.nil_append]
  rw [cstring_of_not_mem (zero_not_mem_snoc (hmem 0 rfl))]
  simp only [Reader.readInline]
  rw [if_pos hclose]
  rfl

/-- The three parts of an inline file. -/
def inlineLines (tag content : Bytes) : Bytes :=
  openLine tag ++ (content ++ [newline]) ++ closeLine tag

theorem after_inlineLines {tag content : Bytes} (h : tagName tag = true) (hc : Encloses tag content) :
    (lineStart []).after (inlineLines tag content) =
      lineStart [.option [tag, inlineFileTag, inlineContent content]] := by
  rw [inlineLines, after_append, after_append, after_openLine h,
    inside_after content [] { tag := tag } (by decide) hc]
  exact inside_after_closeLine (b := { tag := tag, content := inlineContent content }) h

/-! ## An early end -/

/-- A chunk that begins with the end tag ends the file before the rest of the lines. -/
theorem inside_closed : ∀ (bs line : Bytes) (b : Block), line.length < optionLineSize - 1 →
    (∃ chunk ∈ cut (optionLineSize - 1) line (bs ++ [newline]), closes b.tag (cstring chunk) = true) →
    ∃ early : Bytes, early.length < (line ++ bs ++ [newline]).length ∧
      [Seen.option [b.tag, inlineFileTag, b.content ++ early]] <+:
        ((inside b line).after (bs ++ [newline])).seen := by
  -- the chunk `w` is complete, and `bs` comes after it
  have hchunk : ∀ (w bs : Bytes) (b : Block), closes b.tag (cstring w) = true →
      [Seen.option [b.tag, inlineFileTag, b.content ++ []]] <+:
        (((inside b w).take).after bs).seen := by
    intro w bs b hw
    have htake : (inside b w).take = lineStart [.option [b.tag, inlineFileTag, b.content]] := by
      simp [Reader.take, inside, Reader.readInline, hw, lineStart]
    rw [htake, List.append_nil]
    exact seen_prefix_after (lineStart [.option [b.tag, inlineFileTag, b.content]]) bs
  intro bs
  induction bs with
  | nil =>
    rintro line b - ⟨chunk, hmem, hclose⟩
    rw [List.nil_append, cut, if_pos (.inl rfl), cut, List.mem_singleton] at hmem
    subst hmem
    refine ⟨[], by simp, ?_⟩
    change _ <+: (((inside b line).step newline).after []).seen
    rw [step_complete (.inl rfl)]
    exact hchunk (line ++ [newline]) [] b hclose
  | cons c bs ih =>
    rintro line b hl ⟨chunk, hmem, hclose⟩
    rw [List.cons_append, cut] at hmem
    change ∃ early : Bytes, _ ∧ _ <+: (((inside b line).step c).after (bs ++ [newline])).seen
    by_cases hc : c = newline ∨ (line ++ [c]).length = optionLineSize - 1
    · rw [if_pos hc] at hmem
      rw [step_complete hc]
      change ∃ early : Bytes, _ ∧ _ <+: (((inside b (line ++ [c])).take).after (bs ++ [newline])).seen
      by_cases hfirst : closes b.tag (cstring (line ++ [c])) = true
      · exact ⟨[], by simp, hchunk (line ++ [c]) _ b hfirst⟩
      · rw [inside_take (Bool.not_eq_true _ ▸ hfirst)]
        have hrest : ∃ chunk ∈ cut (optionLineSize - 1) [] (bs ++ [newline]),
            closes b.tag (cstring chunk) = true := by
          rcases List.mem_cons.mp hmem with rfl | hmem
          · exact absurd hclose hfirst
          · exact ⟨chunk, hmem, hclose⟩
        obtain ⟨early, hlen, hseen⟩ :=
          ih [] { b with content := b.content ++ cstring (line ++ [c]) } (by decide) hrest
        refine ⟨cstring (line ++ [c]) ++ early, ?_, by rwa [← List.append_assoc]⟩
        have hle : (cstring (line ++ [c])).length ≤ (line ++ [c]).length :=
          (List.takeWhile_prefix _).length_le
        simp only [List.length_append, List.length_cons, List.length_nil] at hlen hle ⊢
        omega
    · rw [if_neg hc] at hmem
      have hlen : (line ++ [c]).length ≠ optionLineSize - 1 := fun hh => hc (.inr hh)
      rw [step_incomplete hc]
      obtain ⟨early, hearly, hseen⟩ := ih (line ++ [c]) b (by
        rw [List.length_append, List.length_singleton] at hlen ⊢
        omega) ⟨chunk, hmem, hclose⟩
      exact ⟨early, by simpa using hearly, hseen⟩

/-- **The content is read as it is iff it can stand in an inline file.** -/
theorem after_inlineLines_iff {tag content : Bytes} (h : tagName tag = true) (h0 : 0 ∉ content) :
    (lineStart []).after (inlineLines tag content) =
        lineStart [.option [tag, inlineFileTag, content ++ [newline]]] ↔
      Encloses tag content := by
  refine ⟨fun heq => ?_, fun hc => ?_⟩
  · by_contra hno
    have hsome : ∃ chunk ∈ cut (optionLineSize - 1) [] (content ++ [newline]),
        closes tag (cstring chunk) = true := by
      simpa [Encloses, Enclosed] using hno
    obtain ⟨early, hlen, hseen⟩ := inside_closed content [] { tag := tag } (by decide) hsome
    have hall : [Seen.option [tag, inlineFileTag, [] ++ early]] <+:
        ((lineStart []).after (inlineLines tag content)).seen := by
      rw [inlineLines, after_append, after_append, after_openLine h]
      exact hseen.trans (seen_prefix_after _ _)
    rw [heq] at hall
    have hcontent : early = content ++ [newline] := by
      simpa [lineStart] using hall
    rw [hcontent, List.nil_append] at hlen
    exact absurd hlen (lt_irrefl _)
  · rw [after_inlineLines h hc, inlineContent_eq h0]

end VpnCore.Options
