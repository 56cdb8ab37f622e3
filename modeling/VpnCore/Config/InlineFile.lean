import VpnCore.Config.ConfigFile
import VpnCore.Config.Convert
import VpnCore.Config.Parsing
import VpnCore.Config.ReadBack
import VpnCore.Lib.Separated
import VpnCore.Options.Inline

/-!
# VpnCore.Config.InlineFile — inline files, written and read back

`insertFileData` puts the content of an inline file between two tags.  `checkinlinefile` reads lines up to one
that is the end tag when it is trimmed, `read_inline_file` up to one that begins with it after blanks.  A
content that `checkinlinefile` returned for one tag may have a line that ends the file of another tag, and also
one that ends the file of the same tag for OpenVPN only.
-/

namespace VpnCore.Config

open VpnCore.Lib Options

/-! ## Text and bytes -/

/-- The bytes of a name in the source. -/
def bytes (name : String) : Bytes := encode name.toList

theorem newline_mem_encode {t : Text} : newline ∈ encode t ↔ '\n' ∈ t :=
  mem_encode_ascii (d := '\n') (by decide)

theorem zero_mem_encode {t : Text} : 0 ∈ encode t ↔ '\x00' ∈ t :=
  mem_encode_ascii (d := '\x00') (by decide)

theorem encode_newline : encode ['\n'] = [newline] := rfl

theorem encode_inlineFile (name : String) (content : Text) :
    encode (inlineFile name content) =
      openLine (bytes name) ++ (encode content ++ [newline]) ++ closeLine (bytes name) := by
  have hopen : encode ('<' :: (name.toList ++ ['>', '\n'])) = openLine (bytes name) := by
    rw [encode_cons, encode_append]
    rfl
  have hclose : encode ('<' :: '/' :: (name.toList ++ ['>', '\n'])) = closeLine (bytes name) := by
    rw [encode_cons, encode_cons, encode_append]
    simp only [closeLine, closeTag, List.append_assoc]
    rfl
  rw [inlineFile, encode_append, encode_append, encode_append, hopen, hclose, encode_newline]

/-! ## Lines of a text -/

theorem readLines_lines (t : Text) : ∀ parts : List Text, parts ≠ [] →
    (∀ p ∈ parts, '\n' ∉ p ∧ '\r' ∉ p) →
    readLines (['\n'].intercalate parts ++ '\n' :: t) = parts ++ readLines t
  | [], hne, _ => absurd rfl hne
  | [a], _, h => by
    obtain ⟨hn, hr⟩ := h a List.mem_cons_self
    rw [List.intercalate_singleton, readLines_line hn hr]
    rfl
  | a :: b :: parts, _, h => by
    obtain ⟨hn, hr⟩ := h a List.mem_cons_self
    have hrest := readLines_lines t (b :: parts) (List.cons_ne_nil _ _)
      fun p hp => h p (List.mem_cons_of_mem a hp)
    rw [List.intercalate_cons_cons, List.append_assoc, List.append_assoc, List.singleton_append,
      readLines_line hn hr, hrest]
    rfl

/-- The lines of a content between the tags. -/
theorem readLines_inlineFile {name : String} {content : Text} (hn : '\n' ∉ name.toList)
    (hr : '\r' ∉ name.toList) (hc : '\r' ∉ content) :
    readLines (inlineFile name content) =
      ('<' :: (name.toList ++ ['>'])) :: (content.splitOn '\n' ++ [endtag name.toList]) := by
  have hopen : ∀ c ∈ ['\n', '\r'], c ∉ '<' :: (name.toList ++ ['>']) ∧ c ∉ endtag name.toList := by
    simp [endtag, hn, hr]
  have hparts : ∀ p ∈ content.splitOn '\n', '\n' ∉ p ∧ '\r' ∉ p := fun p hp =>
    ⟨not_mem_of_mem_splitOn hp, fun hm => hc (mem_of_mem_splitOn hp hm)⟩
  have hcontent := readLines_lines ('<' :: '/' :: (name.toList ++ ['>', '\n']))
    (content.splitOn '\n') (List.splitOn_ne_nil _ _) hparts
  have hend : readLines (endtag name.toList ++ ['\n']) = [endtag name.toList] :=
    readLines_line (hopen '\n' (by simp)).2 (hopen '\r' (by simp)).2 []
  have hclose : '<' :: '/' :: (name.toList ++ ['>', '\n']) = endtag name.toList ++ ['\n'] := by
    simp [endtag]
  rw [List.intercalate_splitOn, hclose, hend] at hcontent
  have htext : inlineFile name content = '<' :: (name.toList ++ ['>']) ++
      '\n' :: (content ++ '\n' :: (endtag name.toList ++ ['\n'])) := by
    simp [inlineFile, endtag]
  rw [htext, readLines_line (hopen '\n' (by simp)).1 (hopen '\r' (by simp)).1, hcontent]

/-! ## One word on a line -/

/-- A character of a name: no blank, no quote, no backslash and nothing that begins a comment. -/
def nameChar (c : Char) : Bool :=
  !space c && c != '"' && c != '\'' && c != '\\' && c != '#' && c != ';'

/-- Inside of a word. -/
def inWord (c : Char) (w : Text) : Line := { state := .readingUnquoted, out := c, currentarg := w }

theorem body_inWord {c d : Char} {w : Text} (hs : space c = false) (hb : c ≠ '\\') :
    (inWord d w).body c = .running (inWord c (w ++ [c])) := by
  have h0 : (c == '\x00') = false := by
    rw [space, Bool.or_eq_false_iff] at hs
    exact hs.2
  simp [Line.body, inWord, Line.escapes, hb, Line.read, hs, Line.setOut, Line.enter, badBackslash,
    Line.setBackslash, Line.store, bne, h0]

theorem loop_inWord : ∀ (t : Text) (d : Char) (w : Text),
    (∀ c ∈ t, space c = false ∧ c ≠ '\\') →
    ∃ d', loop Line.body (inWord d w) t = .running (inWord d' (w ++ t))
  | [], d, w, _ => ⟨d, by rw [loop_nil, List.append_nil]⟩
  | c :: t, d, w, h => by
    obtain ⟨hs, hb⟩ := h c List.mem_cons_self
    obtain ⟨d', hloop⟩ := loop_inWord t c (w ++ [c]) fun x hx => h x (List.mem_cons_of_mem c hx)
    refine ⟨d', ?_⟩
    rw [loop_cons_running (body_inWord hs hb), hloop, List.append_assoc, List.singleton_append]

/-- A line with one word that begins with `<`. -/
theorem parseline_bracket {t : Text} (h : ∀ c ∈ t, space c = false ∧ c ≠ '\\') :
    parseline ('<' :: t) = .ok ['<' :: t] := by
  have hfirst : ({} : Line).body '<' = .running (inWord '<' ['<']) := by decide
  obtain ⟨d, hloop⟩ := loop_inWord t '<' ['<'] h
  have hlast : (inWord d ('<' :: t)).body '\x00' =
      .running { parameters := ['<' :: t] } := by
    simp [Line.body, inWord, Line.escapes, Line.read, space, Line.setOut, Line.enter, badBackslash,
      Line.setBackslash, Line.store]
  have hall : loop Line.body {} ('<' :: t ++ ['\x00']) = .running { parameters := ['<' :: t] } := by
    rw [List.cons_append, loop_cons_running hfirst, loop_append hloop]
    exact (loop_cons_running hlast).trans rfl
  rw [parseline, if_neg (by simp), hall]

/-! ## `checkinlinefile` -/

section

variable {s : Parser} {name file content : Text}

theorem line_bracket (hs : s.inlined = none) (h : ∀ c ∈ name, nameChar c = true) :
    s.line ('<' :: (name ++ ['>'])) = .ok (reading s name inlineMark) := by
  have hword : ∀ c ∈ name ++ ['>'], space c = false ∧ c ≠ '\\' := by
    intro c hc
    rcases List.mem_append.mp hc with hc | hc
    · have hname := h c hc
      simp only [nameChar, Bool.and_eq_true, Bool.not_eq_true', bne_iff_ne] at hname
      exact ⟨hname.1.1.1.1.1, hname.1.1.2⟩
    · rw [List.mem_singleton.mp hc]
      decide
  have htrim : trim ('<' :: (name ++ ['>'])) = '<' :: (name ++ ['>']) := by
    have hlast : ('<' :: (name ++ ['>'])).rdropWhile (fun c => c.toNat ≤ 0x20) =
        '<' :: (name ++ ['>']) := by
      rw [← List.cons_append]
      exact List.rdropWhile_concat_neg _ _ _ (by decide)
    rw [trim, List.dropWhile_cons_of_neg (by decide), hlast]
  have hends : endsWith ('<' :: (name ++ ['>'])) ['>'] = true := by
    rw [endsWith, List.isSuffixOf_iff_suffix]
    exact ⟨'<' :: name, by simp⟩
  have hname : inlineName ['<' :: (name ++ ['>'])] = some name := by
    rw [inlineName, List.headD_cons, htrim, hends]
    simp [startsWith]
  have hopt : ∀ s : Parser, s.optionLine ('<' :: (name ++ ['>'])) =
      .ok { s with inlined := some (name, inlineMark) } := by
    intro s
    have hmark : startsWith ('<' :: (name ++ ['>'])) accessServerMark = false := rfl
    have hdash : stripDashes ['<' :: (name ++ ['>'])] = ['<' :: (name ++ ['>'])] := rfl
    rw [Parser.optionLine, hmark, if_neg (by decide), parseline_bracket hword, ok_bind,
      if_neg (by simp), hdash]
    dsimp only
    rw [hname]
    rfl
  rw [Parser.line, hs]
  dsimp only
  by_cases hf : s.firstLine = true
  · have hzip : looksLikeZip ('<' :: (name ++ ['>'])) = false := rfl
    have hbom : startsWith ('<' :: (name ++ ['>'])) ['\ufeff'] = false := rfl
    rw [if_pos hf, hzip, hbom, if_neg (by decide), if_neg (by decide), hopt]
    rfl
  · rw [if_neg hf, hopt]
    have hf' : s.firstLine = false := by simpa using hf
    rw [reading, ← hf']

theorem line_reading {line : Text} (h : trim line ≠ endtag name) :
    (reading s name file).line line = .ok (reading s name (file ++ (line ++ ['\n']))) := by
  rw [Parser.line]
  change Except.ok (Parser.inlineLine _ _ _ _) = _
  rw [Parser.inlineLine, if_neg h, List.append_assoc]
  rfl

theorem line_close {line : Text} (h : trim line = endtag name) :
    (reading s name file).line line =
      .ok ({ s with firstLine := false }.addLine [name, unterminated file]) := by
  rw [Parser.line]
  change Except.ok (Parser.inlineLine _ _ _ _) = _
  rw [Parser.inlineLine, if_pos h]
  rfl

theorem lines_reading : ∀ (lines : List Text) (file : Text), (∀ line ∈ lines, trim line ≠ endtag name) →
    lines.foldlM Parser.line (reading s name file) =
      .ok (reading s name (file ++ lines.flatMap (· ++ ['\n'])))
  | [], file, _ => by
    rw [List.flatMap_nil, List.append_nil]
    rfl
  | line :: lines, file, h => by
    rw [List.forall_mem_cons] at h
    rw [List.foldlM_cons, line_reading h.1, ok_bind, lines_reading lines _ h.2, List.flatMap_cons,
      List.append_assoc]

theorem trim_endtag (name : Text) : trim (endtag name) = endtag name := by
  have hcons : endtag name = '<' :: '/' :: name ++ ['>'] := rfl
  rw [hcons, trim, List.cons_append, List.dropWhile_cons_of_neg (by decide), ← List.cons_append]
  exact List.rdropWhile_concat_neg _ _ _ (by decide)

theorem unterminated_lines (lines : List Text) :
    unterminated (inlineMark ++ lines.flatMap (· ++ ['\n'])) =
      inlineMark ++ ['\n'].intercalate lines := by
  by_cases hne : lines = []
  · subst hne
    decide
  · rw [flatMap_snoc hne, ← List.append_assoc, unterminated, if_pos ?_, List.dropLast_concat]
    rw [endsWith, List.isSuffixOf_iff_suffix]
    exact List.suffix_append _ _

/-- The content is returned if no line of it is the end tag. -/
theorem checkinlinefile_ok (hs : s.inlined = none) (hname : ∀ c ∈ name, nameChar c = true)
    (h : ∀ line ∈ content.splitOn '\n', trim line ≠ endtag name) :
    (('<' :: (name ++ ['>'])) :: (content.splitOn '\n' ++ [endtag name])).foldlM Parser.line s =
      .ok ({ s with firstLine := false }.addLine [name, inlineMark ++ content]) := by
  rw [List.foldlM_cons, line_bracket hs hname, ok_bind, List.foldlM_append, lines_reading _ _ h,
    ok_bind, List.foldlM_cons, line_close (trim_endtag name), unterminated_lines,
    List.intercalate_splitOn]
  rfl

/-- The first line that ends the file is not the last one. -/
theorem checkinlinefile_early {before after : List Text} {line : Text}
    (hname : ∀ c ∈ name, nameChar c = true) (hbefore : ∀ l ∈ before, trim l ≠ endtag name)
    (hline : trim line = endtag name) {s' : Parser}
    (h : (('<' :: (name ++ ['>'])) :: (before ++ line :: after)).foldlM Parser.line {} = .ok s') :
    FirstLine (optionAlias name) [name, inlineMark ++ ['\n'].intercalate before] s' := by
  rw [List.foldlM_cons, line_bracket rfl hname, ok_bind, List.foldlM_append, lines_reading _ _ hbefore,
    ok_bind, List.foldlM_cons, line_close hline, ok_bind, unterminated_lines] at h
  refine foldlM_inv (fun l _ s s' hs hl => hs.step hl) ⟨[], ?_⟩ h
  exact (get_add _ _ _ _).trans (if_pos rfl)

/-- **`checkinlinefile` reads the content back iff no line of it is the end tag.** -/
theorem checkinlinefile_iff (hname : ∀ c ∈ name, nameChar c = true) :
    (∀ s : Parser, s.inlined = none →
      (('<' :: (name ++ ['>'])) :: (content.splitOn '\n' ++ [endtag name])).foldlM Parser.line s =
        .ok ({ s with firstLine := false }.addLine [name, inlineMark ++ content])) ↔
      ∀ line ∈ content.splitOn '\n', trim line ≠ endtag name := by
  refine ⟨fun h => ?_, fun h s hs => checkinlinefile_ok hs hname h⟩
  by_contra hno
  obtain ⟨line, hfind⟩ : ∃ line,
      (content.splitOn '\n').find? (fun l => decide (trim l = endtag name)) = some line := by
    rw [← Option.isSome_iff_exists, List.find?_isSome]
    simpa using hno
  obtain ⟨hline, before, after, hlines, hbefore⟩ := List.find?_eq_some_iff_append.mp hfind
  have hread := h {} rfl
  rw [hlines, List.append_assoc, List.cons_append] at hread
  obtain ⟨more, hmore⟩ := checkinlinefile_early hname (by simpa using hbefore) (by simpa using hline) hread
  have hget : ((({ firstLine := false } : Parser).addLine [name, inlineMark ++ content]).options.get
      (optionAlias name)) = some [[name, inlineMark ++ content]] :=
    (get_add _ _ _ _).trans (if_pos rfl)
  have hcontent : ['\n'].intercalate before = content := by
    have heq := (List.cons.inj (Option.some.inj (hmore.symm.trans hget))).1
    exact List.append_cancel_left (List.cons.inj (List.cons.inj heq).2).1
  by_cases hnil : before = []
  · -- the content would be empty, and its only line too
    rw [hnil, List.intercalate_nil] at hcontent
    rw [← hcontent, hnil, List.nil_append] at hlines
    have hl : line = [] := (List.cons.inj hlines).1.symm
    rw [hl] at hline
    exact absurd (of_decide_eq_true hline) (by simp [trim, endtag])
  · have hparts : ∀ p ∈ before, '\n' ∉ p := fun p hp =>
      not_mem_of_mem_splitOn (hlines ▸ List.mem_append_left _ hp)
    have hsplit := List.splitOn_intercalate '\n' hparts hnil
    rw [hcontent, hlines] at hsplit
    have hlen := congrArg List.length hsplit
    rw [List.length_append, List.length_cons] at hlen
    omega

end

/-! ## `read_inline_file` -/

/-- `isspace` -/
def blank (c : Char) : Bool := c == ' ' || '\t' ≤ c && c ≤ '\r'

theorem encode_endtag (name : Text) : encode (endtag name) = closeTag (encode name) := by
  rw [endtag, encode_append, encode_append]
  rfl

theorem isspace_toUInt8 {c : Char} (hc : c.toNat < 128) : isspace c.toUInt8 = blank c :=
  ascii_induction (P := fun c => isspace c.toUInt8 = blank c) (by decide +kernel) hc

theorem isspace_high {b : UInt8} (h : 128 ≤ b.toNat) : isspace b = false := by
  revert h
  exact byte_induction (P := fun b => 128 ≤ b.toNat → isspace b = false) (by decide +kernel) b

theorem not_blank_high {c : Char} (h : 128 ≤ c.toNat) : blank c = false := by
  rw [blank, Bool.or_eq_false_iff, Bool.and_eq_false_iff]
  constructor
  · rw [beq_eq_false_iff_ne]
    rintro rfl
    exact absurd h (by decide)
  · refine .inr (decide_eq_false fun hle => ?_)
    have hle' : c.toNat ≤ '\r'.toNat := hle
    exact absurd (h.trans hle') (by decide)

theorem closes_encode {name : Text} (hn : '\n' ∉ name) (line : Text) :
    closes (encode name) (encode line ++ [newline]) =
      startsWith (line.dropWhile blank) (endtag name) := by
  have hprefix : ∀ t : Text, (closeTag (encode name)).isPrefixOf (encode t ++ [newline]) =
      startsWith t (endtag name) := by
    intro t
    have hiff : closeTag (encode name) <+: encode t ++ [newline] ↔ endtag name <+: t := by
      rw [← encode_endtag, ← encode_newline, ← encode_append, encode_prefix, List.prefix_concat_iff]
      refine ⟨fun h => h.resolve_left fun heq => ?_, .inr⟩
      have hmem : '\n' ∈ endtag name := heq ▸ List.mem_append_right t List.mem_cons_self
      simp [endtag, hn] at hmem
    rw [startsWith, Bool.eq_iff_iff, List.isPrefixOf_iff_prefix, List.isPrefixOf_iff_prefix, hiff]
  have hstop : ∀ (b : UInt8) (rest : Bytes), isspace b = false →
      closes (encode name) (b :: rest) = (closeTag (encode name)).isPrefixOf (b :: rest) := by
    intro b rest hb
    rw [closes, List.dropWhile_cons_of_neg (by simp [hb])]
  induction line with
  | nil => rfl
  | cons c line ih =>
    by_cases hc : c.toNat < 128
    · have hbyte : encode (c :: line) ++ [newline] = c.toUInt8 :: (encode line ++ [newline]) := by
        rw [encode_cons, utf8EncodeChar_ascii hc]
        rfl
      cases hb : blank c with
      | true =>
        rw [List.dropWhile_cons_of_pos hb, ← ih, hbyte, closes, closes,
          List.dropWhile_cons_of_pos (by rw [isspace_toUInt8 hc, hb])]
      | false =>
        rw [List.dropWhile_cons_of_neg (by simp [hb]), ← hprefix, hbyte]
        exact hstop _ _ ((isspace_toUInt8 hc).trans hb)
    · have hblank : blank c = false := not_blank_high (Nat.le_of_not_lt hc)
      obtain ⟨b, bs, hbs⟩ := List.exists_cons_of_ne_nil (String.utf8EncodeChar_ne_nil (c := c))
      have hhigh : isspace b = false :=
        isspace_high (high_of_mem_utf8EncodeChar (Nat.le_of_not_lt hc) (hbs ▸ List.mem_cons_self))
      rw [List.dropWhile_cons_of_neg (by simp [hblank]), ← hprefix, encode_cons, hbs]
      exact hstop _ _ hhigh

theorem encode_lines (content : Text) :
    encode content = [newline].intercalate ((content.splitOn '\n').map encode) := by
  have hjoin : ∀ parts : List Text,
      encode (['\n'].intercalate parts) = [newline].intercalate (parts.map encode) := by
    intro parts
    induction parts with
    | nil => rfl
    | cons a parts ih =>
      by_cases hne : parts = []
      · subst hne
        simp
      · rw [intercalate_cons hne, List.map_cons, intercalate_cons (by simpa using hne), encode_append, ← ih]
        rfl
  rw [← hjoin, List.intercalate_splitOn]

/-- Lines that fit into the buffer are the chunks. -/
theorem encloses_iff {name content : Text} (hn : '\n' ∉ name) (h0 : '\x00' ∉ content)
    (hshort : ∀ line ∈ content.splitOn '\n', (encode line).length < optionLineSize - 1) :
    Encloses (encode name) (encode content) ↔
      ∀ line ∈ content.splitOn '\n', startsWith (line.dropWhile blank) (endtag name) = false := by
  have hcut : cut (optionLineSize - 1) [] (encode content ++ [newline]) =
      (content.splitOn '\n').map fun line => encode line ++ [newline] := by
    rw [encode_lines, cut_lines (by simp), List.map_map]
    · rfl
    · rw [List.forall_mem_map]
      exact fun line hl => ⟨fun hm => not_mem_of_mem_splitOn hl (newline_mem_encode.mp hm),
        hshort line hl⟩
  rw [Encloses, Enclosed, hcut, List.forall_mem_map]
  refine forall₂_congr fun line hl => ?_
  have hzero : 0 ∉ encode line := fun hm => h0 (mem_of_mem_splitOn hl (zero_mem_encode.mp hm))
  rw [cstring_of_not_mem (zero_not_mem_snoc hzero), closes_encode hn]

/-! ## Both readers -/

/-- `checkinlinefile` returned the content for an inline file of the text. -/
def Returned (text content : Text) : Prop :=
  ∃ before line after s name file, readLines text = before ++ line :: after ∧
    before.foldlM Parser.line {} = .ok s ∧ s.inlined = some (name, file) ∧
    trim line = endtag name ∧ unterminated file = inlineMark ++ content

theorem not_mem_readLines : ∀ t : Text, ∀ line ∈ readLines t, '\n' ∉ line ∧ '\r' ∉ line := by
  intro t
  fun_induction readLines t with
  | case1 => simp
  | case2 rest ih => simpa using ih
  | case3 c rest _ hc ih => simpa using ih
  | case4 c rest _ hc heq ih =>
    rw [not_or] at hc
    simp [Ne.symm hc.1, Ne.symm hc.2]
  | case5 c rest _ hc line lines heq ih =>
    rw [not_or] at hc
    rw [heq, List.forall_mem_cons] at ih
    rw [List.forall_mem_cons]
    refine ⟨?_, ih.2⟩
    simp [Ne.symm hc.1, Ne.symm hc.2, ih.1]

theorem Returned.not_mem {text content : Text} (h : Returned text content) : '\r' ∉ content := by
  obtain ⟨before, line, after, s, name, file, hlines, hfold, hs, -, hfile⟩ := h
  have hinv : ∀ name file, s.inlined = some (name, file) → '\r' ∉ file := by
    refine foldlM_inv (I := fun s : Parser => ∀ name file, s.inlined = some (name, file) → '\r' ∉ file)
      (fun l hl s s' hs hline => ?_) (by simp) hfold
    have hfree : '\r' ∉ l :=
      (not_mem_readLines text l (hlines ▸ List.mem_append_left _ hl)).2
    cases line_step hline with
    | skips _ _ hnone => simp [hnone]
    | gives => simp [Parser.addLine]
    | opens =>
      rintro name file ⟨⟩
      decide
    | collects hin =>
      rintro name file ⟨⟩
      simp [hs _ _ hin, hfree]
    | closes => simp [Parser.addLine]
  intro hmem
  have hin : '\r' ∈ unterminated file := by
    rw [hfile]
    exact List.mem_append_right _ hmem
  refine hinv name file hs ?_
  rw [unterminated] at hin
  split_ifs at hin
  · exact List.mem_of_mem_dropLast hin
  · exact hin

theorem insertFileData_embedded (name : String) (content : Text) :
    insertFileData name (some (inlineMark ++ content)) = inlineFile name content := by
  have hembedded : isEmbedded (inlineMark ++ content) = true := rfl
  have hafter : getEmbeddedContent (inlineMark ++ content) = content := rfl
  rw [insertFileData, hembedded, if_pos rfl, hafter]

theorem tagName_of_nameChar {name : String} (h : ∀ c ∈ name.toList, nameChar c = true)
    (hl : (bytes name).length + 3 < optionLineSize - 1) : tagName (bytes name) = true := by
  rw [tagName, Bool.and_eq_true, List.all_eq_true]
  refine ⟨fun b hb => ?_, decide_eq_true hl⟩
  obtain ⟨c, hc, hb⟩ := List.mem_flatMap.mp hb
  by_cases hlow : c.toNat < 128
  · rw [utf8EncodeChar_ascii hlow, List.mem_singleton] at hb
    subst hb
    exact ascii_induction (P := fun c => nameChar c = true → wordChar c.toUInt8 = true)
      (by decide +kernel) hlow (h c hc)
  · have hhigh := high_of_mem_utf8EncodeChar (Nat.le_of_not_lt hlow) hb
    exact byte_induction (P := fun b => 128 ≤ b.toNat → wordChar b = true) (by decide +kernel) b hhigh

/-- **Inline files are read back** by `checkinlinefile` and by OpenVPN iff no line of the content ends the
file for either. -/
theorem inlineFile_readBack_iff (name : String) (content : Text)
    (hname : ∀ c ∈ name.toList, nameChar c = true)
    (hfrom : ∃ text s, parseConfig text = .ok s ∧ Returned text content)
    (hshort : ∀ line ∈ readLines (insertFileData name (some (inlineMark ++ content))),
      (encode line).length < 255)
    (h0 : '\x00' ∉ content) :
    ((∀ s : Parser, s.inlined = none →
        (readLines (insertFileData name (some (inlineMark ++ content)))).foldlM Parser.line s =
          .ok ({ s with firstLine := false }.addLine [name.toList, inlineMark ++ content])) ∧
      ∀ seen, (lineStart seen).after (encode (insertFileData name (some (inlineMark ++ content)))) =
        lineStart (seen ++ [.option [bytes name, inlineFileTag, encode content ++ [newline]]])) ↔
      ∀ line ∈ content.splitOn '\n', trim line ≠ endtag name.toList ∧
        startsWith (line.dropWhile blank) (endtag name.toList) = false := by
  obtain ⟨text, -, -, hreturned⟩ := hfrom
  have hn : '\n' ∉ name.toList := fun hm => absurd (hname _ hm) (by decide)
  have hr : '\r' ∉ name.toList := fun hm => absurd (hname _ hm) (by decide)
  rw [insertFileData_embedded] at hshort ⊢
  rw [readLines_inlineFile hn hr hreturned.not_mem] at hshort ⊢
  have htag : tagName (bytes name) = true := by
    refine tagName_of_nameChar hname ?_
    have hend := hshort (endtag name.toList) (by simp)
    rw [encode_endtag, closeTag] at hend
    simp only [List.length_append, List.length_cons, List.length_nil] at hend
    change (encode name.toList).length + 3 < 255
    omega
  have hzero : 0 ∉ encode content := fun hm => h0 (zero_mem_encode.mp hm)
  have hopenvpn : (∀ seen, (lineStart seen).after (encode (inlineFile name content)) =
      lineStart (seen ++ [.option [bytes name, inlineFileTag, encode content ++ [newline]]])) ↔
      Encloses (bytes name) (encode content) := by
    rw [encode_inlineFile, ← inlineLines, ← after_inlineLines_iff htag hzero]
    refine ⟨fun h => h [], fun h seen => ?_⟩
    rw [lineStart_after, h]
    rfl
  have hlines : ∀ line ∈ content.splitOn '\n', (encode line).length < optionLineSize - 1 :=
    fun line hl => hshort line (by simp [hl])
  rw [hopenvpn, checkinlinefile_iff hname, bytes, encloses_iff hn h0 hlines]
  exact ⟨fun h line hl => ⟨h.1 line hl, h.2 line hl⟩,
    fun h => ⟨fun line hl => (h line hl).1, fun line hl => (h line hl).2⟩⟩

/-- A file with a server and an inline CA of one line. -/
def caFile (line : String) : Text := ("remote vpn.example.org\n<ca>\n" ++ line ++ "\n</ca>\n").toList

/-- The parser after the line. -/
def inCa (line : String) : Parser :=
  { options := [("remote".toList, [["remote".toList, "vpn.example.org".toList]])]
    firstLine := false
    inlined := some ("ca".toList, inlineMark ++ line.toList ++ ['\n']) }

theorem inlineFile_readBack_ca :
    (∀ s : Parser, s.inlined = none →
        (readLines (insertFileData "ca" (some (inlineMark ++ "MIIB".toList)))).foldlM Parser.line s =
          .ok ({ s with firstLine := false }.addLine ["ca".toList, inlineMark ++ "MIIB".toList])) ∧
      ∀ seen, (lineStart seen).after (encode (insertFileData "ca" (some (inlineMark ++ "MIIB".toList)))) =
        lineStart (seen ++ [.option [bytes "ca", inlineFileTag, encode "MIIB".toList ++ [newline]]]) := by
  refine (inlineFile_readBack_iff "ca" "MIIB".toList (List.all_eq_true.mp (by decide)) ?_
    (by decide +kernel) (by decide)).mpr
    (by decide +kernel)
  refine ⟨caFile "MIIB", _, rfl, ["remote vpn.example.org".toList, "<ca>".toList, "MIIB".toList],
    "</ca>".toList, [], inCa "MIIB", "ca".toList, inlineMark ++ "MIIB\n".toList, ?_⟩
  decide +kernel

/-- OpenVPN ends the file at a line that `checkinlinefile` took for a part of it, and takes the end tag for
another inline file; and a line of a CA may be the end tag of a key. -/
theorem inlineFile_ends_early :
    ((importProfile ⟨id, fun o => .refl o⟩ (caFile "</ca> x")).isOk = true ∧
      Returned (caFile "</ca> x") "</ca> x".toList ∧
      (lineStart []).after (encode (insertFileData "ca" (some (inlineMark ++ "</ca> x".toList)))) =
        { seen := [.option [bytes "ca", inlineFileTag, []]], firstLine := false,
          block := some { tag := bytes "/ca" } }) ∧
    (importProfile ⟨id, fun o => .refl o⟩ (caFile "</key>")).isOk = true ∧
      Returned (caFile "</key>") "</key>".toList ∧
      parseConfig (insertFileData "key" (some (inlineMark ++ "</key>".toList))) =
        .error (noEndtagError "/key".toList) := by
  have hreturned : ∀ line ∈ ["</ca> x", "</key>"], Returned (caFile line) line.toList := by
    intro line hline
    refine ⟨["remote vpn.example.org".toList, "<ca>".toList, line.toList], "</ca>".toList, [], inCa line,
      "ca".toList, inlineMark ++ line.toList ++ ['\n'], ?_⟩
    rcases List.mem_pair.mp hline with rfl | rfl <;> decide +kernel
  exact ⟨⟨by decide +kernel, hreturned _ (by simp), by decide +kernel⟩, by decide +kernel,
    hreturned _ (by simp), by decide +kernel⟩

end VpnCore.Config
