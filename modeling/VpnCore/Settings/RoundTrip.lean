import VpnCore.Lib.Separated
import VpnCore.Settings.Lexing
import VpnCore.Settings.Parser

/-!
# VpnCore.Settings.RoundTrip — settings, written and parsed

Every value of the writer reaches the tree of libstrongswan under its key, without its carriage returns, and
nothing else does (`parseString_serialize`).  So the tree holds exactly what was set when no value that was set
last has a carriage return (`reaches_charon_iff`).
-/

namespace VpnCore.Settings

open Config (Text Thrown)
open Lib

/-! ## The tree of a section -/

mutual

/-- The section that the parser makes of one of the writer. -/
def toSection : SettingsSection → Section
  | .mk settings sections =>
    .mk (settings.map fun e => (e.1, e.2.map withoutCr)) (toSections sections) []

def toSections : List (Text × SettingsSection) → List (Text × Section)
  | [] => []
  | (name, sub) :: rest => (name, toSection sub) :: toSections rest

end

theorem lookup_toSections (name : Text) : ∀ l : List (Text × SettingsSection),
    (toSections l).lookup name = (l.lookup name).map toSection
  | [] => by rw [toSections]; rfl
  | (n, sub) :: rest => by
    rw [toSections]
    by_cases hn : name = n
    · rw [hn, List.lookup_cons_self, List.lookup_cons_self, Option.map_some]
    · rw [lookup_cons_of_ne hn, lookup_cons_of_ne hn, lookup_toSections]

theorem lookup_toSection : ∀ (path : List Text) (s : SettingsSection),
    (toSection s).lookup path = (s.lookup path).map (Option.map withoutCr)
  | [], _ => rfl
  | [key], .mk settings sections => by
    rw [toSection]
    exact lookup_map_snd (Option.map withoutCr) settings key
  | name :: next :: path, .mk settings sections => by
    have ih := lookup_toSection (next :: path)
    rw [toSection, Section.lookup, SettingsSection.lookup, Section.sections, lookup_toSections,
      SettingsSection.sections]
    · cases sections.lookup name with
      | none => rfl
      | some sub => exact ih sub
    all_goals simp

/-! ## The parser on the tokens -/

namespace Parser

variable {p : Parser}

@[simp] theorem top_setTop (p : Parser) (s : Section) : (p.setTop s).top = s := by
  obtain ⟨root, opened, item⟩ := p
  cases opened <;> rfl

@[simp] theorem setTop_setTop (p : Parser) (s s' : Section) : (p.setTop s).setTop s' = p.setTop s' := by
  obtain ⟨root, opened, item⟩ := p
  cases opened <;> rfl

@[simp] theorem item_setTop (p : Parser) (s : Section) : (p.setTop s).item = p.item := by
  obtain ⟨root, opened, item⟩ := p
  cases opened <;> rfl

theorem setTop_top (p : Parser) : p.setTop p.top = p := by
  obtain ⟨root, opened, item⟩ := p
  cases opened <;> rfl

/-- The tokens of a setting. -/
theorem run_settingTokens (hp : p.item = .nothing) (setting : Text × Option Text) :
    (settingTokens setting).foldlM step p =
      some (p.setTop (p.top.addKv setting.1 (setting.2.map withoutCr))) := by
  obtain ⟨n, value⟩ := setting
  obtain ⟨root, opened, item⟩ := p
  obtain rfl : item = .nothing := hp
  cases value <;> cases opened <;> rfl

/-- Settings with new keys are appended. -/
theorem run_settings {sections : List (Text × Section)} {references : List Text} :
    ∀ (settings : List (Text × Option Text)) {p : Parser} {kv : List (Text × Option Text)},
    p.item = .nothing → p.top = .mk kv sections references →
    (kv.map Prod.fst ++ settings.map Prod.fst).Nodup →
    (settings.flatMap settingTokens).foldlM step p =
      some (p.setTop (.mk (kv ++ settings.map fun e => (e.1, e.2.map withoutCr)) sections references))
  | [], p, kv, _, htop, _ => by
    rw [List.flatMap_nil, List.map_nil, List.append_nil, ← htop, setTop_top]
    rfl
  | e :: settings, p, kv, hp, htop, hnodup => by
    have hnew : e.1 ∉ kv.map Prod.fst := fun hmem =>
      (List.nodup_append.1 hnodup).2.2 _ hmem _ List.mem_cons_self rfl
    have hadd : p.top.addKv e.1 (e.2.map withoutCr) =
        .mk (kv ++ [(e.1, e.2.map withoutCr)]) sections references := by
      rw [htop, Section.addKv, Section.kv, insertEntry_of_not_mem hnew]
      rfl
    have hnodup' : ((kv ++ [(e.1, e.2.map withoutCr)]).map Prod.fst ++ settings.map Prod.fst).Nodup := by
      rw [List.map_append, List.append_assoc]
      exact hnodup
    rw [List.flatMap_cons, List.foldlM_append, run_settingTokens hp, hadd]
    refine (run_settings settings (by rw [item_setTop, hp]) (top_setTop p _) hnodup').trans ?_
    rw [setTop_setTop, List.append_assoc]
    rfl

theorem lookup_eq_none {name : Text} {sections : List (Text × Section)}
    (h : name ∉ sections.map Prod.fst) : sections.lookup name = none := by
  rw [List.lookup_eq_none_iff]
  intro e he
  rw [bne_iff_ne]
  exact fun heq => h (heq ▸ List.mem_map_of_mem he)

/-- The brace that closes a section with a new name. -/
theorem step_rbrace {kv : List (Text × Option Text)} {sections : List (Text × Section)}
    {references : List Text} (hp : p.item = .nothing) (htop : p.top = .mk kv sections references)
    {name : Text} (hnew : name ∉ sections.map Prod.fst) (sub : Section) :
    ((p.pushSection name []).setTop sub).step .rbrace =
      some (p.setTop (.mk kv (sections ++ [(name, sub)]) references)) := by
  have hadd : p.top.addSection name sub = .mk kv (sections ++ [(name, sub)]) references := by
    rw [htop, Section.addSection, Section.extendSections, Section.extendSections, Section.sections,
      lookup_eq_none hnew, Section.setSection, Section.sections, insertEntry_of_not_mem hnew]
    rfl
  rw [← hadd]
  obtain ⟨root, opened, item⟩ := p
  obtain rfl : item = .nothing := hp
  cases opened <;> rfl

mutual

/-- **The tokens of a section** fill an empty one. -/
theorem run_section : ∀ {s : SettingsSection}, s.Wf → ∀ {p : Parser}, p.item = .nothing →
    p.top = .empty → (sectionTokens s).foldlM step p = some (p.setTop (toSection s))
  | .mk settings sections, .mk hkeys hnames _ _ hsub, p, hp, htop => by
    rw [sectionTokens, List.foldlM_append, run_settings settings hp htop (by simpa using hkeys)]
    refine (run_sections hsub (by rw [item_setTop, hp]) (top_setTop p _) (by simpa using hnames)).trans ?_
    rw [setTop_setTop, toSection, List.nil_append, List.nil_append]

theorem run_sections : ∀ {l : List (Text × SettingsSection)}, (∀ e ∈ l, e.2.Wf) →
    ∀ {p : Parser} {kv : List (Text × Option Text)} {sections : List (Text × Section)}, p.item = .nothing →
    p.top = .mk kv sections [] → (sections.map Prod.fst ++ l.map Prod.fst).Nodup →
    (sectionsTokens l).foldlM step p = some (p.setTop (.mk kv (sections ++ toSections l) []))
  | [], _, p, kv, sections, _, htop, _ => by
    rw [sectionsTokens, toSections, List.append_nil, ← htop, setTop_top]
    rfl
  | (name, sub) :: rest, hsub, p, kv, sections, hp, htop, hnodup => by
    have hnew : name ∉ sections.map Prod.fst := fun hmem =>
      (List.nodup_append.1 hnodup).2.2 _ hmem _ List.mem_cons_self rfl
    have hnodup' : ((sections ++ [(name, toSection sub)]).map Prod.fst ++ rest.map Prod.fst).Nodup := by
      rw [List.map_append, List.append_assoc]
      exact hnodup
    have hopen : (.name name :: .lbrace :: (sectionTokens sub ++ .rbrace :: sectionsTokens rest)).foldlM
        step p = (sectionTokens sub ++ .rbrace :: sectionsTokens rest).foldlM step
          (p.pushSection name []) := by
      obtain ⟨root, opened, item⟩ := p
      obtain rfl : item = .nothing := hp
      rfl
    rw [sectionsTokens, hopen, List.foldlM_append,
      run_section (hsub (name, sub) List.mem_cons_self) rfl rfl]
    rw [Option.bind_eq_bind, Option.bind_some, List.foldlM_cons,
      step_rbrace hp htop hnew (toSection sub)]
    refine (run_sections (fun e he => hsub e (List.mem_cons_of_mem _ he)) (by rw [item_setTop, hp])
      (top_setTop p _) hnodup').trans ?_
    rw [setTop_setTop, toSections, List.append_assoc, List.singleton_append]

end

end Parser

/-- **Written and parsed.** -/
theorem parseString_serialize {s : SettingsSection} (hs : s.Wf) :
    parseString (serialize s) = some (toSection s) := by
  have hlex := lex_section hs []
  have hend : lex {} [] = [] := lex_done rfl
  rw [List.append_nil, hend, List.append_nil] at hlex
  rw [parseString, serialize, hlex, Parser.run_section hs rfl rfl]
  rfl

/-! ## Sequences of calls -/

/-- A call of `setValue` with a key of valid names. -/
structure Call where
  names : List Text
  value : Option Text
  names_ne_nil : names ≠ []
  valid : ∀ n ∈ names, ValidName n
  no_include : includeName ∉ names.dropLast
  no_nul : ∀ v ∈ value, '\x00' ∉ v

/-- The names, joined by dots. -/
def Call.key (c : Call) : Text := ['.'].intercalate c.names

/-- `mTop` after the calls. -/
def setValues (calls : List Call) : Except Thrown SettingsSection :=
  calls.foldlM (fun mTop c => setValue mTop (some c.key) c.value) .empty

/-- The value of a key in its last call. -/
def lastValue (calls : List Call) (path : List Text) : Option (Option Text) :=
  (calls.reverse.find? fun c => c.names = path).map Call.value

theorem split_key (c : Call) : Config.split '.' c.key = c.names := by
  have hdot : ∀ n ∈ c.names, '.' ∉ n := fun n hn hc =>
    absurd ((c.valid n hn).nameChar '.' hc) (by decide)
  have hsplit : c.key.splitOn '.' = c.names := List.splitOn_intercalate '.' hdot c.names_ne_nil
  have hdrop : c.names.rdropWhile List.isEmpty = c.names := by
    rw [List.rdropWhile_eq_self_iff]
    intro hl hempty
    exact (c.valid _ (List.getLast_mem hl)).ne_nil (List.isEmpty_iff.1 hempty)
  rw [Config.split, hsplit, hdrop, ite_self]

theorem setValue_call (mTop : SettingsSection) (c : Call) :
    setValue mTop (some c.key) c.value = .ok (mTop.put c.value c.names) := by
  have hchars : c.key.all keyChar = true := by
    rw [List.all_eq_true]
    intro d hd
    rcases mem_intercalate hd with rfl | ⟨n, hn, hdn⟩
    · rfl
    · have hname := (c.valid n hn).nameChar d hdn
      simp only [nameChar, decide_eq_true_eq] at hname
      simp only [keyChar, decide_eq_true_eq]
      intro hmem
      apply hname
      revert hmem
      simp only [List.mem_cons, List.not_mem_nil, or_false]
      tauto
  have hne : c.key ≠ [] := by
    intro h
    have hnames := split_key c
    rw [h] at hnames
    have : ([] : Text) ∈ c.names := hnames ▸ List.mem_singleton_self _
    exact (c.valid [] this).ne_nil rfl
  have hcond : ¬ (c.key = [] ∨ ¬ c.key.all keyChar = true) := by simp [hne, hchars]
  simp only [setValue, if_neg hcond, split_key, if_neg c.names_ne_nil]

theorem setValues_eq (calls : List Call) :
    setValues calls = .ok (calls.foldl (fun s c => s.put c.value c.names) .empty) := by
  unfold setValues
  generalize SettingsSection.empty = s
  induction calls generalizing s with
  | nil => rfl
  | cons c calls ih =>
    rw [List.foldlM_cons, setValue_call]
    exact ih _

theorem lookup_calls (calls : List Call) (path : List Text) :
    (calls.foldl (fun s c => s.put c.value c.names) SettingsSection.empty).lookup path =
      lastValue calls path := by
  induction calls using List.reverseRecOn with
  | nil => match path with
    | [] => rfl
    | [_] => rfl
    | _ :: _ :: _ => rfl
  | append_singleton calls c ih =>
    rw [List.foldl_append, List.foldl_cons, List.foldl_nil, lookup_put c.value c.names _ path
      c.names_ne_nil, ih]
    by_cases h : path = c.names
    · simp [lastValue, h]
    · simp [lastValue, h, Ne.symm h]

theorem wf_empty : SettingsSection.empty.Wf :=
  .mk List.nodup_nil List.nodup_nil (by simp) (by simp) (by simp)

/-- **One call** keeps the names valid and different. -/
theorem wf_put (value : Option Text) : ∀ {names : List Text} {s : SettingsSection}, s.Wf →
    (∀ n ∈ names, ValidName n) → includeName ∉ names.dropLast → (s.put value names).Wf
  | [], _, hs, _, _ => hs
  | [key], .mk settings sections, .mk hkeys hnames hkv hsec hsub, hvalid, _ => by
    refine .mk (nodup_insertEntry key value hkeys) hnames (fun e he => ?_) hsec hsub
    rcases mem_insertEntry he with rfl | he
    · exact hvalid key List.mem_cons_self
    · exact hkv e he
  | name :: next :: path, .mk settings sections, .mk hkeys hnames hkv hsec hsub, hvalid, hinc => by
    rw [List.dropLast_cons_of_ne_nil (List.cons_ne_nil _ _), List.mem_cons, not_or] at hinc
    have hfound : ((sections.lookup name).getD .empty).Wf := by
      cases hlookup : sections.lookup name with
      | none => exact wf_empty
      | some sub => exact hsub _ (mem_of_lookup hlookup)
    have hput := wf_put value hfound (fun n hn => hvalid n (List.mem_cons_of_mem name hn)) hinc.2
    refine .mk hkeys (nodup_insertEntry name _ hnames) hkv (fun e he => ?_) (fun e he => ?_)
    · rcases mem_insertEntry he with rfl | he
      · exact ⟨hvalid name List.mem_cons_self, Ne.symm hinc.1⟩
      · exact hsec e he
    · rcases mem_insertEntry he with rfl | he
      · exact hput
      · exact hsub e he

theorem wf_calls (calls : List Call) :
    (calls.foldl (fun s c => s.put c.value c.names) SettingsSection.empty).Wf := by
  induction calls using List.reverseRecOn with
  | nil => exact wf_empty
  | append_singleton calls c ih =>
    rw [List.foldl_append, List.foldl_cons, List.foldl_nil]
    exact wf_put c.value ih c.valid c.no_include

theorem withoutCr_eq_self {v : Text} : withoutCr v = v ↔ '\r' ∉ v := by
  rw [withoutCr, List.filter_eq_self]
  simp only [bne_iff_ne]
  exact ⟨fun h hc => h _ hc rfl, fun h c hc heq => h (heq ▸ hc)⟩

/-- **The settings reach charon.**  What was set is parsed into a tree in which every key has the value of its
last call, and no other key has one, exactly when none of these values has a carriage return. -/
theorem reaches_charon_iff (calls : List Call) :
    (∃ mTop tree, setValues calls = .ok mTop ∧ parseString (serialize mTop) = some tree ∧
      ∀ path, tree.lookup path = lastValue calls path) ↔
      ∀ path v, lastValue calls path = some (some v) → '\r' ∉ v := by
  have hparse := parseString_serialize (wf_calls calls)
  have hlookup : ∀ path, (toSection (calls.foldl (fun s c => s.put c.value c.names) .empty)).lookup path =
      (lastValue calls path).map (Option.map withoutCr) := fun path => by
    rw [lookup_toSection, lookup_calls]
  constructor
  · rintro ⟨mTop, tree, hset, htree, h⟩ path v hv
    rw [setValues_eq] at hset
    cases hset
    rw [hparse] at htree
    cases htree
    have hpath := h path
    rw [hlookup, hv, Option.map_some, Option.map_some] at hpath
    exact withoutCr_eq_self.1 (Option.some.inj (Option.some.inj hpath))
  · intro h
    refine ⟨_, _, setValues_eq calls, hparse, fun path => ?_⟩
    rw [hlookup]
    rcases hv : lastValue calls path with _ | _ | v
    · rfl
    · rfl
    · rw [Option.map_some, Option.map_some, withoutCr_eq_self.2 (h path v hv)]

/-- A password with a carriage return. -/
def passwordCall : Call where
  names := ["connection".toList, "password".toList]
  value := some "a\rb".toList
  names_ne_nil := by decide
  valid n hn := by
    rcases List.mem_cons.1 hn with rfl | hn
    · exact ⟨by decide, List.all_eq_true.1 (by decide)⟩
    · rw [List.mem_singleton.1 hn]
      exact ⟨by decide, List.all_eq_true.1 (by decide)⟩
  no_include := by decide
  no_nul := by decide

/-- charon gets another password. -/
theorem password_loses_cr :
    ∃ mTop tree, setValues [passwordCall] = .ok mTop ∧ parseString (serialize mTop) = some tree ∧
      tree.lookup passwordCall.names = some (some "ab".toList) ∧
      lastValue [passwordCall] passwordCall.names = some (some "a\rb".toList) :=
  ⟨_, _, setValues_eq [passwordCall], parseString_serialize (wf_calls [passwordCall]), rfl, rfl⟩

end VpnCore.Settings
