import VpnCore.Config.Line
import VpnCore.Lib.Utf8
import VpnCore.Options.ParseLine

/-!
# VpnCore.Config.LineAgree — `parseline` against OpenVPN's `parse_line`

The two loops go through the same states as long as they agree on what a blank is.  What differs:
`out` is left over from the last character when a backslash starts an escape, so that character is
stored twice; and a line that ends inside a parameter is not an error in Java.
-/

namespace VpnCore.Config

open VpnCore.Lib

/-- The parameters of an ASCII line, as text. -/
def toText (bs : Options.Bytes) : Text := bs.map fun b => Char.ofNat b.toNat

/-- `parseline` returns what `parse_line` returns, and throws where it reports an error. -/
def Agrees (line : Text) : Prop :=
  match Options.parseLine Options.maxParms (encode line) with
  | .ok ps => parseline line = .ok (ps.map toText)
  | .error _ => ∃ msg, parseline line = .error (.configParseError msg)

/-! ## Conditions on a line

They are stated along the run of OpenVPN's loop without the test for room. -/

/-- The property holds at each byte of the line. -/
def EachChar (P : Options.Parse → UInt8 → Prop) (line : Text) : Prop :=
  LoopAlong Options.Parse.step P {} (encode line)

instance (P : Options.Parse → UInt8 → Prop) [∀ s c, Decidable (P s c)] (line : Text) :
    Decidable (EachChar P line) :=
  inferInstanceAs (Decidable (LoopAlong _ _ _ _))

/-- The parameter being read has fewer than 256 characters, and after the sixteenth there are only
blanks and comments. -/
def Fits (s : Options.Parse) (c : UInt8) : Prop :=
  s.parm.length < Options.optionParmSize ∧
    (Options.maxParms ≤ s.p.length →
      Options.space c = true ∨ c = ';'.toUInt8 ∨ c = '#'.toUInt8 ∨ s.escapes c = true)

/-- The characters `U+001C` to `U+001F` are blanks in Java only. -/
def isSeparator (c : UInt8) : Bool := 0x1c ≤ c && c ≤ 0x1f

/-- A separator stands inside single quotes, or unescaped inside double quotes. -/
def SeparatorQuoted (s : Options.Parse) (c : UInt8) : Prop :=
  isSeparator c = true →
    s.state = .readingSquotedParm ∨ s.state = .readingQuotedParm ∧ s.backslash = false

/-- An escape starts only before the first character of a parameter. -/
def EscapesFirst (s : Options.Parse) (c : UInt8) : Prop := s.escapes c = true → s.parm = []

instance (s : Options.Parse) (c : UInt8) : Decidable (Fits s c) :=
  inferInstanceAs (Decidable (_ ∧ _))

instance (s : Options.Parse) (c : UInt8) : Decidable (SeparatorQuoted s c) :=
  inferInstanceAs (Decidable (_ → _))

instance (s : Options.Parse) (c : UInt8) : Decidable (EscapesFirst s c) :=
  inferInstanceAs (Decidable (_ → _))

/-- A line of ASCII characters within OpenVPN's limits. -/
structure InScope (line : Text) : Prop where
  ascii : ∀ c ∈ line, c ≠ '\x00' ∧ c.toNat < 128
  fits : EachChar Fits line

/-! ## Characters -/

theorem toUInt8_beq {c d : Char} (hc : c.toNat < 128) (hd : d.toNat < 128) :
    (c.toUInt8 == d.toUInt8) = (c == d) := by
  rw [Bool.eq_iff_iff, beq_iff_eq, beq_iff_eq]
  exact ⟨toUInt8_inj_ascii hc hd, fun h => h ▸ rfl⟩

theorem toUInt8_eq_zero {c : Char} (hc : c.toNat < 128) : c.toUInt8 = 0 ↔ c = '\x00' :=
  ⟨toUInt8_inj_ascii (d := '\x00') hc (by decide), fun h => h ▸ rfl⟩

theorem ofNat_toUInt8 {c : Char} (hc : c.toNat < 128) : Char.ofNat c.toUInt8.toNat = c :=
  ascii_induction (P := fun c => Char.ofNat c.toUInt8.toNat = c) (by decide +kernel) hc

/-- Off the separators the two parsers agree on blanks. -/
theorem space_toUInt8 {c : Char} (hc : c.toNat < 128) (hs : isSeparator c.toUInt8 = false) :
    Options.space c.toUInt8 = space c :=
  ascii_induction (P := fun c => isSeparator c.toUInt8 = false →
    Options.space c.toUInt8 = space c) (by decide +kernel) hc hs

/-! ## The simulation -/

def LineState.toParm : LineState → Options.ParmState
  | .initial => .initial
  | .readinSingleQuote => .readingSquotedParm
  | .readingQuoted => .readingQuotedParm
  | .readingUnquoted => .readingUnquotedParm
  | .done => .done

/-- How many characters are stored. -/
def stored {α : Type} (ps : List (List α)) (p : List α) : ℕ := ps.flatten.length + p.length

@[simp] theorem stored_snoc {α : Type} (ps : List (List α)) (p : List α) :
    stored (ps ++ [p]) [] = stored ps p := by
  simp [stored]

@[simp] theorem stored_append {α : Type} (ps : List (List α)) (p : List α) (c : α) :
    stored ps (p ++ [c]) = stored ps p + 1 := by
  simp [stored, Nat.add_assoc]

/-- The loops are in the same state; `clean` says that no character was stored twice so far. -/
structure SameState (clean : Prop) (s : Options.Parse) (t : Line) : Prop where
  state : s.state = t.state.toParm
  initial : t.state = .initial → s.parm = [] ∧ t.currentarg = []
  same : clean → t.parameters = s.p.map toText ∧ t.currentarg = toText s.parm
  longer : ¬ clean → stored s.p s.parm < stored t.parameters t.currentarg

/-- The loops are in step. -/
structure Sim (clean : Prop) (s : Options.Parse) (t : Line) : Prop extends SameState clean s t where
  notDone : t.state ≠ .done
  backslash : s.backslash = t.backslash
  single : t.state = .readinSingleQuote → t.backslash = false
  out : t.out = '\x00' ↔ s.parm = []

theorem sim_init : Sim True {} {} where
  state := rfl
  initial _ := ⟨rfl, rfl⟩
  same _ := ⟨rfl, rfl⟩
  longer h := absurd trivial h
  notDone := by decide
  backslash := rfl
  single _ := rfl
  out := by simp

/-- Storage counts agree while the contents do. -/
theorem SameState.stored_le {clean : Prop} {s : Options.Parse} {t : Line}
    (h : SameState clean s t) : stored s.p s.parm ≤ stored t.parameters t.currentarg := by
  by_cases hc : clean
  · obtain ⟨h1, h2⟩ := h.same hc
    refine le_of_eq ?_
    simp [stored, h1, h2, toText, List.length_flatten, Function.comp_def]
  · exact (h.longer hc).le

theorem Sim.congr {p q : Prop} {s : Options.Parse} {t : Line} (hpq : p ↔ q) (h : Sim p s t) :
    Sim q s t := by
  rwa [← propext hpq]

/-- What the two state machines do with the same character: the same state, and the character is
output by both or by none. -/
structure ReadSim (t : Line) (c : Char) (state : LineState) (out : Char) (o : UInt8) : Prop where
  silent : o = 0 ↔ ((t.setOut out).enter state).out = '\x00'
  spoken : o ≠ 0 → o = c.toUInt8 ∧ out = c ∧ state ≠ .done ∧ state ≠ .initial
  quiet : o = 0 → state ≠ .done → t.state = .initial ∨ c = '\x00' ∧ state ≠ .initial

theorem ReadSim.char {t : Line} {c : Char} {state : LineState} (hc : c.toNat < 128)
    (h1 : state ≠ .done) (h2 : state ≠ .initial) : ReadSim t c state c c.toUInt8 := by
  refine ⟨?_, fun _ => ⟨rfl, rfl, h1, h2⟩, fun ho _ => .inr ⟨(toUInt8_eq_zero hc).mp ho, h2⟩⟩
  rw [Line.enter, if_neg h1]
  exact toUInt8_eq_zero hc

theorem ReadSim.done (t : Line) (c out : Char) : ReadSim t c .done out 0 :=
  ⟨iff_of_true rfl rfl, fun h => absurd rfl h, fun _ h => absurd rfl h⟩

theorem ReadSim.none {t : Line} {c : Char} {state : LineState} (h1 : state ≠ .done)
    (ht : t.state = .initial) (ho : t.out = '\x00') : ReadSim t c state t.out 0 := by
  refine ⟨iff_of_true rfl ?_, fun h => absurd rfl h, fun _ _ => .inl ht⟩
  rw [Line.enter, if_neg h1]
  exact ho

theorem read_sim {clean : Prop} {s : Options.Parse} {t : Line} {c : Char} (h : Sim clean s t)
    (hc : c.toNat < 128) (hq : SeparatorQuoted s c.toUInt8) :
    (t.read c = none ∧ s.read c.toUInt8 = none) ∨
      ∃ state out o, t.read c = some (state, out) ∧
        s.read c.toUInt8 = some (state.toParm, o) ∧ ReadSim t c state out o := by
  have hbeq : ∀ {d : Char}, d.toNat < 128 → (c.toUInt8 == d.toUInt8) = (c == d) :=
    fun hd => toUInt8_beq hc hd
  have hsep : s.state ≠ .readingSquotedParm → s.state ≠ .readingQuotedParm →
      Options.space c.toUInt8 = space c := by
    intro h1 h2
    refine space_toUInt8 hc ?_
    by_contra hsep
    rcases hq (by simpa using hsep) with h' | h'
    · exact h1 h'
    · exact h2 h'.1
  unfold Line.read Options.Parse.read
  rw [h.state, ← h.backslash]
  cases hst : t.state with
  | initial =>
    have hsp := hsep (by simp [h.state, hst, LineState.toParm])
      (by simp [h.state, hst, LineState.toParm])
    have hout : t.out = '\x00' := h.out.mpr (h.initial hst).1
    simp only [LineState.toParm]
    rw [hsp, hbeq (by decide), hbeq (by decide), hbeq (by decide), hbeq (by decide)]
    cases space c with
    | true => exact .inr ⟨.initial, t.out, 0, rfl, rfl, .none (by decide) hst hout⟩
    | false =>
      by_cases hcom : (c == ';' || c == '#') = true
      · exact .inl ⟨by simp [hcom], by simp [hcom]⟩
      · simp only [hcom, Bool.not_false, if_true, Bool.false_eq_true, if_false]
        by_cases hdq : (!s.backslash && c == '"') = true
        · simp only [hdq, if_true]
          exact .inr ⟨.readingQuoted, t.out, 0, rfl, rfl, .none (by decide) hst hout⟩
        · by_cases hsq : (!s.backslash && c == '\'') = true
          · simp only [hdq, hsq, if_true, Bool.false_eq_true, if_false]
            exact .inr ⟨.readinSingleQuote, t.out, 0, rfl, rfl, .none (by decide) hst hout⟩
          · simp only [hdq, hsq, Bool.false_eq_true, if_false]
            exact .inr ⟨.readingUnquoted, c, c.toUInt8, rfl, rfl,
              .char hc (by decide) (by decide)⟩
  | readingUnquoted =>
    have hsp := hsep (by simp [h.state, hst, LineState.toParm])
      (by simp [h.state, hst, LineState.toParm])
    simp only [LineState.toParm, hsp]
    split_ifs
    · exact .inr ⟨.done, t.out, 0, rfl, rfl, .done t c _⟩
    · exact .inr ⟨.readingUnquoted, c, c.toUInt8, rfl, rfl, .char hc (by decide) (by decide)⟩
  | readingQuoted =>
    simp only [LineState.toParm]
    rw [hbeq (by decide)]
    split_ifs
    · exact .inr ⟨.done, t.out, 0, rfl, rfl, .done t c _⟩
    · exact .inr ⟨.readingQuoted, c, c.toUInt8, rfl, rfl, .char hc (by decide) (by decide)⟩
  | readinSingleQuote =>
    simp only [LineState.toParm]
    rw [hbeq (by decide)]
    split_ifs
    · exact .inr ⟨.done, t.out, 0, rfl, rfl, .done t c _⟩
    · exact .inr ⟨.readinSingleQuote, c, c.toUInt8, rfl, rfl, .char hc (by decide) (by decide)⟩
  | done => exact absurd hst h.notDone

theorem escapes_sim {clean : Prop} {s : Options.Parse} {t : Line} {c : Char} (h : Sim clean s t)
    (hc : c.toNat < 128) : s.escapes c.toUInt8 = t.escapes c := by
  unfold Options.Parse.escapes Line.escapes
  rw [toUInt8_beq hc (by decide), h.backslash, h.state]
  cases t.state <;> rfl

theorem badBackslash_sim {clean : Prop} {s : Options.Parse} {t : Line} {c : Char}
    (h : Sim clean s t) (hc : c.toNat < 128) (hq : SeparatorQuoted s c.toUInt8) {state : LineState}
    {out : Char} {o : UInt8} (hr : ReadSim t c state out o) :
    Options.badBackslash s.backslash o =
      badBackslash t.backslash ((t.setOut out).enter state).out := by
  unfold Options.badBackslash badBackslash
  rw [h.backslash]
  by_cases ho : o = 0
  · rw [hr.silent.mp ho, ho]
    rfl
  · obtain ⟨rfl, rfl, hdone, -⟩ := hr.spoken ho
    have hout : ((t.setOut out).enter state).out = out := by
      rw [Line.enter, if_neg hdone]
      rfl
    rw [hout]
    cases hb : t.backslash with
    | false => rfl
    | true =>
      have hsep : isSeparator out.toUInt8 = false := by
        by_contra hsep
        rcases hq (by simpa using hsep) with h' | h'
        · have : t.state = .readinSingleQuote := by
            rw [h.state] at h'
            revert h'
            cases t.state <;> simp [LineState.toParm]
          rw [h.single this] at hb
          cases hb
        · rw [h.backslash, hb] at h'
          cases h'.2
      rw [toUInt8_beq hc (by decide), toUInt8_beq hc (by decide), space_toUInt8 hc hsep]
      have hz : (out.toUInt8 != 0) = (out != '\x00') := by
        rw [bne, bne, show (0 : UInt8) = '\x00'.toUInt8 from rfl, toUInt8_beq hc (by decide)]
      rw [hz]

theorem Line.store_of_out {t : Line} (h : t.out = '\x00') : t.store = t := by
  simp [Line.store, h]

theorem Line.store_of_ne {t : Line} (h : t.out ≠ '\x00') :
    t.store = { t with currentarg := t.currentarg ++ [t.out] } := by
  simp [Line.store, h]

@[simp] theorem Line.store_state (t : Line) : t.store.state = t.state := by
  unfold Line.store
  split_ifs <;> rfl

@[simp] theorem Line.store_backslash (t : Line) : t.store.backslash = t.backslash := by
  unfold Line.store
  split_ifs <;> rfl

@[simp] theorem Line.store_out (t : Line) : t.store.out = t.out := by
  unfold Line.store
  split_ifs <;> rfl

theorem Line.enter_state_ne_done (t : Line) (state : LineState) :
    (t.enter state).state ≠ .done := by
  unfold Line.enter
  split_ifs with h
  · simp
  · exact h

/-- A backslash that starts an escape stores the character before it once more. -/
theorem Sim.escape {clean : Prop} {s : Options.Parse} {t : Line} {c : Char} (h : Sim clean s t)
    (hs : s.escapes c.toUInt8 = true) (ht : t.escapes c = true) :
    Sim (clean ∧ EscapesFirst s c.toUInt8) (s.setBackslash true) (t.setBackslash true).store := by
  have hsingle : t.state ≠ .readinSingleQuote := by
    simp only [Line.escapes, Bool.and_eq_true, bne_iff_ne] at ht
    exact ht.2
  by_cases hp : s.parm = []
  · have hfirst : EscapesFirst s c.toUInt8 := fun _ => hp
    rw [Line.store_of_out (t := t.setBackslash true) (h.out.mpr hp)]
    exact
      { state := h.state
        initial := h.initial
        same := fun hcl => h.same hcl.1
        longer := fun hcl => h.longer fun hcl' => hcl ⟨hcl', hfirst⟩
        notDone := h.notDone
        backslash := rfl
        single := fun hst => absurd hst hsingle
        out := h.out }
  · rw [Line.store_of_ne (t := t.setBackslash true) (fun ho => hp (h.out.mp ho))]
    have hlonger : stored s.p s.parm < stored t.parameters (t.currentarg ++ [t.out]) := by
      rw [stored_append]
      exact Nat.lt_succ_of_le h.stored_le
    exact
      { state := h.state
        initial := fun hst => absurd (h.initial hst).1 hp
        same := fun hcl => absurd (hcl.2 hs) hp
        longer := fun _ => hlonger
        notDone := h.notDone
        backslash := rfl
        single := fun hst => absurd hst hsingle
        out := h.out }

theorem SameState.move {clean : Prop} {s : Options.Parse} {t : Line} {c : Char}
    (h : SameState clean s t) (hc : c.toNat < 128) {state : LineState} {out : Char} {o : UInt8}
    (hr : ReadSim t c state out o) :
    SameState clean (((s.enter state.toParm).setBackslash false).put o)
      (((t.setOut out).enter state).setBackslash false).store := by
  by_cases hdone : state = .done
  · subst hdone
    have ho : o = 0 := by
      by_contra ho
      exact (hr.spoken ho).2.2.1 rfl
    subst ho
    rw [Options.Parse.put_zero, Line.store_of_out rfl]
    refine ⟨rfl, fun _ => ⟨rfl, rfl⟩, fun hcl => ?_, fun hcl => ?_⟩
    · obtain ⟨h1, h2⟩ := h.same hcl
      refine ⟨?_, rfl⟩
      change t.parameters ++ [t.currentarg] = (s.p ++ [s.parm]).map toText
      simp [h1, h2]
    · change stored (s.p ++ [s.parm]) [] < stored (t.parameters ++ [t.currentarg]) []
      simpa using h.longer hcl
  · have hdone' : state.toParm ≠ .done := by
      revert hdone
      cases state <;> simp [LineState.toParm]
    have hsilent : o = 0 ↔ (((t.setOut out).enter state).setBackslash false).out = '\x00' :=
      hr.silent
    rw [Options.Parse.enter_of_ne hdone']
    by_cases ho : o = 0
    · subst ho
      rw [Options.Parse.put_zero, Line.store_of_out (hsilent.mp rfl), Line.enter, if_neg hdone]
      refine ⟨rfl, fun hst => ?_, h.same, h.longer⟩
      rcases hr.quiet rfl hdone with ht | ht
      · exact h.initial ht
      · exact absurd hst ht.2
    · obtain ⟨rfl, rfl, -, hinit⟩ := hr.spoken ho
      rw [Options.Parse.put_of_ne ho, Line.store_of_ne fun hz => ho (hsilent.mpr hz), Line.enter,
        if_neg hdone]
      refine ⟨rfl, fun hst => absurd hst hinit, fun hcl => ?_, fun hcl => ?_⟩
      · obtain ⟨h1, h2⟩ := h.same hcl
        refine ⟨h1, ?_⟩
        change t.currentarg ++ [out] = toText (s.parm ++ [out.toUInt8])
        simp [h2, toText, ofNat_toUInt8 hc]
      · change stored s.p (s.parm ++ [out.toUInt8]) < stored t.parameters (t.currentarg ++ [out])
        simpa using h.longer hcl

/-- Before the end of the line the loops also stay in step. -/
theorem Sim.move {clean : Prop} {s : Options.Parse} {t : Line} {c : Char} (h : Sim clean s t)
    (hc : c.toNat < 128) (hnul : c ≠ '\x00') {state : LineState} {out : Char} {o : UInt8}
    (hr : ReadSim t c state out o) :
    Sim clean (((s.enter state.toParm).setBackslash false).put o)
      (((t.setOut out).enter state).setBackslash false).store := by
  refine { h.toSameState.move hc hr with notDone := ?_, backslash := ?_, single := ?_, out := ?_ }
  · rw [Line.store_state]
    exact Line.enter_state_ne_done _ state
  · rw [Line.store_backslash]
    unfold Options.Parse.put
    split_ifs <;> rfl
  · intro _
    rw [Line.store_backslash]
    rfl
  · rw [Line.store_out]
    change ((t.setOut out).enter state).out = '\x00' ↔ _
    rw [← hr.silent]
    by_cases ho : o = 0
    · refine iff_of_true ho ?_
      rw [ho, Options.Parse.put_zero]
      change (s.enter state.toParm).parm = []
      by_cases hdone : state = .done
      · rw [hdone]
        rfl
      · unfold Options.Parse.enter
        split_ifs
        · rfl
        · rcases hr.quiet ho hdone with ht | ht
          · exact (h.initial ht).1
          · exact absurd ht.1 hnul
    · refine iff_of_false ho ?_
      rw [Options.Parse.put_of_ne ho]
      simp

/-- **One character**: the bodies end alike.  A backslash error is the only one within the limits. -/
theorem step_sim {clean : Prop} {s : Options.Parse} {t : Line} {c : Char}
    (h : Sim clean s t) (hc : c.toNat < 128) (hnul : c ≠ '\x00')
    (hq : SeparatorQuoted s c.toUInt8) (hl : s.parm.length < Options.optionParmSize) :
    Loop.Rel (Sim (clean ∧ EscapesFirst s c.toUInt8))
      (fun e d => e = .badBackslash ∧ d = badBackslashError) (s.step c.toUInt8) (t.body c) := by
  have hesc := escapes_sim h hc
  cases he : t.escapes c with
  | true =>
    rw [he] at hesc
    rw [Options.Parse.step_of_escapes hesc, Line.body, if_pos he]
    exact .running (h.escape hesc he)
  | false =>
    rw [he] at hesc
    have hclean : clean ↔ clean ∧ EscapesFirst s c.toUInt8 :=
      ⟨fun hcl => ⟨hcl, fun he' => by rw [hesc] at he'; cases he'⟩, And.left⟩
    rw [Options.Parse.step_of_not_escapes hesc fun _ => hl, Line.body, if_neg (by simp [he])]
    rcases read_sim h hc hq with ⟨h1, h2⟩ | ⟨state, out, o, h1, h2, hr⟩
    · rw [h1, h2]
      exact .stopped (h.congr hclean)
    · rw [h1, h2]
      dsimp only
      rw [← badBackslash_sim h hc hq hr]
      split_ifs
      · exact .failed ⟨rfl, rfl⟩
      · exact .running ((h.move hc hnul hr).congr hclean)

/-- The terminating NUL outputs nothing and is never an error. -/
theorem step_sim_last {clean : Prop} {s : Options.Parse} {t : Line} (h : Sim clean s t) :
    Loop.Rel (SameState clean) (fun _ _ => False) (s.step 0) (t.body '\x00') := by
  have hc : '\x00'.toNat < 128 := by decide
  have hq : SeparatorQuoted s '\x00'.toUInt8 := fun h => absurd h (by decide)
  have hesc : t.escapes '\x00' = false := by simp [Line.escapes]
  rw [Options.Parse.step_of_not_escapes s.escapes_zero fun h0 => absurd rfl h0, Line.body,
    if_neg (by simp [hesc])]
  rcases read_sim h hc hq with ⟨h1, h2⟩ | ⟨state, out, o, h1, h2, hr⟩
  · rw [h1, show s.read 0 = none from h2]
    exact .stopped h.toSameState
  · have ho : o = 0 := by
      rcases Options.Parse.read_out h2 with ho | ho
      · exact ho
      · exact ho
    have hbad : Options.badBackslash s.backslash o = false := by
      rw [ho]
      simp [Options.badBackslash]
    have hbad' := badBackslash_sim h hc hq hr
    rw [h1, show s.read 0 = some (state.toParm, o) from h2]
    dsimp only
    rw [← hbad', hbad]
    exact .running (h.toSameState.move hc hr)

/-! ## The room for sixteen parameters -/

theorem close_of_initial {s : Options.Parse} (h : s.state = .initial) : s.close = .ok s.p := by
  simp [Options.Parse.close, h]

/-- Behind the last parameter only blanks and comments follow, and nothing is read. -/
theorem finish_blank : ∀ (cs : Options.Bytes) (s : Options.Parse), s.state = .initial →
    Options.maxParms ≤ s.p.length → LoopAlong Options.Parse.step Fits s cs →
    Options.finish (loop Options.Parse.step s (cs ++ [0])) = .ok s.p := by
  have blank : ∀ {s : Options.Parse} {c : UInt8}, s.state = .initial → s.escapes c = false →
      Options.space c = true →
      s.step c = .running (s.setBackslash false) := by
    intro s c hs he hc
    unfold Options.Parse.step Options.Parse.read
    rw [if_neg (by simp [he]), hs]
    simp [hc, Options.badBackslash, Options.Parse.enter, Options.Parse.store,
      Options.Parse.setBackslash, hs]
  intro cs
  induction cs with
  | nil =>
    intro s hs _ _
    rw [List.nil_append, loop_cons_running (blank hs s.escapes_zero rfl)]
    exact close_of_initial hs
  | cons c cs ih =>
    intro s hs hp hfit
    obtain ⟨⟨-, hrest⟩, hfit'⟩ := hfit
    cases he : s.escapes c with
    | true =>
      have hstep := Options.Parse.step_of_escapes he
      rw [hstep] at hfit'
      rw [List.cons_append, loop_cons_running hstep]
      exact ih (s.setBackslash true) hs hp hfit'
    | false =>
      by_cases hc : Options.space c = true
      · have hstep := blank hs he hc
        rw [hstep] at hfit'
        rw [List.cons_append, loop_cons_running hstep]
        exact ih (s.setBackslash false) hs hp hfit'
      · -- a comment
        have hcom : (c == ';'.toUInt8 || c == '#'.toUInt8) = true := by
          rcases hrest hp with h | h | h | h
          · exact absurd h hc
          · simp [h]
          · simp [h]
          · rw [he] at h
            cases h
        have hstep : s.step c = .stopped s := by
          unfold Options.Parse.step Options.Parse.read
          rw [if_neg (by simp [he]), hs]
          simp only [hc, hcom, Bool.false_eq_true, if_false, if_true]
        rw [List.cons_append, loop_cons_stopped hstep]
        exact close_of_initial hs

/-- The test for room changes nothing for a line that fits. -/
theorem finish_body : ∀ (cs : Options.Bytes) (s : Options.Parse),
    s.p.length < Options.maxParms → LoopAlong Options.Parse.step Fits s cs →
    Options.finish (loop (Options.Parse.body Options.maxParms) s (cs ++ [0])) =
      Options.finish (loop Options.Parse.step s (cs ++ [0])) := by
  -- the step that fills `p` leaves the loop; without the test the rest is blank
  have full : ∀ {s s' : Options.Parse} {c : UInt8} (cs : Options.Bytes),
      s.p.length < Options.maxParms → s.step c = .running s' →
      Options.maxParms ≤ s'.p.length → s'.state = .initial := by
    intro s s' c cs hp hstep hp'
    rcases Options.Parse.step_p hstep with h | h
    · rw [h] at hp'
      omega
    · exact h
  intro cs
  induction cs with
  | nil =>
    intro s hp _
    simp only [List.nil_append, loop, Options.Parse.body]
    cases hstep : s.step 0 with
    | running s' =>
      simp only [Options.checkRoom]
      split_ifs <;> rfl
    | stopped s' => rfl
    | failed e => rfl
  | cons c cs ih =>
    intro s hp hfit
    obtain ⟨-, hfit'⟩ := hfit
    simp only [List.cons_append, loop, Options.Parse.body]
    cases hstep : s.step c with
    | running s' =>
      rw [hstep] at hfit'
      simp only [Options.checkRoom]
      by_cases hp' : Options.maxParms ≤ s'.p.length
      · have hs' := full cs hp hstep hp'
        rw [if_pos hp', finish_blank cs s' hs' hp' hfit']
        exact close_of_initial hs'
      · rw [if_neg hp']
        exact ih s' (Nat.lt_of_not_le hp') hfit'
    | stopped s' => rfl
    | failed e => rfl

/-! ## Agreement -/

/-- What `parse_line` does with a line on which `parseline` agrees with it: it accepts the line and
no escape starts inside a parameter, or it reports a bad backslash. -/
def ReadAlike (line : Text) : Prop :=
  match Options.parseLine Options.maxParms (encode line) with
  | .ok _ => EachChar EscapesFirst line
  | .error e => e = .badBackslash

/-- The two loops over a whole line. -/
theorem loops_sim {line : Text} (hs : InScope line) (hq : EachChar SeparatorQuoted line) :
    Loop.Rel (SameState (EachChar EscapesFirst line))
      (fun e d => e = .badBackslash ∧ d = badBackslashError)
      (loop Options.Parse.step {} (encode line ++ [0])) (loop Line.body {} (line ++ ['\x00'])) := by
  have henc : encode line = line.map Char.toUInt8 := encode_ascii fun c hc => (hs.ascii c hc).2
  have hG := hs.fits.and hq
  rw [EachChar, henc] at *
  have hsim := loop_sim (M := fun c => c ≠ '\x00' ∧ c.toNat < 128)
    (fun p s t c hM h hG => step_sim h hM.2 hM.1 hG.2 hG.1.1)
    (fun p q s t hpq h => h.congr hpq) line True {} {} hs.ascii sim_init hG
  simp only [true_and] at hsim
  generalize hl : loop Options.Parse.step {} (line.map Char.toUInt8) = l at hsim
  generalize hl' : loop Line.body {} line = l' at hsim
  cases hsim with
  | @running s t h =>
    have hlast := step_sim_last h
    rw [loop_append hl, loop_append hl']
    simp only [loop]
    generalize s.step 0 = l at hlast ⊢
    generalize t.body '\x00' = l' at hlast ⊢
    cases hlast with
    | running h => exact .running h
    | stopped h => exact .stopped h
    | failed h => exact h.elim
  | stopped h =>
    rw [loop_append_stopped _ hl, loop_append_stopped _ hl']
    exact .stopped h.toSameState
  | failed h =>
    rw [loop_append_failed _ hl, loop_append_failed _ hl']
    exact .failed h

/-- The early return for an empty line is what the loop would return. -/
theorem parseline_eq (line : Text) :
    parseline line =
      match loop Line.body {} (line ++ ['\x00']) with
      | .running s => .ok s.parameters
      | .stopped s => .ok s.parameters
      | .failed e => .error e := by
  cases line with
  | nil => rfl
  | cons c cs => rfl

/-- Equal contents are equal parameters: what is stored twice makes a parameter longer. -/
theorem SameState.parameters_eq_iff {clean : Prop} {s : Options.Parse} {t : Line}
    (h : SameState clean s t) (hs : s.state = .initial) :
    t.parameters = s.p.map toText ↔ clean := by
  have ht : t.state = .initial := by
    have := h.state
    rw [hs] at this
    revert this
    cases t.state <;> simp [LineState.toParm]
  obtain ⟨hparm, harg⟩ := h.initial ht
  constructor
  · intro heq
    by_contra hcl
    have hlt := h.longer hcl
    rw [hparm, harg, heq] at hlt
    simp [stored, toText, List.length_flatten, Function.comp_def] at hlt
  · exact fun hcl => (h.same hcl).1

/-- What the end of the loops means for the two results. -/
theorem agrees_close_iff {clean : Prop} {s : Options.Parse} {t : Line} (h : SameState clean s t) :
    (match s.close with
      | .ok ps => (.ok t.parameters : Except Thrown (List Text)) = .ok (ps.map toText)
      | .error _ => ∃ msg, (.ok t.parameters : Except Thrown (List Text)) =
          .error (.configParseError msg)) ↔
    (match s.close with
      | .ok _ => clean
      | .error e => e = .badBackslash) := by
  unfold Options.Parse.close
  cases hst : s.state with
  | initial =>
    simp only [Except.ok.injEq]
    exact h.parameters_eq_iff hst
  | _ => simp

/-- **On a line within OpenVPN's limits whose separators are quoted, `parseline` agrees with
`parse_line` exactly if** the line is accepted and no escape starts inside a parameter, or the line
has a bad backslash. -/
theorem parseline_agrees_iff (line : Text) (hs : InScope line)
    (hq : EachChar SeparatorQuoted line) : Agrees line ↔ ReadAlike line := by
  have hsim := loops_sim hs hq
  unfold Agrees ReadAlike Options.parseLine
  rw [finish_body _ _ (by decide) hs.fits, parseline_eq]
  generalize loop Options.Parse.step {} (encode line ++ [0]) = l at hsim ⊢
  generalize loop Line.body {} (line ++ ['\x00']) = l' at hsim ⊢
  cases hsim with
  | running h => exact agrees_close_iff h
  | stopped h => exact agrees_close_iff h
  | failed h =>
    obtain ⟨rfl, rfl⟩ := h
    exact iff_of_true ⟨_, rfl⟩ rfl

theorem ascii_of_all {line : Text}
    (h : (line.all fun c => c != '\x00' && decide (c.toNat < 128)) = true) :
    ∀ c ∈ line, c ≠ '\x00' ∧ c.toNat < 128 := by
  intro c hc
  have := List.all_eq_true.mp h c hc
  simpa using this

/-- Quotes, an escape before the first character of a parameter and a comment. -/
def plainLine : Text := "route \"a b\" \\\"c 'd\\e' # x".toList

theorem parseline_agrees_plainLine :
    InScope plainLine ∧ EachChar SeparatorQuoted plainLine ∧ Agrees plainLine :=
  have hs : InScope plainLine := ⟨ascii_of_all (by decide), by decide +kernel⟩
  have hq : EachChar SeparatorQuoted plainLine := by decide +kernel
  ⟨hs, hq, (parseline_agrees_iff plainLine hs hq).mpr
    (show EachChar EscapesFirst plainLine by decide +kernel)⟩

/-- An escaped blank inside a parameter doubles the character before it, an unterminated quote is no
error, and a separator splits a parameter. -/
theorem parseline_disagrees :
    ¬ (∀ line : Text, (∀ c ∈ line, c ≠ '\n' ∧ c ≠ '\r') → InScope line → Agrees line) ∧
    ¬ Agrees "\"ab".toList ∧ ¬ Agrees "x\x1cy".toList := by
  refine ⟨fun h => ?_, ?_, ?_⟩
  · have hs : InScope "a\\ b".toList := ⟨ascii_of_all (by decide), by decide +kernel⟩
    have hag := h "a\\ b".toList (by simp) hs
    have hC : Options.parseLine Options.maxParms (encode "a\\ b".toList) =
        .ok [encode "a b".toList] := by decide +kernel
    have hJ : parseline "a\\ b".toList = .ok ["aa b".toList] := by decide +kernel
    rw [Agrees, hC, hJ] at hag
    revert hag
    decide +kernel
  · have hC : Options.parseLine Options.maxParms (encode "\"ab".toList) =
        .error .noClosingQuotation := by decide +kernel
    have hJ : parseline "\"ab".toList = .ok [] := by decide +kernel
    rw [Agrees, hC, hJ]
    rintro ⟨msg, hmsg⟩
    cases hmsg
  · have hC : Options.parseLine Options.maxParms (encode "x\x1cy".toList) =
        .ok [encode "x\x1cy".toList] := by decide +kernel
    have hJ : parseline "x\x1cy".toList = .ok ["x".toList, "y".toList] := by decide +kernel
    rw [Agrees, hC, hJ]
    decide +kernel

end VpnCore.Config
