import VpnCore.Config.Escape

/-!
# VpnCore.Config.ReadBack — which strings are read back

`readable` is the condition on one string.  The strings of a line are read back exactly if all of
them are readable.  For the converse, follow the parser from the first string that is not: what it
reads next is a plain word, a single-quoted text inside the line, or a string that needed quotes,
and none of these is the string it ought to read.
-/

namespace VpnCore.Config

open VpnCore.Lib Options

/-- The string is read back. -/
def readable (bs : Bytes) : Bool :=
  if needsQuotes bs then !bs.contains '\n'.toUInt8 else plainWord bs

/-- A string that OpenVPN can hold: no NUL, shorter than 256 bytes. -/
def Holdable (bs : Bytes) : Prop := 0 ∉ bs ∧ bs.length < optionParmSize

instance (bs : Bytes) : Decidable (Holdable bs) := inferInstanceAs (Decidable (_ ∧ _))

/-- Strings that follow others on a line. -/
def following (as : List Bytes) : Bytes := as.flatMap fun a => ' '.toUInt8 :: escapeBytes a

/-! ## General facts about the loop -/

section Loop

variable {n : ℕ} {p : List Bytes}

theorem step_extends {s s' : Parse} {c : UInt8} (h : s.step c = .running s') : s.p <+: s'.p := by
  cases he : s.escapes c with
  | true =>
    rw [Parse.step_of_escapes he, Loop.running.injEq] at h
    exact h ▸ List.prefix_refl _
  | false =>
    unfold Parse.step at h
    rw [if_neg (by simp [he])] at h
    rcases hr : s.read c with _ | ⟨state, out⟩ <;> rw [hr] at h
    · cases h
    · dsimp only [Parse.store] at h
      split_ifs at h
      obtain rfl := Loop.running.inj h
      rw [Parse.put_p]
      change s.p <+: (s.enter state).p
      unfold Parse.enter
      split_ifs
      · exact List.prefix_append _ _
      · exact List.prefix_refl _

theorem step_stopped {s s' : Parse} {c : UInt8} (h : s.step c = .stopped s') : s' = s := by
  unfold Parse.step at h
  split_ifs at h with he
  · cases h
  · rcases hr : s.read c with _ | ⟨state, out⟩ <;> rw [hr] at h
    · exact (Loop.stopped.inj h).symm
    · dsimp only [Parse.store] at h
      split_ifs at h

theorem close_eq {s : Parse} {ps : List Bytes} (h : s.close = .ok ps) : s.p = ps := by
  unfold Parse.close at h
  cases hs : s.state <;> rw [hs] at h <;> cases h
  rfl

/-- The parameters read so far stay. -/
theorem finish_extends : ∀ (cs : Bytes) (s : Parse) {ps : List Bytes},
    finish (loop (Parse.body n) s cs) = .ok ps → s.p <+: ps
  | [], s, ps, h => by
    rw [← close_eq h]
  | c :: cs, s, ps, h => by
    simp only [loop, Parse.body] at h
    cases hstep : s.step c with
    | running s' =>
      rw [hstep, checkRoom] at h
      refine (step_extends hstep).trans ?_
      split_ifs at h
      · rw [← close_eq h]
      · exact finish_extends cs s' h
    | stopped s' =>
      rw [hstep] at h
      rw [← step_stopped hstep, ← close_eq h]
    | failed e =>
      rw [hstep] at h
      cases h

theorem finish_resume_extends {rest : Bytes} {ps : List Bytes}
    (h : finish (resume n p rest) = .ok ps) : p <+: ps := by
  unfold resume at h
  split_ifs at h
  · rw [← close_eq (s := idle p) h]
    exact List.prefix_refl _
  · exact finish_extends rest (idle p) h

/-- A wrong parameter is never corrected. -/
theorem finish_resume_ne {q a : Bytes} {as : List Bytes} {rest : Bytes} (hq : q ≠ a) :
    finish (resume n (p ++ [q]) rest) ≠ .ok (p ++ a :: as) := by
  intro h
  have hpre := finish_resume_extends h
  rw [List.prefix_append_right_inj, List.cons_prefix_cons] at hpre
  exact hq hpre.1

/-- A blank after a parameter is skipped. -/
theorem finish_resume_blank {c : UInt8} (hc : Options.space c = true) (rest : Bytes) :
    finish (resume n p (c :: rest)) = finish (resume n p rest) := by
  unfold resume
  split_ifs with hp
  · rfl
  · rw [loop_cons_running (body_of_step (step_blank hc) (Nat.lt_of_not_le hp))]

/-- A text that follows an opening single quote: it is closed somewhere, or the line is in error. -/
theorem loop_single_cases (hp : p.length < n) : ∀ (t w : Bytes), 0 ∉ t →
    (∃ e, finish (loop (Parse.body n) (reading .readingSquotedParm p w) (t ++ [0])) = .error e) ∨
      ∃ s t', t = s ++ '\''.toUInt8 :: t' ∧ '\''.toUInt8 ∉ s ∧
        loop (Parse.body n) (reading .readingSquotedParm p w) (t ++ [0]) =
          resume n (p ++ [w ++ s]) (t' ++ [0])
  | [], w, _ => by
    refine .inl ⟨.noClosingSingleQuotation, ?_⟩
    have hstep : (reading .readingSquotedParm p w).step 0 =
        .running (reading .readingSquotedParm p w) := rfl
    rw [List.nil_append, loop_cons_running (body_of_step hstep hp)]
    rfl
  | c :: t, w, h0 => by
    rw [List.mem_cons, not_or] at h0
    by_cases hc : c = '\''.toUInt8
    · subst hc
      refine .inr ⟨[], t, rfl, by simp, ?_⟩
      rw [List.cons_append, loop_resume step_single_end, List.append_nil]
    · by_cases hw : w.length < optionParmSize
      · have hstep := step_single_char (p := p) (Ne.symm h0.1) hc hw
        rw [List.cons_append, loop_cons_running (body_of_step hstep hp)]
        rcases loop_single_cases hp t (w ++ [c]) h0.2 with h | ⟨s, t', rfl, hs, h⟩
        · exact .inl h
        · refine .inr ⟨c :: s, t', rfl, ?_, ?_⟩
          · rw [List.mem_cons, not_or]
            exact ⟨Ne.symm hc, hs⟩
          · rw [h, List.append_assoc, List.singleton_append]
      · refine .inl ⟨.parameterTooLong, ?_⟩
        have hstep : (reading .readingSquotedParm p w).step c = .failed .parameterTooLong := by
          simp [Parse.step, Parse.escapes, Parse.read, reading, Ne.symm h0.1, hc,
            Options.badBackslash, Parse.enter, Parse.store, Parse.setBackslash, Nat.le_of_not_lt hw]
        rw [List.cons_append, loop_cons_failed (by rw [Parse.body, hstep]; rfl)]
        rfl

end Loop

/-! ## Strings on a line -/

theorem zero_not_mem_escapeBytes {a : Bytes} (h : 0 ∉ a) : 0 ∉ escapeBytes a := by
  have hesc : 0 ∉ a.flatMap escapeByte := by
    intro hm
    obtain ⟨c, hc, h0⟩ := List.mem_flatMap.mp hm
    unfold escapeByte at h0
    split_ifs at h0
    · revert h0; decide
    · revert h0; decide
    · revert h0; decide
    · rw [List.mem_singleton] at h0
      exact h (h0 ▸ hc)
  unfold escapeBytes
  split_ifs
  · intro hm
    rcases List.mem_cons.mp hm with hm | hm
    · revert hm; decide
    · rcases List.mem_append.mp hm with hm | hm
      · exact hesc hm
      · revert hm; decide
  · exact h

theorem zero_not_mem_following {as : List Bytes} (h : ∀ a ∈ as, Holdable a) :
    0 ∉ following as := by
  intro hm
  obtain ⟨a, ha, h0⟩ := List.mem_flatMap.mp hm
  rcases List.mem_cons.mp h0 with h0 | h0
  · revert h0; decide
  · exact zero_not_mem_escapeBytes (h a ha).1 h0

/-- What follows a string begins with a blank. -/
theorem following_blank (as : List Bytes) :
    ∃ c rest, following as ++ [0] = c :: rest ∧ Options.space c = true := by
  cases as with
  | nil => exact ⟨0, [], rfl, rfl⟩
  | cons a as => exact ⟨' '.toUInt8, _, rfl, rfl⟩

/-- A readable string is read, and the parser goes on after it. -/
theorem finish_readable_blank {n : ℕ} {p : List Bytes} (hp : p.length < n) {a : Bytes}
    (ha : Holdable a) (hr : readable a = true) {c : UInt8} (hc : Options.space c = true) (rest : Bytes) :
    finish (loop (Parse.body n) (idle p) (escapeBytes a ++ c :: rest)) =
      finish (resume n (p ++ [a]) (c :: rest)) := by
  unfold readable at hr
  unfold escapeBytes
  split_ifs at hr with hq
  · rw [if_pos hq, List.cons_append, List.append_assoc, List.singleton_append,
      loop_quoted hp _ ha.1 (by simpa using hr) ha.2.le]
  · rw [if_neg hq, loop_word hp hc rest hr ha.2.le, finish_resume_blank hc]

theorem finish_readable {n : ℕ} {p : List Bytes} (hp : p.length < n) {a : Bytes} (ha : Holdable a)
    (hr : readable a = true) (as : List Bytes) :
    finish (loop (Parse.body n) (idle p) (escapeBytes a ++ (following as ++ [0]))) =
      finish (resume n (p ++ [a]) (following as ++ [0])) := by
  obtain ⟨c, rest, heq, hc⟩ := following_blank as
  rw [heq]
  exact finish_readable_blank hp ha hr hc rest

/-! ## The converse -/

/-- A string that is written unquoted although it is not a plain word. -/
structure Lost (a : Bytes) : Prop where
  holdable : Holdable a
  raw : needsQuotes a = false
  notWord : plainWord a = false

/-- The strings `M`, not empty, are still to be read, but the text of all but the last of them is
behind the parser. -/
structure Behind (n : ℕ) (p M as : List Bytes) : Prop where
  ne : M ≠ []
  lost : ∀ a ∈ M, Lost a
  room : p.length + M.length + as.length ≤ n

theorem Behind.lt {n : ℕ} {p M as : List Bytes} (h : Behind n p M as) : p.length < n := by
  have := h.room
  have := List.length_pos_iff.mpr h.ne
  omega

theorem raw_of_mem {a : Bytes} (h : needsQuotes a = false) {c : UInt8} (hc : c ∈ a) :
    quotable c = false := by
  simp only [needsQuotes, Bool.or_eq_false_iff, List.any_eq_false] at h
  simpa using h.2 c hc

theorem space_not_mem_raw {a : Bytes} (h : needsQuotes a = false) : ' '.toUInt8 ∉ a :=
  fun hm => absurd (raw_of_mem h hm) (by decide)

/-- Off the quotable characters the text of a raw string is made of blanks, single quotes and
plain words. -/
theorem startsWord_of_raw {c : UInt8} (h : quotable c = false) (hs : Options.space c = false)
    (hq : c ≠ '\''.toUInt8) : startsWord c = true := by
  simp only [quotable, Bool.or_eq_false_iff, beq_eq_false_iff_ne] at h
  obtain ⟨⟨⟨⟨⟨h1, h2⟩, -⟩, -⟩, h5⟩, h6⟩ := h
  simp [startsWord, hs, h1, h2, h5, h6, hq]

/-- The next word of a raw text, up to the blank that ends it. -/
theorem exists_word {r : Bytes} (hraw : ∀ c ∈ r, quotable c = false) (rest : Bytes)
    (hrest : ∃ c t, rest = c :: t ∧ Options.space c = true) :
    ∃ u c t, r ++ rest = u ++ c :: t ∧ u <+: r ∧ (∀ d ∈ u, wordChar d = true) ∧
      Options.space c = true := by
  induction r with
  | nil =>
    obtain ⟨c, t, rfl, hc⟩ := hrest
    exact ⟨[], c, t, rfl, List.nil_prefix, by simp, hc⟩
  | cons d r ih =>
    cases hd : Options.space d with
    | true => exact ⟨[], d, r ++ rest, rfl, List.nil_prefix, by simp, hd⟩
    | false =>
      obtain ⟨u, c, t, heq, hu, hw, hc⟩ := ih fun e he => hraw e (List.mem_cons_of_mem d he)
      refine ⟨d :: u, c, t, by simp [heq], List.cons_prefix_cons.mpr ⟨rfl, hu⟩, ?_, hc⟩
      intro e he
      rcases List.mem_cons.mp he with rfl | he
      · have hq := hraw e List.mem_cons_self
        simp only [quotable, Bool.or_eq_false_iff, beq_eq_false_iff_ne] at hq
        simp [wordChar, hd, hq.1.1.1.1.1]
      · exact hw e he

/-- A single-quoted text that is one of the raw strings ends inside the raw text it began in, for
the strings are separated by spaces. -/
theorem quote_inside {r s t' : Bytes} {as : List Bytes} (hs : ' '.toUInt8 ∉ s)
    (heq : r ++ following as = s ++ '\''.toUInt8 :: t') :
    ∃ r', r = s ++ '\''.toUInt8 :: r' ∧ t' = r' ++ following as := by
  rcases List.append_eq_append_iff.mp heq with ⟨x, rfl, hx⟩ | ⟨x, rfl, hx⟩
  · -- the quote stands in what follows, so the space before it was read
    exfalso
    cases as with
    | nil =>
      cases x <;> simp [following] at hx
    | cons a as =>
      cases x with
      | nil =>
        have := (List.cons.inj hx).1
        revert this
        decide
      | cons d x =>
        obtain ⟨rfl, -⟩ := List.cons.inj hx
        exact hs (by simp)
  · cases x with
    | nil =>
      exfalso
      cases as with
      | nil => simp [following] at hx
      | cons a as =>
        have := (List.cons.inj hx).1
        revert this
        decide
    | cons d x =>
      obtain ⟨rfl, rfl⟩ := List.cons.inj hx
      exact ⟨x, rfl, rfl⟩

section Stuck

variable {n : ℕ}

/-- The parser inside the raw text of the last string of `M`; `hnext` is the same at the end of it.
The induction is on the length of the text that is left. -/
theorem stuck_inside {as : List Bytes} (has : ∀ a ∈ as, Holdable a)
    (hnext : ∀ p M, Behind n p M as →
      finish (loop (Parse.body n) (idle p) (following as ++ [0])) ≠ .ok (p ++ (M ++ as))) :
    ∀ (k : ℕ) (r : Bytes) (p M : List Bytes), r.length ≤ k → Behind n p M as →
      (∃ l, M.getLast? = some l ∧ r <:+ l) →
      finish (loop (Parse.body n) (idle p) (r ++ (following as ++ [0]))) ≠ .ok (p ++ (M ++ as)) := by
  intro k
  induction k with
  | zero =>
    intro r p M hk hM _
    obtain rfl := List.length_eq_zero_iff.mp (Nat.le_zero.mp hk)
    exact hnext p M hM
  | succ k ih =>
    rintro (_ | ⟨c, r⟩) p M hk hM ⟨l, hl, hrl⟩
    · exact hnext p M hM
    · have hlM : l ∈ M := List.mem_of_getLast? hl
      have hraw : ∀ d ∈ c :: r, quotable d = false := fun d hd =>
        raw_of_mem (hM.lost l hlM).raw (hrl.subset hd)
      have hzero : 0 ∉ c :: r := fun h => (hM.lost l hlM).holdable.1 (hrl.subset h)
      have hlen : (c :: r).length ≤ optionParmSize :=
        hrl.length_le.trans (hM.lost l hlM).holdable.2.le
      rw [List.length_cons] at hk
      cases hc : Options.space c with
      | true =>
        rw [List.cons_append, loop_cons_running (body_of_step (step_blank hc) hM.lt)]
        exact ih r p M (by omega) hM ⟨l, hl, (List.suffix_cons c r).trans hrl⟩
      | false =>
        obtain ⟨m, M', rfl⟩ := List.exists_cons_of_ne_nil hM.ne
        by_cases hq : c = '\''.toUInt8
        · subst hq
          rw [List.cons_append, loop_cons_running (body_of_step step_single_start hM.lt),
            ← List.append_assoc]
          have hzero' : 0 ∉ r ++ following as := by
            rw [List.mem_append, not_or]
            exact ⟨fun h => hzero (List.mem_cons_of_mem _ h), zero_not_mem_following has⟩
          rcases loop_single_cases hM.lt (r ++ following as) [] hzero' with
            ⟨e, he⟩ | ⟨s, t', heq, hs, hloop⟩
          · rw [he]
            simp
          · rw [hloop, List.nil_append]
            by_cases hsm : s = m
            · have hspace : ' '.toUInt8 ∉ s := by
                rw [hsm]
                exact space_not_mem_raw (hM.lost m List.mem_cons_self).raw
              obtain ⟨r', rfl, rfl⟩ := quote_inside hspace heq
              cases M' with
              | nil =>
                -- the last string would be longer than itself
                exfalso
                have hlm : l = m := (Option.some.inj hl).symm
                have := hrl.length_le
                rw [hlm, ← hsm] at this
                simp at this
              | cons m' M' =>
                have hroom := hM.room
                simp only [List.length_cons] at hroom
                have hM' : Behind n (p ++ [s]) (m' :: M') as :=
                  { ne := List.cons_ne_nil _ _
                    lost := fun a ha => hM.lost a (List.mem_cons_of_mem m ha)
                    room := by simp; omega }
                have hr' : r' <:+ l := by
                  refine List.IsSuffix.trans ?_ hrl
                  exact ⟨'\''.toUInt8 :: (s ++ ['\''.toUInt8]), by simp⟩
                have hih := ih r' (p ++ [s]) (m' :: M')
                  (by simp at hk; omega) hM' ⟨l, by rwa [List.getLast?_cons_cons] at hl, hr'⟩
                rw [resume, if_neg (Nat.not_le.mpr hM'.lt), List.append_assoc]
                rw [List.append_assoc, List.singleton_append, ← List.cons_append] at hih
                rw [← hsm]
                exact hih
            · rw [List.cons_append]
              exact finish_resume_ne hsm
        · obtain ⟨u, d, t, heq, hu, hw, hd⟩ :=
            exists_word (fun e he => hraw e (List.mem_cons_of_mem c he)) _ (following_blank as)
          have hword : plainWord (c :: u) = true := by
            simp only [plainWord, Bool.and_eq_true, List.all_eq_true]
            exact ⟨startsWord_of_raw (hraw c List.mem_cons_self) hc hq, hw⟩
          have hulen : (c :: u).length ≤ optionParmSize := by
            have := hu.length_le
            simp only [List.length_cons] at hlen ⊢
            omega
          rw [List.cons_append, heq, ← List.cons_append, loop_word hM.lt hd t hword hulen,
            List.cons_append]
          refine finish_resume_ne fun h => ?_
          rw [h, (hM.lost m List.mem_cons_self).notWord] at hword
          cases hword

theorem Lost.not_readable {a : Bytes} (h : Lost a) : readable a = false := by
  rw [readable, if_neg (by simp [h.raw]), h.notWord]

/-- A string that is not readable is lost, or the line is in error. -/
theorem not_readable_cases {p : List Bytes} (hp : p.length < n) {a : Bytes} (ha : Holdable a)
    (hr : readable a = false) :
    Lost a ∨ ∀ rest, loop (Parse.body n) (idle p) (escapeBytes a ++ rest) =
      .failed .badBackslash := by
  unfold readable at hr
  split_ifs at hr with hq
  · refine .inr fun rest => ?_
    rw [escapeBytes, if_pos hq, List.cons_append, List.append_assoc]
    exact loop_quoted_newline hp _ ha.1 (by simpa using hr) ha.2.le
  · exact .inl ⟨ha, by simpa using hq, hr⟩

/-- The parser never catches up once strings are behind it. -/
theorem stuck : ∀ (as : List Bytes), (∀ a ∈ as, Holdable a) → ∀ p M, Behind n p M as →
    finish (loop (Parse.body n) (idle p) (following as ++ [0])) ≠ .ok (p ++ (M ++ as))
  | [], _, p, M, hM => by
    rw [following, List.flatMap_nil, List.nil_append,
      loop_cons_running (body_of_step (step_blank rfl) hM.lt)]
    intro h
    have := close_eq (s := idle p) h
    rw [List.append_nil] at this
    exact hM.ne (List.self_eq_append_right.mp this)
  | a :: as, has, p, M, hM => by
    have ha := has a List.mem_cons_self
    have has' : ∀ b ∈ as, Holdable b := fun b hb => has b (List.mem_cons_of_mem a hb)
    have htext : following (a :: as) ++ [0] =
        ' '.toUInt8 :: (escapeBytes a ++ (following as ++ [0])) := by
      simp [following]
    rw [htext, loop_cons_running (body_of_step (step_blank rfl) hM.lt)]
    cases hr : readable a with
    | true =>
      rw [finish_readable hM.lt ha hr]
      obtain ⟨m, M', rfl⟩ := List.exists_cons_of_ne_nil hM.ne
      rw [List.cons_append]
      refine finish_resume_ne fun h => ?_
      rw [h, (hM.lost m List.mem_cons_self).not_readable] at hr
      cases hr
    | false =>
      rcases not_readable_cases hM.lt ha hr with hlost | herr
      · have hroom := hM.room
        rw [List.length_cons] at hroom
        have hM' : Behind n p (M ++ [a]) as :=
          { ne := by simp
            lost := by
              intro b hb
              rcases List.mem_append.mp hb with hb | hb
              · exact hM.lost b hb
              · exact (List.mem_singleton.mp hb) ▸ hlost
            room := by simp; omega }
        have h := stuck_inside has' (stuck as has') a.length a p (M ++ [a]) le_rfl hM'
          ⟨a, by simp, List.suffix_refl a⟩
        rw [escapeBytes, if_neg (by simp [hlost.raw])]
        rwa [List.append_assoc M, List.singleton_append] at h
      · rw [herr]
        intro h
        cases h

/-- **The strings that follow on a line are read back exactly if all of them are readable.** -/
theorem finish_following_iff : ∀ (as p : List Bytes), p.length + as.length ≤ n →
    (∀ a ∈ as, Holdable a) →
    (finish (resume n p (following as ++ [0])) = .ok (p ++ as) ↔ ∀ a ∈ as, readable a = true)
  | [], p, _, _ => by
    rw [following, List.flatMap_nil, List.nil_append, finish_resume_blank rfl, List.append_nil]
    refine iff_of_true ?_ (by simp)
    unfold resume
    split_ifs <;> rfl
  | a :: as, p, hroom, has => by
    rw [List.length_cons] at hroom
    have hp : p.length < n := by omega
    have ha := has a List.mem_cons_self
    have has' : ∀ b ∈ as, Holdable b := fun b hb => has b (List.mem_cons_of_mem a hb)
    have htext : following (a :: as) ++ [0] =
        ' '.toUInt8 :: (escapeBytes a ++ (following as ++ [0])) := by
      simp [following]
    rw [htext, finish_resume_blank rfl, resume, if_neg (Nat.not_le.mpr hp), List.forall_mem_cons]
    cases hr : readable a with
    | true =>
      rw [finish_readable hp ha hr]
      have ih := finish_following_iff as (p ++ [a]) (by simp; omega) has'
      rw [List.append_assoc, List.singleton_append] at ih
      rw [ih]
      simp
    | false =>
      refine iff_of_false ?_ (by simp)
      rcases not_readable_cases hp ha hr with hlost | herr
      · have hM : Behind n p [a] as :=
          { ne := by simp
            lost := fun b hb => (List.mem_singleton.mp hb) ▸ hlost
            room := by simp; omega }
        have h := stuck_inside has' (stuck as has') a.length a p [a] le_rfl hM
          ⟨a, rfl, List.suffix_refl a⟩
        rw [escapeBytes, if_neg (by simp [hlost.raw])]
        exact h
      · rw [herr]
        intro h
        cases h

end Stuck

/-! ## The condition on text -/

/-- The string has no newline, and it is quoted, or it contains no blank and does not begin with a
single quote. -/
def Survives (a : Text) : Prop :=
  '\n' ∉ a ∧
    ((a = [] ∨ '\\' ∈ a ∨ '"' ∈ a ∨ ' ' ∈ a ∨ '#' ∈ a ∨ ';' ∈ a) ∨
      ('\t' ∉ a ∧ '\x0b' ∉ a ∧ '\x0c' ∉ a ∧ '\r' ∉ a) ∧ a.head? ≠ some '\'')

instance (a : Text) : Decidable (Survives a) := inferInstanceAs (Decidable (_ ∧ _))

theorem needsQuotes_encode_iff (a : Text) :
    needsQuotes (encode a) = true ↔
      '\n' ∈ a ∨ a = [] ∨ '\\' ∈ a ∨ '"' ∈ a ∨ ' ' ∈ a ∨ '#' ∈ a ∨ ';' ∈ a := by
  rw [← not_iff_not, Bool.not_eq_true, needsQuotes_encode, flatMap_escapeChar_eq_self]
  tauto

theorem space_iff (c : UInt8) :
    Options.space c = true ↔
      c = 0 ∨ c = '\t'.toUInt8 ∨ c = '\n'.toUInt8 ∨ c = '\x0b'.toUInt8 ∨ c = '\x0c'.toUInt8 ∨
        c = '\r'.toUInt8 ∨ c = ' '.toUInt8 :=
  byte_induction (P := fun c => Options.space c = true ↔
      c = 0 ∨ c = '\t'.toUInt8 ∨ c = '\n'.toUInt8 ∨ c = '\x0b'.toUInt8 ∨ c = '\x0c'.toUInt8 ∨
        c = '\r'.toUInt8 ∨ c = ' '.toUInt8) (by decide +kernel) c

theorem encode_head_quote (a : Text) :
    (encode a).head? = some '\''.toUInt8 ↔ a.head? = some '\'' := by
  cases a with
  | nil => simp
  | cons c a =>
    rw [encode_cons]
    by_cases hc : c.toNat < 128
    · rw [utf8EncodeChar_ascii hc]
      simp only [List.singleton_append, List.head?_cons, Option.some.injEq]
      exact ⟨toUInt8_inj_ascii hc (by decide), fun h => h ▸ rfl⟩
    · refine iff_of_false (fun h => ?_) fun h => ?_
      · cases hl : String.utf8EncodeChar c with
        | nil => exact String.utf8EncodeChar_ne_nil hl
        | cons b bs =>
          rw [hl] at h
          have hb := high_of_mem_utf8EncodeChar (Nat.le_of_not_lt hc) (hl ▸ List.mem_cons_self)
          rw [List.cons_append, List.head?_cons, Option.some.injEq] at h
          rw [h] at hb
          revert hb
          decide
      · rw [List.head?_cons, Option.some.injEq] at h
        rw [h] at hc
        exact hc (by decide)

/-- A raw string is a plain word if it has no blanks and no leading quote. -/
theorem plainWord_of_raw {bs : Bytes} (hraw : needsQuotes bs = false) :
    plainWord bs = true ↔
      (∀ c ∈ bs, Options.space c = false) ∧ bs.head? ≠ some '\''.toUInt8 := by
  cases bs with
  | nil => cases hraw
  | cons b bs =>
    have hq : ∀ c ∈ b :: bs, quotable c = false := fun c hc => raw_of_mem hraw hc
    simp only [plainWord, Bool.and_eq_true, List.all_eq_true, List.head?_cons, ne_eq,
      Option.some.injEq]
    constructor
    · rintro ⟨hb, hbs⟩
      simp only [startsWord, Bool.not_eq_true', Bool.or_eq_false_iff, beq_eq_false_iff_ne] at hb
      refine ⟨fun c hc => ?_, hb.2⟩
      rcases List.mem_cons.mp hc with rfl | hc
      · exact hb.1.1.1.1.1
      · have := hbs c hc
        simp only [wordChar, Bool.and_eq_true, Bool.not_eq_true'] at this
        exact this.1
    · rintro ⟨hs, hb⟩
      refine ⟨startsWord_of_raw (hq b List.mem_cons_self) (hs b List.mem_cons_self) hb,
        fun c hc => ?_⟩
      have h1 := hs c (List.mem_cons_of_mem b hc)
      have h2 := hq c (List.mem_cons_of_mem b hc)
      simp only [quotable, Bool.or_eq_false_iff, beq_eq_false_iff_ne] at h2
      simp [wordChar, h1, h2.1.1.1.1.1]

theorem readable_encode {a : Text} (h0 : '\x00' ∉ a) : readable (encode a) = true ↔ Survives a := by
  have hmem : ∀ d : Char, d.toNat < 128 → (d.toUInt8 ∈ encode a ↔ d ∈ a) :=
    fun d hd => mem_encode_ascii hd
  have hquotes := needsQuotes_encode_iff a
  unfold readable Survives
  cases hq : needsQuotes (encode a) with
  | true =>
    have hnewline : (!(encode a).contains '\n'.toUInt8) = true ↔ '\n' ∉ a := by
      rw [Bool.not_eq_true', ← Bool.not_eq_true, List.contains_iff_mem, hmem '\n' (by decide)]
    rw [if_pos rfl, hnewline]
    refine ⟨fun hn => ⟨hn, .inl ?_⟩, And.left⟩
    exact (hquotes.mp hq).resolve_left hn
  | false =>
    have hraw := mt hquotes.mpr (by simp [hq])
    rw [not_or] at hraw
    have hspace : ' ' ∉ a := fun h => hraw.2 (.inr (.inr (.inr (.inl h))))
    have hblank : (∀ c ∈ encode a, Options.space c = false) ↔
        '\t' ∉ a ∧ '\x0b' ∉ a ∧ '\x0c' ∉ a ∧ '\r' ∉ a := by
      rw [← hmem '\t' (by decide), ← hmem '\x0b' (by decide), ← hmem '\x0c' (by decide),
        ← hmem '\r' (by decide)]
      constructor
      · intro h
        refine ⟨?_, ?_, ?_, ?_⟩ <;> (intro hm; exact absurd (h _ hm) (by decide))
      · rintro ⟨h1, h2, h3, h4⟩ c hc
        rw [← Bool.not_eq_true, space_iff]
        rintro (rfl | rfl | rfl | rfl | rfl | rfl | rfl)
        · exact h0 ((hmem '\x00' (by decide)).mp hc)
        · exact h1 hc
        · exact hraw.1 ((hmem '\n' (by decide)).mp hc)
        · exact h2 hc
        · exact h3 hc
        · exact h4 hc
        · exact hspace ((hmem ' ' (by decide)).mp hc)
    rw [if_neg (by simp), plainWord_of_raw hq, Ne, encode_head_quote, hblank]
    exact ⟨fun h => ⟨hraw.1, .inr h⟩, fun h => h.2.resolve_left hraw.2⟩

/-! ## Escaped lines -/

theorem encode_escapedLine (a : Text) (as : List Text) :
    encode (escapedLine (a :: as)) =
      escapeBytes (encode a) ++ following (as.map encode) := by
  induction as generalizing a with
  | nil => simp [escapedLine, following, encode_openVpnEscape]
  | cons b bs ih =>
    rw [escapedLine, encode_append, encode_openVpnEscape, encode_cons, ih b]
    · simp [following, utf8EncodeChar_ascii (c := ' ') (by decide)]
    · simp

theorem newline_not_mem_escapedLine : ∀ as : List Text, '\n' ∉ escapedLine as
  | [] => by simp [escapedLine]
  | [a] => newline_not_mem_openVpnEscape a
  | a :: b :: bs => by
    rw [escapedLine, List.mem_append, List.mem_cons, not_or, not_or]
    · exact ⟨newline_not_mem_openVpnEscape a, by decide, newline_not_mem_escapedLine (b :: bs)⟩
    · simp

/-- A string that OpenVPN can hold has no NUL as text either. -/
theorem nul_not_mem {a : Text} (h : Holdable (encode a)) : '\x00' ∉ a :=
  fun hm => h.1 ((mem_encode_ascii (d := '\x00') (by decide)).mpr hm)

theorem parse_escapedLine_iff {as : List Text} (hne : as ≠ []) (hlen : as.length ≤ maxParms)
    (h : ∀ a ∈ as, Holdable (encode a)) :
    parseLine maxParms (encode (escapedLine as)) = .ok (as.map encode) ↔ ∀ a ∈ as, Survives a := by
  obtain ⟨a, as, rfl⟩ := List.exists_cons_of_ne_nil hne
  have key := finish_following_iff (n := maxParms) ((a :: as).map encode) [] (by simpa using hlen)
    (by simpa using h)
  have htext : following ((a :: as).map encode) ++ [0] =
      ' '.toUInt8 :: (encode (escapedLine (a :: as)) ++ [0]) := by
    rw [encode_escapedLine]
    simp [following]
  rw [htext, finish_resume_blank rfl, resume, if_neg (by decide), List.nil_append] at key
  rw [parseLine, show ({} : Parse) = idle [] from rfl, key, List.forall_mem_map]
  exact forall₂_congr fun b hb => readable_encode (nul_not_mem (h b hb))

end VpnCore.Config
