import Mathlib.Data.List.DropRight
import Mathlib.Data.List.Infix
import Mathlib.Tactic

/-!
# VpnCore.Lib.Separated — lists joined by a separator

`splitBy sep` cuts a list at the occurrences of `sep`, from the left and without overlap.  It undoes
`List.intercalate sep` on parts that do not contain `sep`, provided that two occurrences of `sep`
cannot overlap (`Unbordered`); otherwise the end of a part and the beginning of the separator can
form an occurrence that was not put there.
-/

namespace VpnCore.Lib

variable {α : Type*}

/-- No proper part of `sep` is both its beginning and its end. -/
def Unbordered (sep : List α) : Prop :=
  ∀ t, t ≠ [] → t <+: sep → t <:+ sep → t = sep

variable {sep part x rest : List α}

/-- In front of the separator, no occurrence begins inside a part that does not contain it. -/
theorem Unbordered.not_prefix (hun : Unbordered sep) (hne : x ≠ []) (h : ¬ sep <:+: x) :
    ¬ sep <+: x ++ (sep ++ rest) := by
  intro hp
  rcases List.prefix_or_prefix_of_prefix hp (List.prefix_append x (sep ++ rest)) with hsx | hxs
  · exact h hsx.isInfix
  · -- the occurrence would reach from `x` into the separator by a proper end `t` of itself
    obtain ⟨t, ht⟩ := hxs
    have hlen : sep.length = x.length + t.length := by rw [← ht, List.length_append]
    have hx : 0 < x.length := List.length_pos_iff.2 hne
    have htp : t <+: sep ++ rest := by
      have : x ++ t <+: x ++ (sep ++ rest) := ht ▸ hp
      exact (List.prefix_append_right_inj x).1 this
    have hts : t <+: sep :=
      List.prefix_of_prefix_length_le htp (List.prefix_append sep rest) (by omega)
    by_cases ht0 : t = []
    · subst ht0
      rw [List.append_nil] at ht
      exact h (ht ▸ List.infix_refl _)
    · have := congrArg List.length (hun t ht0 hts ⟨x, ht⟩)
      omega

variable [DecidableEq α]

/-- The cut, with `skip` elements of an occurrence still to pass over and `part` read since the last
occurrence. -/
def splitLoop (sep : List α) : ℕ → List α → List α → List (List α)
  | _, part, [] => [part]
  | skip + 1, part, _ :: s => splitLoop sep skip part s
  | 0, part, c :: s =>
    if sep.isPrefixOf (c :: s) then part :: splitLoop sep (sep.length - 1) [] s
    else splitLoop sep 0 (part ++ [c]) s

def splitBy (sep s : List α) : List (List α) := splitLoop sep 0 [] s

theorem splitLoop_skip (sep part rest : List α) :
    ∀ t : List α, splitLoop sep t.length part (t ++ rest) = splitLoop sep 0 part rest
  | [] => rfl
  | _ :: t => splitLoop_skip sep part rest t

/-- At the separator a part ends. -/
theorem splitLoop_sep (hsep : sep ≠ []) :
    splitLoop sep 0 part (sep ++ rest) = part :: splitLoop sep 0 [] rest := by
  obtain ⟨c, t, rfl⟩ := List.exists_cons_of_ne_nil hsep
  have hpre : (c :: t).isPrefixOf (c :: (t ++ rest)) = true :=
    List.isPrefixOf_iff_prefix.2 (List.prefix_append (c :: t) rest)
  rw [List.cons_append, splitLoop, if_pos hpre, List.length_cons, Nat.add_sub_cancel,
    splitLoop_skip]

theorem splitLoop_cons {c : α} {s : List α} (h : ¬ sep <+: c :: s) :
    splitLoop sep 0 part (c :: s) = splitLoop sep 0 (part ++ [c]) s := by
  have hpre : ¬ sep.isPrefixOf (c :: s) = true := fun hp => h (List.isPrefixOf_iff_prefix.1 hp)
  rw [splitLoop, if_neg hpre]

/-- A text without the separator is one part. -/
theorem splitLoop_free (h : ¬ sep <:+: x) : splitLoop sep 0 part x = [part ++ x] := by
  induction x generalizing part with
  | nil => simp [splitLoop]
  | cons c x ih =>
    have hpre : ¬ sep <+: c :: x := fun hp => h hp.isInfix
    have hx : ¬ sep <:+: x := fun hi => h (List.infix_cons hi)
    rw [splitLoop_cons hpre, ih hx, List.append_assoc, List.singleton_append]

/-- A part that does not contain the separator is read up to the separator behind it. -/
theorem splitLoop_part (hsep : sep ≠ []) (hun : Unbordered sep) (h : ¬ sep <:+: x) :
    splitLoop sep 0 part (x ++ (sep ++ rest)) = (part ++ x) :: splitLoop sep 0 [] rest := by
  induction x generalizing part with
  | nil => simpa using splitLoop_sep hsep
  | cons c x ih =>
    have hx : ¬ sep <:+: x := fun hi => h (List.infix_cons hi)
    have hpre : ¬ sep <+: c :: (x ++ (sep ++ rest)) :=
      hun.not_prefix (List.cons_ne_nil c x) h
    rw [List.cons_append, splitLoop_cons hpre, ih hx, List.append_assoc, List.singleton_append]

/-- **The parts are read back.** -/
theorem splitBy_intercalate (hsep : sep ≠ []) (hun : Unbordered sep) :
    ∀ {xs : List (List α)}, xs ≠ [] → (∀ x ∈ xs, ¬ sep <:+: x) →
      splitBy sep (sep.intercalate xs) = xs
  | [], hne, _ => absurd rfl hne
  | [x], _, h => by
    have hx : ¬ sep <:+: x := h x (List.mem_singleton_self x)
    have hcut : sep.intercalate [x] = x := by simp [List.intercalate]
    rw [hcut, splitBy, splitLoop_free hx, List.nil_append]
  | x :: y :: ys, _, h => by
    have ih := splitBy_intercalate hsep hun (List.cons_ne_nil y ys)
      (fun z hz => h z (List.mem_cons_of_mem x hz))
    have hx : ¬ sep <:+: x := h x List.mem_cons_self
    have hcut : sep.intercalate (x :: y :: ys) = x ++ (sep ++ sep.intercalate (y :: ys)) := by
      simp [List.intercalate]
    rw [hcut, splitBy, splitLoop_part hsep hun hx, List.nil_append]
    exact congrArg (x :: ·) ih

/-- If no occurrence of the separator begins in `part`, no part of the cut contains one. -/
theorem splitLoop_parts_free (hsep : sep ≠ []) {s : List α} {skip : ℕ}
    (hpart : ∀ t u, part = t ++ u → u ≠ [] → ¬ sep <+: u ++ s.drop skip) :
    ∀ y ∈ splitLoop sep skip part s, ¬ sep <:+: y := by
  have hself : ∀ {part rest : List α}, (∀ t u, part = t ++ u → u ≠ [] → ¬ sep <+: u ++ rest) →
      ¬ sep <:+: part := by
    rintro part rest h ⟨t, u, rfl⟩
    refine h t (sep ++ u) (List.append_assoc t sep u) (List.append_ne_nil_of_left_ne_nil hsep u) ?_
    rw [List.append_assoc]
    exact List.prefix_append sep _
  induction s generalizing skip part with
  | nil =>
    intro y hy
    obtain rfl : y = part := by simpa [splitLoop] using hy
    exact hself hpart
  | cons c s ih =>
    cases skip with
    | succ skip => exact ih hpart
    | zero =>
      intro y hy
      rw [splitLoop] at hy
      split_ifs at hy with hpre
      · rcases List.mem_cons.1 hy with rfl | hy
        · exact hself hpart
        · exact ih (fun t u h hu => absurd (List.append_eq_nil_iff.1 h.symm).2 hu) y hy
      · refine ih (fun t u h hu => ?_) y hy
        -- an occurrence would begin in `part`, or at `c`
        rcases List.eq_nil_or_concat u with rfl | ⟨u', c', rfl⟩
        · exact absurd rfl hu
        · rw [List.concat_eq_append, ← List.append_assoc] at h
          obtain ⟨rfl, hc⟩ := List.append_inj' h rfl
          obtain rfl := List.singleton_inj.1 hc
          rw [List.concat_eq_append, List.append_assoc, List.drop_zero, List.singleton_append]
          by_cases hu' : u' = []
          · subst hu'
            rwa [List.nil_append, ← List.isPrefixOf_iff_prefix]
          · exact hpart t u' rfl hu'

/-- **No part contains the separator.** -/
theorem not_infix_of_mem_splitBy (hsep : sep ≠ []) {s y : List α} (hy : y ∈ splitBy sep s) :
    ¬ sep <:+: y :=
  splitLoop_parts_free hsep (fun _ _ h hu => absurd (List.append_eq_nil_iff.1 h.symm).2 hu) y hy

/-! ## What stays of a list -/

omit [DecidableEq α] in
theorem mem_dropWhile_iff {p : α → Bool} {a : α} : ∀ {l : List α},
    a ∈ l.dropWhile p ↔ ∃ l₁ l₂, l = l₁ ++ a :: l₂ ∧ ∃ b ∈ l₁ ++ [a], p b = false
  | [] => by simp
  | c :: l => by
    by_cases hc : p c = true
    · rw [List.dropWhile_cons_of_pos hc, mem_dropWhile_iff]
      constructor
      · rintro ⟨l₁, l₂, rfl, b, hb, hp⟩
        exact ⟨c :: l₁, l₂, rfl, b, List.mem_cons_of_mem c hb, hp⟩
      · rintro ⟨l₁, l₂, h, b, hb, hp⟩
        cases l₁ with
        | nil =>
          obtain ⟨rfl, -⟩ := List.cons.inj h
          obtain rfl := List.mem_singleton.1 hb
          rw [hc] at hp
          cases hp
        | cons c' l₁ =>
          obtain ⟨rfl, rfl⟩ := List.cons.inj h
          rcases List.mem_cons.1 hb with rfl | hb
          · rw [hc] at hp
            cases hp
          · exact ⟨l₁, l₂, rfl, b, hb, hp⟩
    · rw [List.dropWhile_cons_of_neg hc]
      constructor
      · intro h
        obtain ⟨l₁, l₂, hl⟩ := List.append_of_mem h
        refine ⟨l₁, l₂, hl, c, ?_, by simpa using hc⟩
        cases l₁ with
        | nil => exact List.mem_singleton.2 (List.cons.inj hl).1
        | cons c' l₁ => rw [(List.cons.inj hl).1]; exact List.mem_cons_self
      · rintro ⟨l₁, l₂, h, -⟩
        exact h ▸ List.mem_append_right l₁ List.mem_cons_self

omit [DecidableEq α] in
/-- What stays if the end of a list is dropped: an element stays if one that is not dropped stands there or
behind it. -/
theorem mem_rdropWhile_iff {p : α → Bool} {a : α} {l : List α} :
    a ∈ l.rdropWhile p ↔ ∃ l₁ l₂, l = l₁ ++ a :: l₂ ∧ ∃ b ∈ a :: l₂, p b = false := by
  rw [List.rdropWhile, List.mem_reverse, mem_dropWhile_iff]
  constructor
  · rintro ⟨l₁, l₂, h, b, hb, hp⟩
    refine ⟨l₂.reverse, l₁.reverse, ?_, b, ?_, hp⟩
    · rw [← List.reverse_reverse l, h]
      simp
    · rcases List.mem_append.1 hb with hb | hb
      · exact List.mem_cons_of_mem a (List.mem_reverse.2 hb)
      · exact List.mem_singleton.1 hb ▸ List.mem_cons_self
  · rintro ⟨l₁, l₂, rfl, b, hb, hp⟩
    refine ⟨l₂.reverse, l₁.reverse, by simp, b, ?_, hp⟩
    rcases List.mem_cons.1 hb with rfl | hb
    · exact List.mem_append_right _ (List.mem_singleton_self b)
    · exact List.mem_append_left _ (List.mem_reverse.2 hb)

/-! ## A separator of one element -/

variable {d : α} {xs ys : List (List α)}

omit [DecidableEq α] in
/-- A list is cut at the first occurrence of an element. -/
theorem append_cons_inj {a b y : List α} {c : α} (ha : d ∉ a) (hb : c ∉ b) :
    a ++ c :: x = b ++ d :: y ↔ a = b ∧ c = d ∧ x = y := by
  induction a generalizing b with
  | nil =>
    cases b with
    | nil => simp
    | cons e b =>
      simp only [List.nil_append, List.cons_append, List.cons.injEq, reduceCtorEq, false_and,
        iff_false, not_and]
      rintro rfl
      exact absurd List.mem_cons_self hb
  | cons e a ih =>
    cases b with
    | nil =>
      simp only [List.nil_append, List.cons_append, List.cons.injEq, reduceCtorEq, false_and,
        iff_false, not_and]
      rintro rfl
      exact absurd List.mem_cons_self ha
    | cons e' b =>
      rw [List.cons_append, List.cons_append, List.cons.injEq, List.cons.injEq,
        ih (fun h => ha (List.mem_cons_of_mem e h)) (fun h => hb (List.mem_cons_of_mem e' h)),
        and_assoc]

omit [DecidableEq α] in
/-- A list is cut where its elements stop to have a property. -/
theorem append_inj_of_forall {p : α → Prop} {a b a' b' : List α} (ha : ∀ c ∈ a, p c)
    (hb : ∀ c ∈ b, ¬ p c) (ha' : ∀ c ∈ a', p c) (hb' : ∀ c ∈ b', ¬ p c)
    (h : a ++ b = a' ++ b') : a = a' ∧ b = b' := by
  rcases List.append_eq_append_iff.mp h with ⟨c, rfl, rfl⟩ | ⟨c, rfl, rfl⟩
  · have hc : c = [] := List.eq_nil_iff_forall_not_mem.mpr fun e he =>
      hb e (List.mem_append_left b' he) (ha' e (List.mem_append_right a he))
    subst hc
    exact ⟨(List.append_nil a).symm, rfl⟩
  · have hc : c = [] := List.eq_nil_iff_forall_not_mem.mpr fun e he =>
      hb' e (List.mem_append_left b he) (ha e (List.mem_append_right a' he))
    subst hc
    exact ⟨List.append_nil a', rfl⟩

omit [DecidableEq α] in
theorem intercalate_cons (hne : xs ≠ []) :
    [d].intercalate (x :: xs) = x ++ d :: [d].intercalate xs := by
  rw [List.intercalate_cons_of_ne_nil hne, List.append_assoc, List.singleton_append]

omit [DecidableEq α] in
theorem mem_intercalate {c : α} (h : c ∈ [d].intercalate xs) : c = d ∨ ∃ x ∈ xs, c ∈ x := by
  induction xs with
  | nil => simp at h
  | cons x xs ih =>
    by_cases hne : xs = []
    · subst hne
      rw [List.intercalate_singleton] at h
      exact .inr ⟨x, List.mem_cons_self, h⟩
    · rw [intercalate_cons hne, List.mem_append, List.mem_cons] at h
      rcases h with h | h | h
      · exact .inr ⟨x, List.mem_cons_self, h⟩
      · exact .inl h
      · obtain h | ⟨y, hy, hc⟩ := ih h
        · exact .inl h
        · exact .inr ⟨y, List.mem_cons_of_mem x hy, hc⟩

omit [DecidableEq α] in
theorem mem_intercalate_of_mem {c : α} (hx : x ∈ xs) (hc : c ∈ x) : c ∈ [d].intercalate xs := by
  induction xs with
  | nil => cases hx
  | cons y xs ih =>
    by_cases hne : xs = []
    · subst hne
      rw [List.intercalate_singleton, ← List.mem_singleton.mp hx]
      exact hc
    · rw [intercalate_cons hne, List.mem_append, List.mem_cons]
      rcases List.mem_cons.mp hx with rfl | hx
      · exact .inl hc
      · exact .inr (.inr (ih hx))

/-- Parts that are not empty are read back, also when there are none. -/
theorem intercalate_inj (hxs : ∀ x ∈ xs, x ≠ [] ∧ d ∉ x) (hys : ∀ y ∈ ys, y ≠ [] ∧ d ∉ y)
    (h : [d].intercalate xs = [d].intercalate ys) : xs = ys := by
  have hnil : ∀ {zs : List (List α)}, (∀ z ∈ zs, z ≠ [] ∧ d ∉ z) → [d].intercalate zs = [] →
      zs = [] := by
    intro zs hzs h0
    rcases zs with _ | ⟨z, _ | ⟨w, ws⟩⟩
    · rfl
    · rw [List.intercalate_singleton] at h0
      exact absurd h0 (hzs z List.mem_cons_self).1
    · rw [intercalate_cons (List.cons_ne_nil w ws)] at h0
      simp at h0
  by_cases hx : xs = []
  · subst hx
    exact (hnil hys (h.symm.trans List.intercalate_nil)).symm
  · by_cases hy : ys = []
    · subst hy
      exact hnil hxs (h.trans List.intercalate_nil)
    · have hsplit := congrArg (List.splitOn d) h
      rwa [List.splitOn_intercalate d (fun x hx => (hxs x hx).2) hx,
        List.splitOn_intercalate d (fun y hy => (hys y hy).2) hy] at hsplit

omit [DecidableEq α] in
/-- The last part of one joined list and the first part of another are one part of both lists
together. -/
theorem intercalate_append (d : α) (init : List (List α)) (x y : List α) (rest : List (List α)) :
    [d].intercalate (init ++ [x]) ++ [d].intercalate (y :: rest) =
      [d].intercalate (init ++ (x ++ y) :: rest) := by
  induction init with
  | nil =>
    rw [List.nil_append, List.nil_append, List.intercalate_singleton]
    by_cases hr : rest = []
    · subst hr
      rw [List.intercalate_singleton, List.intercalate_singleton]
    · rw [intercalate_cons hr, intercalate_cons hr, List.append_assoc]
  | cons z init ih =>
    have hleft : init ++ [x] ≠ [] := List.append_ne_nil_of_right_ne_nil init (by simp)
    have hright : init ++ (x ++ y) :: rest ≠ [] := List.append_ne_nil_of_right_ne_nil init (by simp)
    rw [List.cons_append, List.cons_append, intercalate_cons hleft, intercalate_cons hright,
      List.append_assoc, List.cons_append, ih]

omit [DecidableEq α] in
/-- Parts that are each followed by the separator. -/
theorem flatMap_snoc (hne : xs ≠ []) : xs.flatMap (· ++ [d]) = [d].intercalate xs ++ [d] := by
  induction xs with
  | nil => exact absurd rfl hne
  | cons y xs ih =>
    by_cases hx : xs = []
    · subst hx
      simp
    · rw [intercalate_cons hx, List.flatMap_cons, ih hx]
      simp

omit [DecidableEq α] in
/-- The parts are what is between the elements that separate. -/
theorem mem_splitOnP {p : α → Bool} {l : List α} (hx : x ∈ l.splitOnP p) {c : α} (hc : c ∈ x) :
    c ∈ l ∧ p c = false := by
  induction l generalizing x with
  | nil =>
    rw [List.splitOnP_nil, List.mem_singleton] at hx
    rw [hx] at hc
    cases hc
  | cons b l ih =>
    rw [List.splitOnP_cons_eq_if_modifyHead] at hx
    split_ifs at hx with hb
    · rcases List.mem_cons.mp hx with rfl | hx
      · cases hc
      · exact (ih hx hc).imp_left (List.mem_cons_of_mem b)
    · obtain ⟨head, tail, hs⟩ := List.exists_cons_of_ne_nil (List.splitOnP_ne_nil p l)
      rw [hs, List.modifyHead_cons] at hx
      rw [hs] at ih
      rcases List.mem_cons.mp hx with rfl | hx
      · rcases List.mem_cons.mp hc with rfl | hc
        · exact ⟨List.mem_cons_self, by simpa using hb⟩
        · exact (ih List.mem_cons_self hc).imp_left (List.mem_cons_of_mem b)
      · exact (ih (List.mem_cons_of_mem _ hx) hc).imp_left (List.mem_cons_of_mem b)

theorem mem_of_mem_splitOn {l : List α} {c : α} (hx : x ∈ l.splitOn d) (hc : c ∈ x) : c ∈ l :=
  (mem_splitOnP hx hc).1

theorem not_mem_of_mem_splitOn {l : List α} (hx : x ∈ l.splitOn d) : d ∉ x := by
  intro hc
  have := (mem_splitOnP hx hc).2
  simp at this

end VpnCore.Lib
