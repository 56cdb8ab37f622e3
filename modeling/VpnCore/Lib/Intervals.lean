import Mathlib.Order.Defs.LinearOrder
import Mathlib.Data.Set.Basic
import Mathlib.Data.List.Pairwise
import Mathlib.Tactic

/-!
# VpnCore.Lib.Intervals — lists of closed intervals in a linear order

An interval is anything with a lower and an upper end (`lo`, `hi`).  Two intervals are apart if some
point lies strictly between them; in a list that is canonical every interval is apart from all
that follow.  A canonical list is determined by the points it covers (`Canonical.ext`): its first interval
begins with the least point, and ends at the last point before a gap.
-/

namespace VpnCore.Lib

section

variable {ι α : Type*} [LinearOrder α] (lo hi : ι → α)

/-- The point `x` lies in the interval `r`. -/
def Within (r : ι) (x : α) : Prop := lo r ≤ x ∧ x ≤ hi r

/-- The points that the intervals of `l` cover. -/
def cover (l : List ι) : Set α := {x | ∃ r ∈ l, Within lo hi r x}

/-- A point lies between the end of `r` and the beginning of `s`. -/
def Apart (r s : ι) : Prop := ∃ c, hi r < c ∧ c < lo s

/-- Nonempty, in order and with gaps between them. -/
structure Canonical (l : List ι) : Prop where
  le : ∀ r ∈ l, lo r ≤ hi r
  apart : l.Pairwise (Apart lo hi)

variable {lo hi} {r s t : ι} {l m : List ι} {x : α}

theorem Apart.lt (h : Apart lo hi r s) : hi r < lo s := by
  obtain ⟨c, h1, h2⟩ := h
  exact h1.trans h2

theorem mem_cover_cons : x ∈ cover lo hi (r :: l) ↔ Within lo hi r x ∨ x ∈ cover lo hi l := by
  simp [cover]

theorem cover_perm (h : l.Perm m) : cover lo hi l = cover lo hi m := by
  ext x
  simp [cover, h.mem_iff]

theorem Canonical.nil : Canonical lo hi ([] : List ι) := ⟨by simp, .nil⟩

theorem Canonical.tail (h : Canonical lo hi (r :: l)) : Canonical lo hi l :=
  ⟨fun s hs => h.le s (List.mem_cons_of_mem r hs), h.apart.tail⟩

theorem Canonical.sublist (h : Canonical lo hi l) (hm : m.Sublist l) : Canonical lo hi m :=
  ⟨fun r hr => h.le r (hm.subset hr), h.apart.sublist hm⟩

/-! ## The points of a canonical list -/

theorem Canonical.hi_lt (h : Canonical lo hi (r :: l)) (hx : x ∈ cover lo hi l) : hi r < x := by
  obtain ⟨s, hs, h1, -⟩ := hx
  exact (List.rel_of_pairwise_cons h.apart hs).lt.trans_le h1

theorem Canonical.lo_le (h : Canonical lo hi (r :: l)) (hx : x ∈ cover lo hi (r :: l)) :
    lo r ≤ x := by
  rcases mem_cover_cons.1 hx with hx | hx
  · exact hx.1
  · exact (h.le r List.mem_cons_self).trans (h.hi_lt hx).le

theorem Canonical.lo_mem (h : Canonical lo hi (r :: l)) : lo r ∈ cover lo hi (r :: l) :=
  mem_cover_cons.2 (.inl ⟨le_rfl, h.le r List.mem_cons_self⟩)

theorem Canonical.mem_tail (h : Canonical lo hi (r :: l)) :
    x ∈ cover lo hi l ↔ x ∈ cover lo hi (r :: l) ∧ hi r < x := by
  refine ⟨fun hx => ⟨mem_cover_cons.2 (.inr hx), h.hi_lt hx⟩, fun ⟨hx, hlt⟩ => ?_⟩
  rcases mem_cover_cons.1 hx with hx | hx
  · exact absurd hx.2 (not_le.2 hlt)
  · exact hx

/-- Beyond the end of the first interval, up to any point, something is not covered. -/
theorem Canonical.exists_gap (h : Canonical lo hi (r :: l)) (hx : hi r < x) :
    ∃ c, hi r < c ∧ c ≤ x ∧ c ∉ cover lo hi (r :: l) := by
  cases l with
  | nil =>
    refine ⟨x, hx, le_rfl, fun hc => ?_⟩
    rcases mem_cover_cons.1 hc with hc | ⟨s, hs, -⟩
    · exact absurd hc.2 (not_le.2 hx)
    · exact absurd hs List.not_mem_nil
  | cons s l =>
    obtain ⟨c, h1, h2⟩ := List.rel_of_pairwise_cons h.apart List.mem_cons_self
    refine ⟨min c x, lt_min h1 hx, min_le_right c x, fun hc => ?_⟩
    rcases mem_cover_cons.1 hc with hc | hc
    · exact absurd hc.2 (not_le.2 (lt_min h1 hx))
    · exact absurd (h.tail.lo_le hc) (not_le.2 ((min_le_left c x).trans_lt h2))

theorem Canonical.hi_le_of_cover {r s : ι} (hl : Canonical lo hi (r :: l))
    (hcover : cover lo hi (r :: l) = cover lo hi (s :: m)) (hlo : lo r = lo s) : hi s ≤ hi r := by
  by_contra hlt
  obtain ⟨c, h1, h2, hc⟩ := hl.exists_gap (not_le.1 hlt)
  have hwithin : Within lo hi s c :=
    ⟨hlo ▸ (hl.le r List.mem_cons_self).trans h1.le, h2⟩
  exact hc (hcover ▸ mem_cover_cons.2 (.inl hwithin))

/-- **Uniqueness.**  Canonical lists that cover the same points are equal. -/
theorem Canonical.ext (hinj : ∀ r s : ι, lo r = lo s → hi r = hi s → r = s) :
    ∀ {l m : List ι}, Canonical lo hi l → Canonical lo hi m → cover lo hi l = cover lo hi m → l = m
  | [], [], _, _, _ => rfl
  | [], s :: m, _, hm, hcover => by
    have h := hcover ▸ hm.lo_mem
    simp [cover] at h
  | r :: l, [], hl, _, hcover => by
    have h := hcover ▸ hl.lo_mem
    simp [cover] at h
  | r :: l, s :: m, hl, hm, hcover => by
    have hlo : lo r = lo s :=
      le_antisymm (hl.lo_le (hcover ▸ hm.lo_mem)) (hm.lo_le (hcover ▸ hl.lo_mem))
    have hhi : hi r = hi s :=
      le_antisymm (hm.hi_le_of_cover hcover.symm hlo.symm) (hl.hi_le_of_cover hcover hlo)
    have htail : cover lo hi l = cover lo hi m := by
      ext x
      rw [hl.mem_tail, hm.mem_tail, hcover, hhi]
    rw [hinj r s hlo hhi, Canonical.ext hinj hl.tail hm.tail htail]

/-- Intervals in ascending order that are apart in one direction or the other. -/
theorem Canonical.of_sorted (hle : ∀ r ∈ l, lo r ≤ hi r)
    (hsorted : l.Pairwise fun r s => lo r ≤ lo s)
    (hsep : l.Pairwise fun r s => Apart lo hi r s ∨ Apart lo hi s r) : Canonical lo hi l := by
  refine ⟨hle, (hsorted.and hsep).imp_of_mem fun {r s} _ hs h => ?_⟩
  rcases h.2 with hrs | hsr
  · exact hrs
  · exact absurd (h.1.trans (hle s hs)) (not_le.2 hsr.lt)

theorem Canonical.separate (h : Canonical lo hi l) :
    l.Pairwise fun r s => Apart lo hi r s ∨ Apart lo hi s r :=
  h.apart.imp .inl

theorem Canonical.sorted (h : Canonical lo hi l) : l.Pairwise fun r s => lo r ≤ lo s :=
  h.apart.imp_of_mem fun {r _} hr _ hrs => (h.le r hr).trans hrs.lt.le

/-! ## Union and difference -/

/-- The hull of two intervals with nothing between them is their union. -/
theorem within_hull (hrs : ¬ Apart lo hi r s) (hsr : ¬ Apart lo hi s r)
    (hlo : lo t = min (lo r) (lo s)) (hhi : hi t = max (hi r) (hi s)) :
    Within lo hi t x ↔ Within lo hi r x ∨ Within lo hi s x := by
  rw [Within, hlo, hhi, min_le_iff, le_max_iff]
  constructor
  · rintro ⟨h1, h2⟩
    by_cases hxr : Within lo hi r x
    · exact .inl hxr
    refine .inr ?_
    rcases not_and_or.1 hxr with h | h
    · -- `x` is before `r`, so it begins with `s`, and `s` cannot end before it
      have hx := not_le.1 h
      exact ⟨h1.resolve_left h, not_lt.1 fun hlt => hsr ⟨x, hlt, hx⟩⟩
    · have hx := not_le.1 h
      exact ⟨not_lt.1 fun hlt => hrs ⟨x, hx, hlt⟩, h2.resolve_left h⟩
  · rintro (h | h)
    · exact ⟨.inl h.1, .inl h.2⟩
    · exact ⟨.inr h.1, .inr h.2⟩

end

end VpnCore.Lib
