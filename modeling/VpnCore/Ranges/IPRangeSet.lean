import VpnCore.Lib.Ordered
import VpnCore.Lib.Runs
import VpnCore.Ranges.IPRange

/-!
# VpnCore.Ranges.IPRangeSet — sets of addresses as canonical lists of ranges

`mRanges` is a `TreeSet`, so it is the list of its ranges in ascending order.  `add` merges a range with
what it overlaps or touches, one range at a time and from the start again after each; `remove` cuts every
range and puts the parts back.  Both keep the list canonical and do on the addresses what their names
say, so a set built by any sequence of them is determined by the addresses it should hold.
-/

namespace VpnCore.Ranges

open VpnCore.Lib

/-- `mRanges` of an `IPRangeSet`. -/
abbrev IPRangeSet := List IPRange

namespace IPRangeSet

/-- One pass of the iterator in `add`: the first range that can be merged, and the others. -/
def mergeFirst (range : IPRange) : IPRangeSet → Option (IPRange × IPRangeSet)
  | [] => none
  | existing :: rest =>
    match existing.merge range with
    | some replacement => some (replacement, rest)
    | none => (mergeFirst range rest).map fun found => (found.1, existing :: found.2)

/-- A merged range takes the place of one of the set's. -/
theorem mergeFirst_spec {range t : IPRange} :
    ∀ {l m : IPRangeSet}, mergeFirst range l = some (t, m) →
      ∃ existing, existing.merge range = some t ∧ l.Perm (existing :: m) ∧ m.Sublist l
  | [], _, h => by simp [mergeFirst] at h
  | existing :: rest, m, h => by
    rw [mergeFirst] at h
    split at h
    next replacement hm =>
      obtain ⟨rfl, rfl⟩ := Prod.mk.inj (Option.some_injective _ h)
      exact ⟨existing, hm, .refl _, List.sublist_cons_self _ _⟩
    next hm =>
      obtain ⟨⟨t', m'⟩, hfound, heq⟩ := Option.map_eq_some_iff.1 h
      obtain ⟨rfl, rfl⟩ := Prod.mk.inj heq
      obtain ⟨e, h1, h2, h3⟩ := mergeFirst_spec hfound
      exact ⟨e, h1, (h2.cons existing).trans (.swap e existing m'), h3.cons_cons existing⟩

theorem mergeFirst_eq_none {range : IPRange} :
    ∀ {l : IPRangeSet}, mergeFirst range l = none → ∀ r ∈ l, r.merge range = none
  | [], _ => by simp
  | existing :: rest, h => by
    rw [mergeFirst] at h
    split at h
    next => simp at h
    next hm =>
      intro r hr
      rcases List.mem_cons.1 hr with rfl | hr
      · exact hm
      · exact mergeFirst_eq_none (Option.map_eq_none_iff.1 h) r hr

/-- The loop of `add`: the range grows by what it is merged with. -/
def reinsert (mRanges : IPRangeSet) (range : IPRange) : IPRangeSet :=
  match _h : mergeFirst range mRanges with
  | none => treeAdd IPRange.compareTo mRanges range
  | some (replacement, rest) => reinsert rest replacement
termination_by mRanges.length
decreasing_by
  obtain ⟨e, -, hperm, -⟩ := mergeFirst_spec _h
  rw [hperm.length_eq, List.length_cons]
  exact Nat.lt_succ_self _

/-- Joins the range with those it touches. -/
def add (mRanges : IPRangeSet) (range : IPRange) : IPRangeSet :=
  if mRanges.any fun r => range.compareTo r = .eq then mRanges else reinsert mRanges range

/-- `addAll`, and `add` of another set. -/
def addAll (mRanges : IPRangeSet) (coll : List IPRange) : IPRangeSet := coll.foldl add mRanges

/-- The loop of `remove`: the ranges that stay, and the parts of the others. -/
def cut (range : IPRange) : IPRangeSet → IPRangeSet × List IPRange
  | [] => ([], [])
  | existing :: rest =>
    let (kept, additions) := cut range rest
    match existing.remove range with
    | [] => (kept, additions)
    | first :: others =>
      if first.compareTo existing ≠ .eq then (kept, first :: others ++ additions)
      else (existing :: kept, additions)

/-- Cuts the range out of every member. -/
def remove (mRanges : IPRangeSet) (range : IPRange) : IPRangeSet :=
  let (kept, additions) := cut range mRanges
  additions.foldl (treeAdd IPRange.compareTo) kept

/-- `remove` of another set. -/
def removeAll (mRanges ranges : IPRangeSet) : IPRangeSet := ranges.foldl remove mRanges

/-! ## Canonical sets -/

/-- Valid ranges in ascending order, each apart from the next. -/
structure Good (l : IPRangeSet) : Prop where
  valid : ∀ r ∈ l, r.Valid
  canonical : Canonical IPRange.lo IPRange.hi l

variable {l m : IPRangeSet} {r s : IPRange} {x : ℕ ×ₗ ℕ}

/-- The points of a set. -/
abbrev points (l : IPRangeSet) : Set (ℕ ×ₗ ℕ) := cover IPRange.lo IPRange.hi l

theorem Good.nil : Good [] := ⟨by simp, .nil⟩

theorem lo_le_of_gt (h : r.compareTo s = .gt) : s.lo ≤ r.lo := by
  rw [IPRange.compareTo] at h
  rcases compareAddr_spec r.mFrom s.mFrom with ⟨hc, -⟩ | ⟨-, hf⟩ | ⟨-, hk⟩
  · simp [hc] at h
  · exact (congrArg key hf).ge
  · exact hk.le

/-- A range apart from all others is put in its place. -/
theorem Good.treeAdd (h : Good l) (hr : r.Valid)
    (hsep : ∀ s ∈ l, Apart IPRange.lo IPRange.hi r s ∨ Apart IPRange.lo IPRange.hi s r) :
    Good (treeAdd IPRange.compareTo l r) ∧ (treeAdd IPRange.compareTo l r).Perm (r :: l) := by
  have hne : ∀ s ∈ l, r.compareTo s ≠ .eq := by
    intro s hs heq
    obtain rfl := IPRange.compareTo_eq.1 heq
    rcases hsep r hs with h' | h' <;> exact absurd hr.le (not_le.2 h'.lt)
  have hperm : (Lib.treeAdd IPRange.compareTo l r).Perm (r :: l) := treeAdd_perm hne
  have hvalid : ∀ s ∈ Lib.treeAdd IPRange.compareTo l r, s.Valid := by
    intro s hs
    rcases List.mem_cons.1 (hperm.subset hs) with rfl | hs
    · exact hr
    · exact h.valid s hs
  refine ⟨⟨hvalid, .of_sorted (fun s hs => (hvalid s hs).le) ?_ ?_⟩, hperm⟩
  · exact treeAdd_pairwise (fun _ _ => IPRange.lo_le_of_compareTo) (fun _ _ => lo_le_of_gt)
      h.canonical.sorted
  · refine (hperm.pairwise_iff fun h => h.symm).2 (List.pairwise_cons.2 ⟨hsep, ?_⟩)
    exact h.canonical.separate

/-! ## Adding -/

/-- A merged range takes over the points of both. -/
theorem Good.mergeFirst {t : IPRange} (h : Good l) (hr : r.Valid)
    (hm : mergeFirst r l = some (t, m)) :
    Good m ∧ t.Valid ∧
      ∀ x, x ∈ points m ∨ Within IPRange.lo IPRange.hi t x ↔
        x ∈ points l ∨ Within IPRange.lo IPRange.hi r x := by
  obtain ⟨e, hmerge, hperm, hsub⟩ := mergeFirst_spec hm
  have he : e.Valid := h.valid e (hperm.symm.subset List.mem_cons_self)
  refine ⟨⟨fun s hs => h.valid s (hsub.subset hs), h.canonical.sublist hsub⟩,
    he.merge hr hmerge, fun x => ?_⟩
  rw [points, points, cover_perm hperm, mem_cover_cons, IPRange.within_merge he hr hmerge]
  tauto

theorem Good.reinsert (h : Good l) (hr : r.Valid) :
    Good (reinsert l r) ∧
      ∀ x, x ∈ points (reinsert l r) ↔ x ∈ points l ∨ Within IPRange.lo IPRange.hi r x := by
  induction l, r using reinsert.induct with
  | case1 l r hnone =>
    rw [IPRangeSet.reinsert]
    split
    next =>
      have hsep : ∀ s ∈ l, Apart IPRange.lo IPRange.hi r s ∨ Apart IPRange.lo IPRange.hi s r :=
        fun s hs => ((IPRange.merge_eq_none (h.valid s hs).le hr.le).1
          (mergeFirst_eq_none hnone s hs)).symm
      obtain ⟨hgood, hperm⟩ := h.treeAdd hr hsep
      refine ⟨hgood, fun x => ?_⟩
      rw [points, cover_perm hperm, mem_cover_cons]
      exact or_comm
    next hsome => simp [hnone] at hsome
  | case2 l r t m hsome ih =>
    obtain ⟨hm, ht, hpoints⟩ := h.mergeFirst hr hsome
    obtain ⟨hgood, hx⟩ := ih hm ht
    rw [IPRangeSet.reinsert]
    split
    next hnone => simp [hnone] at hsome
    next t' m' hsome' =>
      obtain ⟨rfl, rfl⟩ := Prod.mk.inj (Option.some_injective _ (hsome.symm.trans hsome'))
      exact ⟨hgood, fun x => (hx x).trans (hpoints x)⟩

theorem Good.add (h : Good l) (hr : r.Valid) :
    Good (add l r) ∧
      ∀ x, x ∈ points (add l r) ↔ x ∈ points l ∨ Within IPRange.lo IPRange.hi r x := by
  rw [IPRangeSet.add]
  split_ifs with hany
  · obtain ⟨s, hs, heq⟩ := List.any_eq_true.1 hany
    obtain rfl := IPRange.compareTo_eq.1 (of_decide_eq_true heq)
    exact ⟨h, fun x => ⟨.inl, fun hx => hx.elim id fun hx => ⟨r, hs, hx⟩⟩⟩
  · exact h.reinsert hr

theorem Good.addAll {coll : List IPRange} (h : Good l) (hcoll : ∀ r ∈ coll, r.Valid) :
    Good (addAll l coll) ∧
      ∀ x, x ∈ points (addAll l coll) ↔ x ∈ points l ∨ x ∈ points coll := by
  induction coll generalizing l with
  | nil => exact ⟨h, fun x => by simp [IPRangeSet.addAll, cover]⟩
  | cons r coll ih =>
    obtain ⟨hgood, hx⟩ := h.add (hcoll r List.mem_cons_self)
    obtain ⟨hgood', hx'⟩ := ih hgood fun s hs => hcoll s (List.mem_cons_of_mem r hs)
    refine ⟨hgood', fun x => ?_⟩
    rw [IPRangeSet.addAll, List.foldl_cons]
    refine (hx' x).trans ?_
    rw [hx, points, points, mem_cover_cons]
    exact or_assoc

/-! ## Removing -/

/-- The parts of all ranges, in order. -/
theorem Good.flatMap_remove (h : Good l) (hr : r.Valid) :
    Good (l.flatMap fun e => e.remove r) ∧
      ∀ x, x ∈ points (l.flatMap fun e => e.remove r) ↔
        x ∈ points l ∧ ¬ Within IPRange.lo IPRange.hi r x := by
  have hrem : ∀ e ∈ l, IPRange.Removes e r (e.remove r) := fun e he => (h.valid e he).remove hr
  have hvalid : ∀ t ∈ l.flatMap fun e => e.remove r, t.Valid := by
    intro t ht
    obtain ⟨e, he, ht⟩ := List.mem_flatMap.1 ht
    exact (hrem e he).valid t ht
  refine ⟨⟨hvalid, fun t ht => (hvalid t ht).le, ?_⟩, fun x => ?_⟩
  · rw [List.pairwise_flatMap]
    refine ⟨fun e he => (hrem e he).canonical.apart, h.canonical.apart.imp_of_mem ?_⟩
    rintro e f he hf ⟨c, h1, h2⟩ t ht u hu
    exact ⟨c, ((hrem e he).within ht).2.trans_lt h1, h2.trans_le ((hrem f hf).within hu).1⟩
  · constructor
    · rintro ⟨t, ht, hx⟩
      obtain ⟨e, he, ht⟩ := List.mem_flatMap.1 ht
      obtain ⟨h1, h2⟩ := ((hrem e he).cover x).1 ⟨t, ht, hx⟩
      exact ⟨⟨e, he, h1⟩, h2⟩
    · rintro ⟨⟨e, he, h1⟩, h2⟩
      obtain ⟨t, ht, hx⟩ := ((hrem e he).cover x).2 ⟨h1, h2⟩
      exact ⟨t, List.mem_flatMap.2 ⟨e, he, ht⟩, hx⟩

/-- The loop keeps and cuts exactly these parts. -/
theorem cut_perm (hl : ∀ e ∈ l, e.Valid) (hr : r.Valid) :
    ((cut r l).1 ++ (cut r l).2).Perm (l.flatMap fun e => e.remove r) ∧
      (cut r l).1.Sublist l := by
  induction l with
  | nil => exact ⟨.refl _, .refl _⟩
  | cons e l ih =>
    obtain ⟨hperm, hsub⟩ := ih fun s hs => hl s (List.mem_cons_of_mem e hs)
    rw [cut, List.flatMap_cons]
    dsimp only
    split
    next hnil =>
      rw [hnil, List.nil_append]
      exact ⟨hperm, hsub.cons e⟩
    next first others hcons =>
      rw [hcons]
      split_ifs with heq
      · refine ⟨?_, hsub.cons e⟩
        have hswap : ((cut r l).1 ++ (first :: others ++ (cut r l).2)).Perm
            (first :: others ++ ((cut r l).1 ++ (cut r l).2)) := by
          rw [← List.append_assoc, ← List.append_assoc]
          exact List.perm_append_comm.append_right _
        exact hswap.trans (hperm.append_left _)
      · obtain rfl := IPRange.compareTo_eq.1 (not_not.1 heq)
        obtain rfl := IPRange.remove_eq_self (hl first List.mem_cons_self) hr hcons
        exact ⟨hperm.cons first, hsub.cons_cons first⟩

theorem Good.foldl_treeAdd {coll : List IPRange} (hm : Good m) (hgood : Good l)
    (hperm : (m ++ coll).Perm l) :
    Good (coll.foldl (Lib.treeAdd IPRange.compareTo) m) ∧
      (coll.foldl (Lib.treeAdd IPRange.compareTo) m).Perm l := by
  induction coll generalizing m with
  | nil => exact ⟨hm, by simpa using hperm⟩
  | cons r coll ih =>
    have hsep := (hperm.pairwise_iff fun h => h.symm).2 hgood.canonical.separate
    have hr : r.Valid := hgood.valid r (hperm.subset (by simp))
    obtain ⟨hm', hp⟩ := hm.treeAdd hr fun s hs =>
      ((List.pairwise_append.1 hsep).2.2 s hs r List.mem_cons_self).symm
    refine ih hm' (((hp.append_right coll).trans ?_).trans hperm)
    exact List.perm_middle.symm

theorem Good.remove (h : Good l) (hr : r.Valid) :
    Good (remove l r) ∧
      ∀ x, x ∈ points (remove l r) ↔ x ∈ points l ∧ ¬ Within IPRange.lo IPRange.hi r x := by
  obtain ⟨hgood, hx⟩ := h.flatMap_remove hr
  obtain ⟨hperm, hsub⟩ := cut_perm h.valid hr
  have hkept : Good (cut r l).1 :=
    ⟨fun s hs => h.valid s (hsub.subset hs), h.canonical.sublist hsub⟩
  obtain ⟨hgood', hperm'⟩ := hkept.foldl_treeAdd hgood hperm
  refine ⟨hgood', fun x => ?_⟩
  rw [← hx, points, points, ← cover_perm hperm']
  rfl

theorem Good.removeAll (h : Good l) (hm : ∀ r ∈ m, r.Valid) :
    Good (removeAll l m) ∧ ∀ x, x ∈ points (removeAll l m) ↔ x ∈ points l ∧ x ∉ points m := by
  induction m generalizing l with
  | nil => exact ⟨h, fun x => by simp [IPRangeSet.removeAll, cover]⟩
  | cons r m ih =>
    obtain ⟨hgood, hx⟩ := h.remove (hm r List.mem_cons_self)
    obtain ⟨hgood', hx'⟩ := ih hgood fun s hs => hm s (List.mem_cons_of_mem r hs)
    refine ⟨hgood', fun x => ?_⟩
    rw [IPRangeSet.removeAll, List.foldl_cons]
    refine (hx' x).trans ?_
    rw [hx, points, points, mem_cover_cons, not_or]
    exact and_assoc

end IPRangeSet

/-! ## Addresses -/

namespace IPRange

/-- The addresses of a range: those of its length between its ends. -/
def addresses (r : IPRange) : Set Bytes :=
  {a | a.length = r.mFrom.length ∧ value r.mFrom ≤ value a ∧ value a ≤ value r.mTo}

/-- One range ends right before the other begins. -/
def Touches (r s : IPRange) : Prop :=
  r.mTo.length = s.mFrom.length ∧ value r.mTo + 1 = value s.mFrom

theorem Valid.mem_addresses {r : IPRange} (hr : r.Valid) {a : Bytes} :
    a ∈ r.addresses ↔ Within lo hi r (key a) := by
  have hlen := hr.length
  rw [Within, lo, hi, ← not_lt, ← not_lt, key_lt_iff, key_lt_iff]
  change (a.length = r.mFrom.length ∧ value r.mFrom ≤ value a ∧ value a ≤ value r.mTo) ↔ _
  omega

end IPRange

theorem exists_value : ∀ (n v : ℕ), v < 256 ^ n → ∃ a : Bytes, a.length = n ∧ value a = v
  | 0, v, h => ⟨[], rfl, by simp [value]; omega⟩
  | n + 1, v, h => by
    obtain ⟨a, hlen, hval⟩ := exists_value n (v % 256 ^ n) (Nat.mod_lt _ (by positivity))
    have hq : v / 256 ^ n < 256 := by
      rw [Nat.div_lt_iff_lt_mul (by positivity), ← pow_succ']
      exact h
    refine ⟨UInt8.ofNat (v / 256 ^ n) :: a, by simp [hlen], ?_⟩
    rw [value_cons, hval, hlen, UInt8.toNat_ofNat_of_lt' hq]
    exact Nat.mod_add_div v (256 ^ n)

namespace IPRangeSet

/-- The addresses that the ranges of a set cover. -/
def covered (l : IPRangeSet) : Set Bytes := {a | ∃ r ∈ l, a ∈ r.addresses}

/-- The ranges are in ascending order, share no address, and none touches another. -/
def IsCanonical (l : IPRangeSet) : Prop :=
  (l.Pairwise fun r s => r.compareTo s = .lt) ∧
    l.Pairwise fun r s => r.addresses ∩ s.addresses = ∅ ∧ ¬ r.Touches s ∧ ¬ s.Touches r

variable {l m : IPRangeSet} {a : Bytes}

theorem mem_covered (hl : ∀ r ∈ l, r.Valid) : a ∈ covered l ↔ key a ∈ points l := by
  constructor
  · rintro ⟨r, hr, ha⟩
    exact ⟨r, hr, (hl r hr).mem_addresses.1 ha⟩
  · rintro ⟨r, hr, ha⟩
    exact ⟨r, hr, (hl r hr).mem_addresses.2 ha⟩

/-- Every point of a set is the key of an address. -/
theorem exists_key {x : ℕ ×ₗ ℕ} (hl : ∀ r ∈ l, r.Valid) (hx : x ∈ points l) : ∃ a, key a = x := by
  obtain ⟨r, hr, h1, h2⟩ := hx
  obtain ⟨⟨n, v⟩, rfl⟩ := toLex.surjective x
  have hlen := (hl r hr).length
  have hv := value_lt r.mTo
  rw [IPRange.lo, key, Prod.Lex.toLex_le_toLex] at h1
  rw [IPRange.hi, key, Prod.Lex.toLex_le_toLex] at h2
  dsimp only at h1 h2
  obtain rfl : n = r.mTo.length := by omega
  obtain ⟨a, hlen, hval⟩ := exists_value r.mTo.length v (by omega)
  exact ⟨a, by rw [key, hlen, hval]⟩

theorem points_eq_of_covered (hl : ∀ r ∈ l, r.Valid) (hm : ∀ r ∈ m, r.Valid)
    (h : covered l = covered m) : points l = points m := by
  ext x
  constructor
  · intro hx
    obtain ⟨a, rfl⟩ := exists_key hl hx
    exact (mem_covered hm).1 (h ▸ (mem_covered hl).2 hx)
  · intro hx
    obtain ⟨a, rfl⟩ := exists_key hm hx
    exact (mem_covered hl).1 (h ▸ (mem_covered hm).2 hx)

/-- The addresses determine the ranges. -/
theorem Good.eq_of_covered (hl : Good l) (hm : Good m) (h : covered l = covered m) : l = m :=
  hl.canonical.ext (fun _ _ => IPRange.ext_of_ends) hm.canonical
    (points_eq_of_covered hl.valid hm.valid h)

theorem Good.isCanonical (h : Good l) : IsCanonical l := by
  have hall : l.Pairwise fun r s => (r.Valid ∧ s.Valid) ∧ Apart IPRange.lo IPRange.hi r s :=
    h.canonical.apart.imp_of_mem fun hr hs hrs => ⟨⟨h.valid _ hr, h.valid _ hs⟩, hrs⟩
  refine ⟨hall.imp ?_, hall.imp ?_⟩
  · rintro r s ⟨⟨hr, -⟩, hrs⟩
    have hlt : r.lo < s.lo := hr.le.trans_lt hrs.lt
    rw [IPRange.compareTo, compareAddr_lt.2 hlt]
  · rintro r s ⟨⟨hr, hs⟩, hrs⟩
    refine ⟨Set.eq_empty_of_forall_notMem ?_, (IPRange.apart_iff_of_lt hrs.lt).1 hrs, ?_⟩
    · rintro a ⟨har, has⟩
      have h1 := (hr.mem_addresses.1 har).2
      have h2 := (hs.mem_addresses.1 has).1
      exact absurd (h2.trans h1) (not_le.2 hrs.lt)
    · rintro ⟨hlen, hval⟩
      -- `s` is above `r`, so it cannot end right below it
      have hlt : s.hi < r.lo := key_lt_iff.2 (.inr ⟨hlen, by omega⟩)
      exact absurd (hr.le.trans (hrs.lt.le.trans hs.le)) (not_le.2 hlt)

/-! ## Sequences of operations -/

/-- A range that the constructors can return. -/
abbrev Range := {r : IPRange // r.Valid}

/-- An operation on numbered sets; the argument of `addSet` and `removeSet` may be the set itself. -/
inductive Op
  | add (i : ℕ) (range : Range)
  | addSet (i j : ℕ)
  | addAll (i : ℕ) (coll : List Range)
  | remove (i : ℕ) (range : Range)
  | removeSet (i j : ℕ)

def step (sets : ℕ → IPRangeSet) : Op → ℕ → IPRangeSet
  | .add i range => Function.update sets i ((sets i).add range)
  | .addSet i j => if j = i then sets else Function.update sets i ((sets i).addAll (sets j))
  | .addAll i coll => Function.update sets i ((sets i).addAll (coll.map Subtype.val))
  | .remove i range => Function.update sets i ((sets i).remove range)
  | .removeSet i j =>
    if j = i then Function.update sets i [] else Function.update sets i ((sets i).removeAll (sets j))

/-- The same operations on plain sets of addresses. -/
def denote (sets : ℕ → Set Bytes) : Op → ℕ → Set Bytes
  | .add i range => Function.update sets i (sets i ∪ range.val.addresses)
  | .addSet i j => Function.update sets i (sets i ∪ sets j)
  | .addAll i coll => Function.update sets i (sets i ∪ ⋃ range ∈ coll, range.val.addresses)
  | .remove i range => Function.update sets i (sets i \ range.val.addresses)
  | .removeSet i j => Function.update sets i (sets i \ sets j)

/-- A canonical set with these addresses. -/
def Represents (l : IPRangeSet) (A : Set Bytes) : Prop := Good l ∧ covered l = A

variable {A B : Set Bytes}

theorem Represents.nil : Represents [] ∅ := ⟨.nil, by simp [covered]⟩

theorem Represents.add (h : Represents l A) (r : Range) :
    Represents (l.add r) (A ∪ r.val.addresses) := by
  obtain ⟨hl, rfl⟩ := h
  obtain ⟨hgood, hx⟩ := hl.add r.property
  refine ⟨hgood, Set.ext fun a => ?_⟩
  rw [Set.mem_union, mem_covered hgood.valid, hx, mem_covered hl.valid, r.property.mem_addresses]

theorem Represents.addAll {coll : List IPRange} (h : Represents l A)
    (hcoll : ∀ r ∈ coll, r.Valid) : Represents (l.addAll coll) (A ∪ covered coll) := by
  obtain ⟨hl, rfl⟩ := h
  obtain ⟨hgood, hx⟩ := hl.addAll hcoll
  refine ⟨hgood, Set.ext fun a => ?_⟩
  rw [Set.mem_union, mem_covered hgood.valid, hx, mem_covered hl.valid, mem_covered hcoll]

theorem Represents.remove (h : Represents l A) (r : Range) :
    Represents (l.remove r) (A \ r.val.addresses) := by
  obtain ⟨hl, rfl⟩ := h
  obtain ⟨hgood, hx⟩ := hl.remove r.property
  refine ⟨hgood, Set.ext fun a => ?_⟩
  rw [Set.mem_sdiff, mem_covered hgood.valid, hx, mem_covered hl.valid, r.property.mem_addresses]

theorem Represents.removeAll (h : Represents l A) (hm : Represents m B) :
    Represents (l.removeAll m) (A \ B) := by
  obtain ⟨hl, rfl⟩ := h
  obtain ⟨hm, rfl⟩ := hm
  obtain ⟨hgood, hx⟩ := hl.removeAll hm.valid
  refine ⟨hgood, Set.ext fun a => ?_⟩
  rw [Set.mem_sdiff, mem_covered hgood.valid, hx, mem_covered hl.valid, mem_covered hm.valid]

/-- Assigning to one set keeps the others. -/
theorem represents_update {sets : ℕ → IPRangeSet} {As : ℕ → Set Bytes}
    (h : ∀ k, Represents (sets k) (As k)) (i : ℕ) (hi : Represents l A) :
    ∀ k, Represents (Function.update sets i l k) (Function.update As i A k) := by
  intro k
  by_cases hk : k = i
  · subst hk
    simpa using hi
  · simpa [hk] using h k

/-- **Every operation** does to the ranges what it does to the addresses. -/
theorem represents_step {sets : ℕ → IPRangeSet} {As : ℕ → Set Bytes}
    (h : ∀ k, Represents (sets k) (As k)) (op : Op) :
    ∀ k, Represents (step sets op k) (denote As op k) := by
  cases op with
  | add i r => exact represents_update h i ((h i).add r)
  | addSet i j =>
    by_cases hij : j = i
    · subst hij
      simpa [step, denote] using h
    · rw [step, if_neg hij]
      obtain ⟨hj, hcov⟩ := h j
      have hadd := (h i).addAll hj.valid
      rw [hcov] at hadd
      exact represents_update h i hadd
  | addAll i coll =>
    have hcoll : ∀ r ∈ coll.map Subtype.val, r.Valid := by
      intro r hr
      obtain ⟨r, -, rfl⟩ := List.mem_map.1 hr
      exact r.property
    have hcov : covered (coll.map Subtype.val) = ⋃ range ∈ coll, range.val.addresses := by
      ext a
      simp [covered]
    have hadd := (h i).addAll hcoll
    rw [hcov] at hadd
    exact represents_update h i hadd
  | remove i r => exact represents_update h i ((h i).remove r)
  | removeSet i j =>
    by_cases hij : j = i
    · subst hij
      rw [step, if_pos rfl]
      refine represents_update h j ?_
      rw [sdiff_self]
      exact .nil
    · rw [step, if_neg hij]
      exact represents_update h i ((h i).removeAll (h j))

/-- Every sequence of operations does. -/
theorem represents_run (ops : List Op) :
    ∀ k, Represents (run step (fun _ => []) ops k) (run denote (fun _ => ∅) ops k) :=
  run_rel (R := fun (sets : ℕ → IPRangeSet) (As : ℕ → Set Bytes) => ∀ k, Represents (sets k) (As k))
    (fun _ _ op h => represents_step h op) ops _ _ fun _ => .nil

/-- **Every sequence of operations.**  A set covers the addresses that unions and differences of plain
sets give, its ranges are canonical, and sets with the same addresses have the same ranges, however they
were built. -/
theorem covered_canonical_unique (ops : List Op) (i : ℕ) :
    covered (run step (fun _ => []) ops i) = run denote (fun _ => ∅) ops i ∧
      IsCanonical (run step (fun _ => []) ops i) ∧
      ∀ (ops' : List Op) (j : ℕ),
        run denote (fun _ => ∅) ops' j = run denote (fun _ => ∅) ops i →
          run step (fun _ => []) ops' j = run step (fun _ => []) ops i := by
  obtain ⟨hgood, hcov⟩ := represents_run ops i
  refine ⟨hcov, hgood.isCanonical, fun ops' j hsame => ?_⟩
  obtain ⟨hgood', hcov'⟩ := represents_run ops' j
  exact hgood'.eq_of_covered hgood (hcov'.trans (hsame.trans hcov.symm))

end IPRangeSet

end VpnCore.Ranges
