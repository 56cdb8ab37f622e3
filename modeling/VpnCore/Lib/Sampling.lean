import Mathlib.Tactic

/-!
# VpnCore.Lib.Sampling — the first sample of every period

A stream of samples in the order of their times is thinned out: of every period of length `p` the
first sample is promoted (`firsts`), and of the samples themselves those are retained that are less
than `n` periods older than a reference sample (`retained`).  Both can be kept up to date with one
sample at a time, if the one that was promoted last is known (`Newest`).
-/

namespace VpnCore.Lib

section Firsts

variable {α κ : Type*} [DecidableEq κ]

/-- The first element for every key. -/
def firsts (key : α → κ) : List α → List α
  | [] => []
  | x :: xs => x :: (firsts key xs).filter fun y => key y ≠ key x

variable (key : α → κ) {x : α}

theorem firsts_of_not_mem : ∀ {xs : List α}, (∀ y ∈ xs, key y ≠ key x) →
    firsts key (xs ++ [x]) = firsts key xs ++ [x]
  | [], _ => rfl
  | a :: xs, h => by
    have hax : key x ≠ key a := fun hax => h a List.mem_cons_self hax.symm
    have ih := firsts_of_not_mem fun y hy => h y (List.mem_cons_of_mem a hy)
    rw [List.cons_append, firsts, firsts, ih, List.filter_append,
      List.filter_cons_of_pos (by simpa using hax), List.filter_nil, List.cons_append]

theorem firsts_of_mem : ∀ {xs : List α}, (∃ y ∈ xs, key y = key x) →
    firsts key (xs ++ [x]) = firsts key xs
  | [], ⟨_, hy, _⟩ => absurd hy List.not_mem_nil
  | a :: xs, ⟨y, hy, hkey⟩ => by
    rw [List.cons_append, firsts, firsts]
    by_cases hxs : ∃ y ∈ xs, key y = key x
    · rw [firsts_of_mem hxs]
    · -- only the first element has the key
      have hax : key x = key a := by
        rcases List.mem_cons.1 hy with rfl | hy
        · exact hkey.symm
        · exact absurd ⟨y, hy, hkey⟩ hxs
      rw [firsts_of_not_mem key fun y hy hkey => hxs ⟨y, hy, hkey⟩, List.filter_append,
        List.filter_cons_of_neg (by simp [hax]), List.filter_nil, List.append_nil]

theorem mem_of_mem_firsts : ∀ {xs : List α}, x ∈ firsts key xs → x ∈ xs
  | [], h => h
  | a :: xs, h => by
    rcases List.mem_cons.1 h with rfl | h
    · exact List.mem_cons_self
    · exact List.mem_cons_of_mem a (mem_of_mem_firsts (List.mem_of_mem_filter h))

end Firsts

section Periods

variable {α : Type*} (time : α → ℤ) (p n : ℤ)

/-- A sample that is less than `n` periods older than `ref`. -/
def retained (ref : ℤ) (y : α) : Bool := (ref - time y) / p < n

/-- `l` is the sample that was promoted last: it is the last of the first ones, and no sample is in a
later period. -/
structure Newest (xs : List α) (l : α) : Prop where
  mem : l ∈ xs
  le : ∀ y ∈ xs, time y / p ≤ time l / p
  last : (firsts (fun y => time y / p) xs).getLast? = some l

variable {time p n} {xs : List α} {x l : α}

theorem newest_singleton (x : α) : Newest time p [x] x :=
  ⟨List.mem_singleton_self x, List.forall_mem_singleton.2 le_rfl, rfl⟩

/-- A sample in a later period than the newest is promoted. -/
theorem Newest.firsts_new (h : Newest time p xs l) (hnew : time l / p < time x / p) :
    firsts (fun y => time y / p) (xs ++ [x]) = firsts (fun y => time y / p) xs ++ [x] :=
  firsts_of_not_mem _ fun y hy => ((h.le y hy).trans_lt hnew).ne

theorem Newest.new (h : Newest time p xs l) (hnew : time l / p < time x / p) :
    Newest time p (xs ++ [x]) x := by
  refine ⟨by simp, List.forall_mem_append.2 ⟨fun y hy => ((h.le y hy).trans_lt hnew).le, ?_⟩, ?_⟩
  · exact List.forall_mem_singleton.2 le_rfl
  · rw [h.firsts_new hnew, List.getLast?_append, List.getLast?_singleton, Option.some_or]

/-- A later sample in the same period is not. -/
theorem Newest.firsts_old (h : Newest time p xs l) (hp : 0 < p) (hx : time l ≤ time x)
    (hold : ¬ time l / p < time x / p) :
    firsts (fun y => time y / p) (xs ++ [x]) = firsts (fun y => time y / p) xs :=
  firsts_of_mem _ ⟨l, h.mem, le_antisymm (Int.ediv_le_ediv hp hx) (not_lt.1 hold)⟩

theorem Newest.old (h : Newest time p xs l) (hp : 0 < p) (hx : time l ≤ time x)
    (hold : ¬ time l / p < time x / p) : Newest time p (xs ++ [x]) l := by
  refine ⟨List.mem_append_left _ h.mem, List.forall_mem_append.2 ⟨h.le, ?_⟩, ?_⟩
  · exact List.forall_mem_singleton.2 (not_lt.1 hold)
  · rw [h.firsts_old hp hx hold, h.last]

/-- The later the reference, the fewer are retained. -/
theorem retained_anti (hp : 0 < p) {ref ref' : ℤ} (h : ref ≤ ref') {y : α}
    (hy : retained time p n ref' y = true) : retained time p n ref y = true := by
  unfold retained at hy ⊢
  rw [decide_eq_true_iff] at hy ⊢
  have hle : (ref - time y) / p ≤ (ref' - time y) / p := Int.ediv_le_ediv hp (by omega)
  omega

theorem filter_retained (hp : 0 < p) {ref ref' : ℤ} (h : ref ≤ ref') (xs : List α) :
    (xs.filter (retained time p n ref)).filter (retained time p n ref') =
      xs.filter (retained time p n ref') := by
  rw [List.filter_filter]
  refine List.filter_congr fun y _ => ?_
  by_cases hy : retained time p n ref' y = true
  · rw [hy, retained_anti hp h hy]
    rfl
  · rw [Bool.not_eq_true] at hy
    rw [hy]
    rfl

/-- A sample that is not older than the reference. -/
theorem retained_of_le (hp : 0 < p) (hn : 0 < n) {ref : ℤ} (h : ref ≤ time x) :
    retained time p n ref x = true := by
  unfold retained
  rw [decide_eq_true_iff]
  have hle : (ref - time x) / p ≤ 0 / p := Int.ediv_le_ediv hp (by omega)
  rw [Int.zero_ediv] at hle
  omega

end Periods

end VpnCore.Lib
