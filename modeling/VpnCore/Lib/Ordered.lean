import Mathlib.Data.List.Sort
import Mathlib.Tactic

/-!
# VpnCore.Lib.Ordered — ordered collections of the Java library

`TreeSet` and `PriorityQueue` over a comparator `cmp`.  A set is the list of its elements in
ascending order.  A queue is a bag; which of several least elements `poll` takes is not specified,
so that the choice is an argument.
-/

namespace VpnCore.Lib

section

variable {α : Type*} (cmp : α → α → Ordering)

/-- `TreeSet.add`: an element that compares equal to one of the set is not added. -/
def treeAdd (s : List α) (x : α) : List α :=
  if s.any fun y => cmp x y == .eq then s
  else s.orderedInsert (fun a b => cmp a b ≠ .gt) x

/-- The elements no other element comes before. -/
def leastOf (q : List α) : List α := q.filter fun x => q.all fun y => cmp y x != .lt

/-- `PriorityQueue.poll`: one of the least elements, chosen by `t`, and what is left. -/
def poll [DecidableEq α] (t : ℕ) (q : List α) : Option (α × List α) :=
  let least := leastOf cmp q
  match least[t % least.length]? with
  | none => none
  | some x => some (x, q.erase x)

variable {cmp} {s q rest : List α} {x y : α} {t : ℕ}

theorem mem_treeAdd : y ∈ treeAdd cmp s x ↔ y ∈ s ∨ y = x ∧ ∀ z ∈ s, cmp x z ≠ .eq := by
  rw [treeAdd]
  by_cases h : (s.any fun y => cmp x y == .eq) = true
  · rw [if_pos h]
    obtain ⟨z, hz, hxz⟩ := List.any_eq_true.mp h
    have hno : ¬ ∀ z ∈ s, cmp x z ≠ .eq := fun hall => hall z hz (by simpa using hxz)
    simp [hno]
  · rw [if_neg h, List.mem_orderedInsert]
    have hall : ∀ z ∈ s, cmp x z ≠ .eq := by simpa using h
    constructor
    · rintro (rfl | hy)
      · exact Or.inr ⟨rfl, hall⟩
      · exact Or.inl hy
    · rintro (hy | ⟨rfl, -⟩)
      · exact Or.inr hy
      · exact Or.inl rfl

/-- A new element is added. -/
theorem treeAdd_perm (h : ∀ z ∈ s, cmp x z ≠ .eq) : (treeAdd cmp s x).Perm (x :: s) := by
  rw [treeAdd, if_neg (by simpa using h)]
  exact List.perm_orderedInsert _ _ _

/-- What is in ascending order stays so, in the order of any key that `cmp` respects. -/
theorem treeAdd_pairwise {β : Type*} [Preorder β] {f : α → β} (hle : ∀ a b, cmp a b ≠ .gt → f a ≤ f b)
    (hge : ∀ a b, cmp a b = .gt → f b ≤ f a) (h : s.Pairwise fun a b => f a ≤ f b) :
    (treeAdd cmp s x).Pairwise fun a b => f a ≤ f b := by
  rw [treeAdd]
  split_ifs with hany
  · exact h
  · clear hany
    induction s with
    | nil => exact List.pairwise_singleton _ x
    | cons y s ih =>
      rw [List.orderedInsert_cons]
      split_ifs with hxy
      · refine List.pairwise_cons.2 ⟨fun z hz => ?_, h⟩
        rcases List.mem_cons.1 hz with rfl | hz
        · exact hle x z hxy
        · exact (hle x y hxy).trans (List.rel_of_pairwise_cons h hz)
      · refine List.pairwise_cons.2 ⟨fun z hz => ?_, ?_⟩
        · rcases (List.mem_orderedInsert _).1 hz with rfl | hz
          · exact hge z y (not_not.1 hxy)
          · exact List.rel_of_pairwise_cons h hz
        · exact ih h.tail

theorem poll_mem [DecidableEq α] (h : poll cmp t q = some (x, rest)) : x ∈ leastOf cmp q ∧ rest = q.erase x := by
  rw [poll] at h
  rcases hx : (leastOf cmp q)[t % (leastOf cmp q).length]? with _ | z
  · simp [hx] at h
  · simp only [hx, Option.some.injEq, Prod.mk.injEq] at h
    exact ⟨h.1 ▸ List.mem_of_getElem? hx, h.1 ▸ h.2.symm⟩

/-- What `poll` returns stood in the queue, with the rest of it. -/
theorem poll_perm [DecidableEq α] (h : poll cmp t q = some (x, rest)) : q.Perm (x :: rest) := by
  obtain ⟨hx, rfl⟩ := poll_mem h
  exact List.perm_cons_erase (List.mem_of_mem_filter hx)

/-- Nothing that stood in the queue comes before what `poll` returns. -/
theorem poll_le [DecidableEq α] (h : poll cmp t q = some (x, rest)) (hy : y ∈ rest) : cmp y x ≠ .lt := by
  obtain ⟨hx, rfl⟩ := poll_mem h
  have hall := (List.mem_filter.mp hx).2
  rw [List.all_eq_true] at hall
  simpa using hall y (List.mem_of_mem_erase hy)

end

/-- A strict order has a least element in every list that is not empty. -/
theorem exists_least {α : Type*} {lt : α → α → Prop} (htrans : ∀ a b c, lt a b → lt b c → lt a c)
    (hirrefl : ∀ a, ¬ lt a a) : ∀ q : List α, q ≠ [] → ∃ x ∈ q, ∀ y ∈ q, ¬ lt y x
  | [], h => absurd rfl h
  | [x], _ => ⟨x, List.mem_cons_self, fun y hy => by rw [List.mem_singleton.mp hy]; exact hirrefl x⟩
  | z :: w :: q, _ => by
    obtain ⟨x, hx, hmin⟩ := exists_least htrans hirrefl (w :: q) (by simp)
    by_cases hz : lt z x
    · refine ⟨z, List.mem_cons_self, fun y hy hyz => ?_⟩
      rcases List.mem_cons.mp hy with rfl | hy
      · exact hirrefl _ hyz
      · exact hmin y hy (htrans y z x hyz hz)
    · refine ⟨x, List.mem_cons_of_mem _ hx, fun y hy => ?_⟩
      rcases List.mem_cons.mp hy with rfl | hy
      · exact hz
      · exact hmin y hy

/-- `poll` returns nothing from the empty queue only. -/
theorem poll_eq_none {α : Type*} [DecidableEq α] {cmp : α → α → Ordering} {t : ℕ} {q : List α}
    (htrans : ∀ a b c, cmp a b = .lt → cmp b c = .lt → cmp a c = .lt)
    (hirrefl : ∀ a, cmp a a ≠ .lt) (h : poll cmp t q = none) : q = [] := by
  by_contra hq
  obtain ⟨x, hx, hmin⟩ := exists_least htrans hirrefl q hq
  have hxl : x ∈ leastOf cmp q := by
    refine List.mem_filter.mpr ⟨hx, ?_⟩
    rw [List.all_eq_true]
    intro y hy
    simpa using hmin y hy
  have hlt : t % (leastOf cmp q).length < (leastOf cmp q).length :=
    Nat.mod_lt _ (List.length_pos_of_mem hxl)
  rw [poll, List.getElem?_eq_getElem hlt] at h
  simp at h

end VpnCore.Lib
