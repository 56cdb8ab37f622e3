import VpnCore.Lib.Separated

/-!
# VpnCore.Lib.Parts — the parts of a list that is written piece by piece

`Selects d q l found` says that `l` ends with a whole part, and that of its parts those with `q` are `found`,
whatever is written behind.  It composes along `++`, so that the parts of a long list are known from those of
its pieces.
-/

namespace VpnCore.Lib

variable {α β : Type*} [DecidableEq α] {d : α} {q : List α → Bool} {l r : List α} {found found' : List (List α)}

/-- Of the parts that `d` ends in `l`, those with `q`. -/
def Selects (d : α) (q : List α → Bool) (l : List α) (found : List (List α)) : Prop :=
  ∀ r, ((l ++ r).splitOn d).filter q = found ++ (r.splitOn d).filter q

theorem selects_nil : Selects d q [] [] := fun _ => rfl

theorem Selects.append (hl : Selects d q l found) (hr : Selects d q r found') :
    Selects d q (l ++ r) (found ++ found') := fun rest => by
  rw [List.append_assoc, hl, hr, List.append_assoc]

theorem Selects.flatMap {f : β → List α} {g : β → List (List α)} {xs : List β}
    (h : ∀ x ∈ xs, Selects d q (f x) (g x)) : Selects d q (xs.flatMap f) (xs.flatMap g) := by
  induction xs with
  | nil => exact selects_nil
  | cons x xs ih =>
    rw [List.forall_mem_cons] at h
    exact h.1.append (ih h.2)

theorem selects_snoc (init : List α) : Selects d q (init ++ [d]) ((init.splitOn d).filter q) := fun rest => by
  rw [List.append_assoc, List.singleton_append, List.splitOn_append_cons_self, List.filter_append]

theorem splitOn_append_of_not_mem {head : List α} (h : d ∉ head) (value : List α) :
    (head ++ value).splitOn d = (value.splitOn d).modifyHead (head ++ ·) := by
  induction head with
  | nil => exact List.modifyHead_id.symm ▸ rfl
  | cons c head ih =>
    rw [List.mem_cons, not_or] at h
    have hc : (c == d) = false := beq_eq_false_iff_ne.mpr fun heq => h.1 heq.symm
    rw [List.cons_append, List.splitOn_cons_eq_if_modifyHead, hc, if_neg Bool.false_ne_true, ih h.2,
      List.modifyHead_modifyHead]
    rfl

/-- Behind a head that rules the first part out, the other parts count. -/
theorem selects_headed {head : List α} (hfree : d ∉ head) (hout : ∀ t, q (head ++ t) = false)
    (value : List α) : Selects d q (head ++ (value ++ [d])) ((value.splitOn d).tail.filter q) := by
  have hparts : ((head ++ value).splitOn d).filter q = (value.splitOn d).tail.filter q := by
    rw [splitOn_append_of_not_mem hfree]
    cases value.splitOn d with
    | nil => rfl
    | cons first others =>
      rw [List.modifyHead_cons, List.filter_cons, hout, if_neg Bool.false_ne_true]
      rfl
  rw [← List.append_assoc, ← hparts]
  exact selects_snoc _

/-- Parts that are each ended by `d`. -/
theorem selects_parts {parts : List (List α)} (h : ∀ part ∈ parts, d ∉ part ∧ q part = true) :
    Selects d q (parts.flatMap (· ++ [d])) parts := by
  have hparts : Selects d q (parts.flatMap (· ++ [d])) (parts.flatMap fun part => [part]) := by
    refine Selects.flatMap fun part hpart => ?_
    have hpart := h part hpart
    have hself := selects_snoc (d := d) (q := q) part
    rwa [List.splitOn_eq_singleton hpart.1, List.filter_cons, hpart.2, if_pos rfl] at hself
  rwa [List.flatMap_singleton'] at hparts

end VpnCore.Lib
