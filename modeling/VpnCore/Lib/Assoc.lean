import Mathlib.Data.List.Basic
import Mathlib.Tactic

/-!
# VpnCore.Lib.Assoc — maps that keep the order of insertion

`insertEntry` puts an entry into a list of entries: the value of a key that is there is replaced in its place,
a new key comes last.  A list that is built this way has every key once.
-/

namespace VpnCore.Lib

variable {κ α β : Type*} [DecidableEq κ]

def insertEntry (key : κ) (value : α) : List (κ × α) → List (κ × α)
  | [] => [(key, value)]
  | (k, v) :: entries =>
    if k = key then (key, value) :: entries else (k, v) :: insertEntry key value entries

section Lookup

variable [BEq κ] [LawfulBEq κ]

omit [DecidableEq κ] in
theorem lookup_cons_of_ne {k k' : κ} (h : k ≠ k') (v : α) (entries : List (κ × α)) :
    ((k', v) :: entries).lookup k = entries.lookup k := by
  rw [List.lookup_cons, beq_eq_false_iff_ne.2 h]

omit [DecidableEq κ] in
theorem mem_of_lookup {k : κ} {v : α} {entries : List (κ × α)} (h : entries.lookup k = some v) :
    (k, v) ∈ entries := by
  induction entries with
  | nil => cases h
  | cons e entries ih =>
    obtain ⟨k', v'⟩ := e
    rcases eq_or_ne k k' with rfl | hk
    · rw [List.lookup_cons_self] at h
      cases h
      exact List.mem_cons_self
    · rw [lookup_cons_of_ne hk] at h
      exact List.mem_cons_of_mem _ (ih h)

theorem lookup_insertEntry (key k : κ) (value : α) (entries : List (κ × α)) :
    (insertEntry key value entries).lookup k = if k = key then some value else entries.lookup k := by
  induction entries with
  | nil =>
    split_ifs with hk
    · rw [hk, insertEntry, List.lookup_cons_self]
    · rw [insertEntry, lookup_cons_of_ne hk]
  | cons e entries ih =>
    obtain ⟨k', v⟩ := e
    rw [insertEntry]
    by_cases hk' : k' = key
    · subst hk'
      rw [if_pos rfl]
      split_ifs with hk
      · rw [hk, List.lookup_cons_self]
      · rw [lookup_cons_of_ne hk, lookup_cons_of_ne hk]
    · rw [if_neg hk']
      by_cases hk : k = k'
      · rw [hk, List.lookup_cons_self, List.lookup_cons_self, if_neg hk']
      · rw [lookup_cons_of_ne hk, lookup_cons_of_ne hk, ih]

end Lookup

/-- A new key comes last. -/
theorem insertEntry_of_not_mem {key : κ} {entries : List (κ × α)} (h : key ∉ entries.map Prod.fst)
    (value : α) : insertEntry key value entries = entries ++ [(key, value)] := by
  induction entries with
  | nil => rfl
  | cons e entries ih =>
    rw [List.map_cons, List.mem_cons, not_or] at h
    rw [insertEntry, if_neg (Ne.symm h.1), ih h.2, List.cons_append]

theorem mem_insertEntry {key : κ} {value : α} {entries : List (κ × α)} {e : κ × α}
    (h : e ∈ insertEntry key value entries) : e = (key, value) ∨ e ∈ entries := by
  induction entries with
  | nil => exact .inl (List.mem_singleton.1 h)
  | cons e' entries ih =>
    rw [insertEntry] at h
    split_ifs at h with hk
    · rcases List.mem_cons.1 h with h | h
      · exact .inl h
      · exact .inr (List.mem_cons_of_mem _ h)
    · rcases List.mem_cons.1 h with h | h
      · exact .inr (h ▸ List.mem_cons_self)
      · exact (ih h).imp_right (List.mem_cons_of_mem _)

theorem nodup_insertEntry (key : κ) (value : α) {entries : List (κ × α)}
    (h : (entries.map Prod.fst).Nodup) : ((insertEntry key value entries).map Prod.fst).Nodup := by
  induction entries with
  | nil => exact List.nodup_singleton _
  | cons e entries ih =>
    rw [List.map_cons, List.nodup_cons] at h
    rw [insertEntry]
    split_ifs with hk
    · rw [List.map_cons, List.nodup_cons, ← hk]
      exact h
    · rw [List.map_cons, List.nodup_cons]
      refine ⟨fun hmem => ?_, ih h.2⟩
      obtain ⟨e', he', heq⟩ := List.mem_map.1 hmem
      rcases mem_insertEntry he' with rfl | he'
      · exact hk heq.symm
      · exact h.1 (heq ▸ List.mem_map_of_mem he')

omit [DecidableEq κ] in
theorem lookup_map_snd [BEq κ] [LawfulBEq κ] (f : α → β) (entries : List (κ × α)) (k : κ) :
    (entries.map fun e => (e.1, f e.2)).lookup k = (entries.lookup k).map f := by
  induction entries with
  | nil => rfl
  | cons e entries ih =>
    obtain ⟨k', v⟩ := e
    rw [List.map_cons]
    rcases eq_or_ne k k' with hk | hk
    · rw [hk, List.lookup_cons_self, List.lookup_cons_self, Option.map_some]
    · rw [lookup_cons_of_ne hk, lookup_cons_of_ne hk, ih]

end VpnCore.Lib
