import VpnCore.Data.Store

/-!
# VpnCore.Data.StringSet — which sets of strings are stored faithfully

`putStringSet` joins the elements with `<line>\n`, and `getStringSet` splits the text again.  An empty set
is not written at all; an element with the tag in it comes back in pieces; and `split` drops the empty
strings at the end, so that an empty element is lost unless another one is iterated after it.  All other
sets are read back, whatever was there before (`getStringSet_faithful_iff`).
-/

namespace VpnCore.Data

open Config (Text)
open Lib (splitBy)

variable {F : Type}

/-- An empty string has a string behind it that is not empty. -/
def EmptyInside (strings : List Text) : Prop :=
  ∃ before after, strings = before ++ [] :: after ∧ ∃ x ∈ after, x ≠ []

/-- The sets that the text of the store can represent, in the order in which they are iterated. -/
structure Faithful (P : Platform F) (s : Finset Text) : Prop where
  nonempty : s ≠ ∅
  tag_free : ∀ x ∈ s, ¬ stringSetLineTag <:+: x
  empty_inside : [] ∈ s → EmptyInside (P.toArray s)

/-! ## Reading a text -/

theorem getStringSet_some {m : DefaultDataStore} {k str : Text} (hm : m (Kind.set.key k) = some str)
    (d : Finset Text) : DataStore.getStringSet m k d =
      if str ≠ [] ∧ splitLines str ≠ [] then (splitLines str).toFinset else d := by
  have hm' : m (assembleInternalKey k Kind.set.dataType) = some str := hm
  simp only [DataStore.getStringSet, DefaultDataStore.contains, hm', Option.isSome_some, if_true,
    getString_some hm', List.length_pos_iff, gt_iff_lt]
  by_cases hstr : str = []
  · simp [hstr]
  · have : (!str.isEmpty) = true := by simpa using hstr
    simp [this, hstr]

/-- An empty set is never read. -/
theorem getStringSet_ne_empty {m : DefaultDataStore} {k : Text} {d : Finset Text} (hd : d ≠ ∅) :
    DataStore.getStringSet m k d ≠ ∅ := by
  cases hm : m (Kind.set.key k) with
  | none =>
    have hget : DataStore.getStringSet m k d = d := by
      have hm' : m (assembleInternalKey k Kind.set.dataType) = none := hm
      simp [DataStore.getStringSet, DefaultDataStore.contains, hm']
    rwa [hget]
  | some str =>
    rw [getStringSet_some hm]
    split_ifs with h
    · exact fun hnil => h.2 ((List.toFinset_eq_empty_iff _).1 hnil)
    · exact hd

/-- What stays of the parts of a text. -/
theorem mem_splitLines {str x : Text} (hparts : 1 < (splitBy stringSetLineTag str).length) :
    x ∈ splitLines str ↔ x ∈ splitBy stringSetLineTag str ∧
      (x = [] → EmptyInside (splitBy stringSetLineTag str)) := by
  rw [splitLines, if_neg (by omega), Lib.mem_rdropWhile_iff]
  constructor
  · rintro ⟨before, after, hsplit, y, hy, hne⟩
    refine ⟨hsplit ▸ List.mem_append_right _ List.mem_cons_self, ?_⟩
    rintro rfl
    rcases List.mem_cons.1 hy with rfl | hy
    · cases hne
    · exact ⟨before, after, hsplit, y, hy, by simpa using hne⟩
  · rintro ⟨hx, hempty⟩
    by_cases hnil : x = []
    · subst hnil
      obtain ⟨before, after, hsplit, y, hy, hne⟩ := hempty rfl
      exact ⟨before, after, hsplit, y, List.mem_cons_of_mem _ hy, by simpa using hne⟩
    · obtain ⟨before, after, hsplit⟩ := List.append_of_mem hx
      exact ⟨before, after, hsplit, x, List.mem_cons_self, by simpa using hnil⟩

theorem mem_splitBy_of_mem_splitLines {str x : Text} (hx : x ∈ splitLines str) :
    x ∈ splitBy stringSetLineTag str := by
  by_cases hparts : 1 < (splitBy stringSetLineTag str).length
  · exact ((mem_splitLines hparts).1 hx).1
  · rwa [splitLines, if_pos (by omega)] at hx

/-! ## Writing and reading -/

section Joined

variable (P : Platform F) {s : Finset Text}

/-- The text of a set. -/
def joined (s : Finset Text) : Text := stringSetLineTag.intercalate (P.toArray s)

theorem splitBy_joined (hs : s ≠ ∅) (hfree : ∀ x ∈ s, ¬ stringSetLineTag <:+: x) :
    splitBy stringSetLineTag (joined P s) = P.toArray s :=
  Lib.splitBy_intercalate (by decide) stringSetLineTag_unbordered (toArray_ne_nil P hs)
    fun x hx => hfree x ((mem_toArray P).1 hx)

theorem putStringSet_key (hs : s ≠ ∅) (m : DefaultDataStore) (k : Text) :
    (DataStore.putStringSet P m k s).1 (Kind.set.key k) = some (joined P s) := by
  rw [DataStore.putStringSet, if_pos (Finset.card_pos.2 (Finset.nonempty_iff_ne_empty.2 hs))]
  exact Function.update_self ..

/-- The only element of a set that is one part. -/
theorem toArray_eq_singleton (hs : s ≠ ∅) (hlen : ¬ 1 < (P.toArray s).length) :
    ∃ x, P.toArray s = [x] ∧ joined P s = x ∧ s = {x} := by
  obtain ⟨x, xs, hxs⟩ := List.exists_cons_of_ne_nil (toArray_ne_nil P hs)
  have hnil : xs = [] := by
    rw [hxs, List.length_cons] at hlen
    exact List.length_eq_zero_iff.1 (by omega)
  subst hnil
  refine ⟨x, hxs, by rw [joined, hxs, List.intercalate_singleton], ?_⟩
  rw [← P.toArray_toFinset s, hxs]
  rfl

theorem not_emptyInside_singleton (x : Text) : ¬ EmptyInside [x] := by
  rintro ⟨before, after, h, y, hy, -⟩
  have hlen := congrArg List.length h
  have hpos := List.length_pos_of_mem hy
  simp only [List.length_append, List.length_cons, List.length_nil] at hlen
  omega

/-- A faithful set is read back from its text. -/
theorem Faithful.splitLines_joined (h : Faithful P s) :
    joined P s ≠ [] ∧ ∀ x, x ∈ splitLines (joined P s) ↔ x ∈ s := by
  have hsplit := splitBy_joined P h.nonempty h.tag_free
  by_cases hlen : 1 < (P.toArray s).length
  · have hlen' : 1 < (splitBy stringSetLineTag (joined P s)).length := by rwa [hsplit]
    refine ⟨fun hnil => ?_, fun x => ?_⟩
    · rw [hnil] at hlen'
      exact absurd hlen' (by decide)
    · rw [mem_splitLines hlen', hsplit, mem_toArray]
      refine ⟨And.left, fun hx => ⟨hx, ?_⟩⟩
      rintro rfl
      exact h.empty_inside hx
  · obtain ⟨x, hxs, hjoined, hs⟩ := toArray_eq_singleton P h.nonempty hlen
    refine ⟨fun hnil => ?_, fun y => ?_⟩
    · have hmem : [] ∈ s := by rw [hs, ← hjoined, hnil]; exact Finset.mem_singleton_self _
      exact not_emptyInside_singleton x (hxs ▸ h.empty_inside hmem)
    · rw [splitLines, hsplit, if_pos (by omega), mem_toArray]

end Joined

/-- **Sets of strings.**  A set is read back exactly when it is faithful, whatever the store held
before. -/
theorem getStringSet_faithful_iff (P : Platform F) (m : DefaultDataStore) (k : Text) (s d : Finset Text)
    (hd : d ≠ s) :
    DataStore.getStringSet (DataStore.putStringSet P m k s).1 k d = s ↔ Faithful P s := by
  by_cases hs : s = ∅
  · subst hs
    exact iff_of_false (getStringSet_ne_empty hd) fun h => h.nonempty rfl
  rw [getStringSet_some (putStringSet_key P hs m k)]
  constructor
  · intro h
    split_ifs at h with hread
    · have hmem : ∀ x, x ∈ splitLines (joined P s) ↔ x ∈ s := fun x => by rw [← List.mem_toFinset, h]
      have hfree : ∀ x ∈ s, ¬ stringSetLineTag <:+: x := fun x hx =>
        Lib.not_infix_of_mem_splitBy (by decide) (mem_splitBy_of_mem_splitLines ((hmem x).2 hx))
      refine ⟨hs, hfree, fun hempty => ?_⟩
      have hsplit := splitBy_joined P hs hfree
      by_cases hlen : 1 < (P.toArray s).length
      · have hlen' : 1 < (splitBy stringSetLineTag (joined P s)).length := by rwa [hsplit]
        exact hsplit ▸ ((mem_splitLines hlen').1 ((hmem []).2 hempty)).2 rfl
      · -- the set of the empty string alone has an empty text
        obtain ⟨x, -, hjoined, hsx⟩ := toArray_eq_singleton P hs hlen
        rw [hsx, Finset.mem_singleton] at hempty
        exact absurd (hjoined.trans hempty.symm) hread.1
    · exact absurd h hd
  · intro h
    obtain ⟨hne, hmem⟩ := h.splitLines_joined P
    have hlines : splitLines (joined P s) ≠ [] := by
      obtain ⟨x, hx⟩ := Finset.nonempty_iff_ne_empty.2 hs
      exact List.ne_nil_of_mem ((hmem x).2 hx)
    rw [if_pos ⟨hne, hlines⟩]
    ext x
    rw [List.mem_toFinset, hmem]

theorem getStringSet_twoApps :
    DataStore.getStringSet (DataStore.putStringSet onePlatform .empty "apps".toList
      {"a".toList, "b".toList}).1 "apps".toList ∅ = {"a".toList, "b".toList} :=
  (getStringSet_faithful_iff onePlatform .empty "apps".toList {"a".toList, "b".toList} ∅ (by decide)).2
    ⟨by decide, by decide, fun h => absurd h (by decide)⟩

/-- An empty set leaves the old one in its place. -/
theorem emptySet_not_stored :
    DataStore.getStringSet (DataStore.putStringSet onePlatform
        (DataStore.putStringSet onePlatform .empty "apps".toList {"a".toList}).1 "apps".toList ∅).1
      "apps".toList {"d".toList} = {"a".toList} := by
  decide

end VpnCore.Data
