import VpnCore.Data.Store
import VpnCore.Lib.Runs

/-!
# VpnCore.Data.Refine — `DataStore` as a map from keys and types to values

The callers of `DataStore` expect a map from pairs of a key and a type to values (`Held`).  The model
refines it, operation by operation, as long as

* no two pairs that the caller uses share a key of the preferences file (`KeysApart`): a string is
  kept under the key itself, so that the string `a_int` and the number `a` are one entry;
* `contains` is asked for keys with a value that is not a string only (`Sound`): otherwise it removes
  the string it was asked about, and answers `true` in any case;
* `remove` is called for keys with at most one value (`Sound`): it stops at the first one.
-/

namespace VpnCore.Data

open Config (Text)
open Lib (Along run replies)

variable {F : Type}

/-! ## Operations and their meaning -/

/-- The calls on a `DataStore`. -/
inductive Op (F : Type)
  | put (k : Text) (v : Value F)
  | get (k : Text) (d : Value F)
  | contains (k : Text)
  | remove (k : Text)
  | clear

/-- What a call returns. -/
inductive Reply (F : Type)
  | done (b : Bool)
  | value (v : Value F)
  deriving DecidableEq

/-- The store after a call. -/
def perform (P : Platform F) (m : DefaultDataStore) : Op F → DefaultDataStore × Reply F
  | .put k v => (DataStore.put P m k v).map id .done
  | .get k d => (m, .value (DataStore.get P m k d))
  | .contains k => (DataStore.contains m k).map id .done
  | .remove k => (DataStore.remove m k).map id .done
  | .clear => (DataStore.clear m).map id .done

/-- The value that was put last under a key with a type. -/
abbrev Held (F : Type) := Text → Kind → Option (Value F)

namespace Held

def empty : Held F := fun _ _ => none

def put (a : Held F) (k : Text) (v : Value F) : Held F :=
  Function.update a k (Function.update (a k) v.kind (some v))

/-- What the operations are for. -/
def perform (a : Held F) : Op F → Held F × Reply F
  | .put k v => (a.put k v, .done true)
  | .get k d => (a, .value ((a k d.kind).getD d))
  | .contains k => (a, .done (decide (∃ t, (a k t).isSome)))
  | .remove k => (Function.update a k fun _ => none, .done true)
  | .clear => (empty, .done true)

end Held

/-- The value can be stored. -/
def Op.Valid : Op F → Prop
  | .put _ v => v.Valid
  | _ => True

/-- The pairs of a key and a type that a call is about. -/
def Op.uses : Op F → List (Text × Kind)
  | .put k v => [(k, v.kind)]
  | .get k d => [(k, d.kind)]
  | .contains k | .remove k => [.int, .long, .float, .boolean, .string, .set].map fun t => (k, t)
  | .clear => []

/-- Different pairs in use have different keys in the preferences file. -/
def Apart (used : List (Text × Kind)) : Prop :=
  ∀ p ∈ used, ∀ q ∈ used, p.2.key p.1 = q.2.key q.1 → p = q

/-- The calls' stored keys are apart. -/
def KeysApart (ops : List (Op F)) : Prop := Apart (ops.flatMap Op.uses)

/-- The calls that `DataStore` answers as the map does. -/
def Sound (m : DefaultDataStore) : Op F → Prop
  | .contains k => ∃ t : Kind, t ≠ .string ∧ m.contains (t.key k) = true
  | .remove k => ∀ t t' : Kind, m.contains (t.key k) = true → m.contains (t'.key k) = true → t = t'
  | _ => True

instance (m : DefaultDataStore) (op : Op F) : Decidable (Sound m op) := by
  cases op <;> unfold Sound <;> infer_instance

theorem mem_uses_all (k : Text) (t : Kind) :
    (k, t) ∈ (Op.contains k : Op F).uses ∧ (k, t) ∈ (Op.remove k : Op F).uses := by
  cases t <;> simp [Op.uses]

/-! ## The two walks over the types -/

theorem mem_typeKeys {k key : Text} : key ∈ typeKeys k ↔ ∃ t : Kind, t ≠ .string ∧ key = t.key k := by
  constructor
  · intro h
    simp only [typeKeys, List.mem_cons, List.not_mem_nil, or_false] at h
    rcases h with h | h | h | h | h
    · exact ⟨.int, by decide, h⟩
    · exact ⟨.long, by decide, h⟩
    · exact ⟨.float, by decide, h⟩
    · exact ⟨.boolean, by decide, h⟩
    · exact ⟨.set, by decide, h⟩
  · rintro ⟨t, ht, rfl⟩
    cases t <;> simp_all [typeKeys, Kind.key]

theorem key_string (k : Text) : Kind.string.key k = k := List.append_nil k

/-- What both walks find: the key of a type that is there, or that none is. -/
theorem find_typeKeys (m : DefaultDataStore) (k : Text) :
    (∃ t : Kind, (typeKeys k).find? m.contains = some (t.key k) ∧ t ≠ .string ∧
      m.contains (t.key k) = true) ∨
    ((typeKeys k).find? m.contains = none ∧
      ∀ t : Kind, t ≠ .string → m (t.key k) = none) := by
  cases hf : (typeKeys k).find? m.contains with
  | some key =>
    obtain ⟨t, ht, rfl⟩ := mem_typeKeys.1 (List.mem_of_find?_eq_some hf)
    exact .inl ⟨t, rfl, ht, List.find?_some hf⟩
  | none =>
    refine .inr ⟨rfl, fun t ht => ?_⟩
    have := List.find?_eq_none.1 hf (t.key k) (mem_typeKeys.2 ⟨t, ht, rfl⟩)
    simpa [DefaultDataStore.contains] using this

/-- `remove` takes away the entry of one type. -/
theorem remove_eq (m : DefaultDataStore) (k : Text) :
    ∃ t : Kind, DataStore.remove m k = (Function.update m (t.key k) none, true) ∧
      (m.contains (t.key k) = true ∨ ∀ t' : Kind, t' ≠ t → m (t'.key k) = none) := by
  rcases find_typeKeys m k with ⟨t, hf, -, ht⟩ | ⟨hf, hnone⟩
  · refine ⟨t, ?_, .inl ht⟩
    rw [DataStore.remove, hf]
    rfl
  · refine ⟨.string, ?_, .inr hnone⟩
    rw [DataStore.remove, hf, key_string]
    rfl

/-! ## The refinement -/

/-- The preferences file holds the texts of the values, for the pairs in use. -/
structure Represents (P : Platform F) (used : List (Text × Kind)) (m : DefaultDataStore)
    (a : Held F) : Prop where
  stored : ∀ k t, (k, t) ∈ used → m (t.key k) = (a k t).map (Value.stored P)
  kind : ∀ k t v, a k t = some v → v.kind = t
  valid : ∀ k t v, a k t = some v → v.Valid

section Step

variable {P : Platform F} {used : List (Text × Kind)} {m : DefaultDataStore} {a : Held F}

theorem represents_empty (P : Platform F) (used : List (Text × Kind)) :
    Represents P used .empty Held.empty :=
  ⟨fun _ _ _ => rfl, fun _ _ _ h => (Option.some_ne_none _ h.symm).elim,
    fun _ _ _ h => (Option.some_ne_none _ h.symm).elim⟩

theorem Represents.contains (h : Represents P used m a) {k : Text} {t : Kind} (hu : (k, t) ∈ used) :
    m.contains (t.key k) = (a k t).isSome := by
  rw [DefaultDataStore.contains, h.stored k t hu, Option.isSome_map]

theorem Represents.put (h : Represents P used m a) (hap : Apart used) {k : Text} {v : Value F}
    (hu : (k, v.kind) ∈ used) (hv : v.Valid) :
    Represents P used (Function.update m (v.kind.key k) (some (v.stored P))) (a.put k v) := by
  have hput : ∀ k' t' w, a.put k v k' t' = some w → w = v ∧ t' = v.kind ∨ a k' t' = some w := by
    intro k' t' w hw
    unfold Held.put at hw
    by_cases hk : k' = k
    · subst hk
      rw [Function.update_self] at hw
      by_cases ht : t' = v.kind
      · subst ht
        rw [Function.update_self] at hw
        exact .inl ⟨(Option.some.inj hw).symm, rfl⟩
      · rw [Function.update_of_ne ht] at hw
        exact .inr hw
    · rw [Function.update_of_ne hk] at hw
      exact .inr hw
  refine ⟨fun k' t' hu' => ?_, fun k' t' w hw => ?_, fun k' t' w hw => ?_⟩
  · by_cases hp : (k', t') = (k, v.kind)
    · obtain ⟨rfl, rfl⟩ := Prod.mk.inj hp
      simp [Held.put]
    · -- another pair in use has another key
      have hkey : t'.key k' ≠ v.kind.key k := fun hk => hp (hap _ hu' _ hu hk)
      rw [Function.update_of_ne hkey, h.stored k' t' hu']
      unfold Held.put
      by_cases hk : k' = k
      · subst hk
        have ht : t' ≠ v.kind := fun ht => hp (by rw [ht])
        rw [Function.update_self, Function.update_of_ne ht]
      · rw [Function.update_of_ne hk]
  · rcases hput k' t' w hw with ⟨rfl, rfl⟩ | hw
    · rfl
    · exact h.kind k' t' w hw
  · rcases hput k' t' w hw with ⟨rfl, -⟩ | hw
    · exact hv
    · exact h.valid k' t' w hw

theorem Represents.get (h : Represents P used m a) {k : Text} {d : Value F}
    (hu : (k, d.kind) ∈ used) : DataStore.get P m k d = (a k d.kind).getD d := by
  have hstored := h.stored k d.kind hu
  cases hv : a k d.kind with
  | none =>
    rw [hv] at hstored
    exact get_none P hstored
  | some v =>
    have hkind : v.kind = d.kind := h.kind k d.kind v hv
    rw [hv, ← hkind] at hstored
    exact get_some P (h.valid k d.kind v hv) hstored hkind.symm

/-- Removing one entry removes them all, if there is at most one. -/
theorem Represents.remove (h : Represents P used m a) (hap : Apart used) {k : Text}
    (hu : ∀ t, (k, t) ∈ used) {t : Kind} (ht : ∀ t', t' ≠ t → m (t'.key k) = none) :
    Represents P used (Function.update m (t.key k) none) (Function.update a k fun _ => none) := by
  refine ⟨fun k' t' hu' => ?_, fun k' t' w hw => ?_, fun k' t' w hw => ?_⟩
  · by_cases hk : k' = k
    · subst hk
      rw [Function.update_self]
      by_cases htt : t' = t
      · rw [htt, Function.update_self, Option.map_none]
      · by_cases hkey : t'.key k' = t.key k'
        · rw [hkey, Function.update_self, Option.map_none]
        · rw [Function.update_of_ne hkey, ht t' htt, Option.map_none]
    · have hkey : t'.key k' ≠ t.key k := fun he => hk (congrArg Prod.fst (hap _ hu' _ (hu t) he))
      rw [Function.update_of_ne hkey, Function.update_of_ne hk, h.stored k' t' hu']
  · by_cases hk : k' = k
    · rw [hk, Function.update_self] at hw
      cases hw
    · rw [Function.update_of_ne hk] at hw
      exact h.kind k' t' w hw
  · by_cases hk : k' = k
    · rw [hk, Function.update_self] at hw
      cases hw
    · rw [Function.update_of_ne hk] at hw
      exact h.valid k' t' w hw

/-- **One call.** -/
theorem Represents.perform (h : Represents P used m a) (hap : Apart used) {op : Op F}
    (hu : ∀ p ∈ op.uses, p ∈ used) (hv : op.Valid) (hok : Sound m op) :
    (perform P m op).2 = (a.perform op).2 ∧ Represents P used (perform P m op).1 (a.perform op).1 := by
  cases op with
  | put k v =>
    have hk : (k, v.kind) ∈ used := hu _ (List.mem_singleton_self _)
    rw [Data.perform, put_eq P m k hv]
    exact ⟨rfl, h.put hap hk hv⟩
  | get k d => exact ⟨congrArg Reply.value (h.get (hu _ (List.mem_singleton_self _))), h⟩
  | contains k =>
    obtain ⟨t, ht, hmt⟩ := hok
    have hheld : ∃ t, (a k t).isSome := ⟨t, by rw [← h.contains (hu _ (mem_uses_all k t).1), hmt]⟩
    rcases find_typeKeys m k with ⟨t', hf, -, -⟩ | ⟨hf, hnone⟩
    · rw [Data.perform, DataStore.contains, hf]
      exact ⟨congrArg Reply.done (decide_eq_true hheld).symm, h⟩
    · rw [DefaultDataStore.contains, hnone t ht] at hmt
      cases hmt
  | remove k =>
    have hall : ∀ t, (k, t) ∈ used := fun t => hu _ (mem_uses_all k t).2
    obtain ⟨t, hrem, ht⟩ := remove_eq m k
    have honly : ∀ t', t' ≠ t → m (t'.key k) = none := by
      rcases ht with ht | ht
      · intro t' hne
        by_contra hsome
        exact hne (hok t' t (Option.isSome_iff_ne_none.2 hsome) ht)
      · exact ht
    rw [Data.perform, hrem]
    exact ⟨rfl, h.remove hap hall honly⟩
  | clear => exact ⟨rfl, represents_empty P used⟩

end Step

/-- **`DataStore` refines the map** on every sequence of calls that keeps the keys apart, asks
`contains` only for keys with a value that is not a string, and removes only keys with at most one
value. -/
theorem replies_eq_held (P : Platform F) (ops : List (Op F)) (hvalid : ∀ op ∈ ops, op.Valid)
    (hkeys : KeysApart ops)
    (hsound : Along (fun m op => (perform P m op).1) Sound DefaultDataStore.empty ops) :
    replies (perform P) DefaultDataStore.empty ops = replies Held.perform Held.empty ops := by
  have hmem : ∀ op ∈ ops, op ∈ ops := fun _ h => h
  refine Lib.replies_eq (R := Represents P (ops.flatMap Op.uses)) ?_ ops _ _ (represents_empty P _)
    (hsound.and_mem hmem)
  rintro m a op h ⟨hok, hop⟩
  exact h.perform hkeys (fun p hp => List.mem_flatMap.2 ⟨op, hop, hp⟩) (hvalid op hop) hok

/-- Two values of different types under one key, one of them asked for and the other key removed. -/
def savedSettings : List (Op Unit) :=
  [.put "port".toList (.int 1194), .put "port".toList (.string "udp".toList),
   .contains "port".toList, .get "port".toList (.string []), .put "mtu".toList (.long 1500),
   .remove "mtu".toList, .get "mtu".toList (.long 0), .get "port".toList (.int 0)]

theorem replies_eq_held_settings :
    replies (perform onePlatform) DefaultDataStore.empty savedSettings =
      replies Held.perform Held.empty savedSettings :=
  replies_eq_held onePlatform savedSettings (by simp [savedSettings, Op.Valid, Value.Valid])
    (by unfold KeysApart Apart; decide) (by decide)

/-- `contains` removes the string it is asked about, and finds a key that was never used; `remove`
leaves the second value; the number `a` is read from the string `a_int`. -/
theorem replies_differ :
    replies (perform onePlatform) DefaultDataStore.empty
        [.put "a".toList (.string "x".toList), .contains "a".toList, .get "a".toList (.string [])] ≠
      replies Held.perform Held.empty
        [.put "a".toList (.string "x".toList), .contains "a".toList, .get "a".toList (.string [])] ∧
    replies (perform onePlatform) DefaultDataStore.empty [.contains "a".toList] ≠
      replies Held.perform Held.empty [.contains "a".toList] ∧
    replies (perform onePlatform) DefaultDataStore.empty
        [.put "a".toList (.int 1), .put "a".toList (.long 2), .remove "a".toList,
         .get "a".toList (.long 0)] ≠
      replies Held.perform Held.empty
        [.put "a".toList (.int 1), .put "a".toList (.long 2), .remove "a".toList,
         .get "a".toList (.long 0)] ∧
    replies (perform onePlatform) DefaultDataStore.empty
        [.put "a_int".toList (.string "5".toList), .get "a".toList (.int 0)] ≠
      replies Held.perform Held.empty
        [.put "a_int".toList (.string "5".toList), .get "a".toList (.int 0)] := by
  decide

end VpnCore.Data
