import Mathlib.Tactic

/-!
# VpnCore.Lib.Foremost — the most specific of several coloured regions

Regions of a space overlap; at a point the region of greatest rank among those that cover it
decides the colour.  `Shows` is the colour that a list of regions gives to a point.  The rule
`shows_iff` says when replacing a list by another leaves the colour of a point as it is.
-/

namespace VpnCore.Lib

section

variable {N A κ : Type*} (covers : N → A → Prop) (rank : N → ℤ) (colour : N → κ)

/-- `n` has the greatest rank among the regions of `q` that cover `a`. -/
structure Foremost (q : List N) (a : A) (n : N) : Prop where
  mem : n ∈ q
  hits : covers n a
  le : ∀ m ∈ q, covers m a → rank m ≤ rank n

/-- The list `q` gives the colour `c` to the point `a`. -/
def Shows (q : List N) (a : A) (c : κ) : Prop :=
  ∃ n, Foremost covers rank q a n ∧ colour n = c

/-- Regions of equal rank that meet have the same colour. -/
def Coherent (q : List N) : Prop :=
  ∀ m ∈ q, ∀ n ∈ q, ∀ a, covers m a → covers n a → rank m = rank n → colour m = colour n

variable {covers rank colour} {q q' : List N} {a : A} {n n' : N} {c c' : κ}

theorem exists_foremost :
    ∀ (q : List N), (∃ n ∈ q, covers n a) → ∃ n, Foremost covers rank q a n
  | [], ⟨_, hn, _⟩ => absurd hn (List.not_mem_nil)
  | m :: q, ⟨n, hn, hna⟩ => by
    classical
    by_cases hq : ∃ n ∈ q, covers n a
    · obtain ⟨k, hk⟩ := exists_foremost q hq
      by_cases hm : covers m a ∧ rank k < rank m
      · refine ⟨m, List.mem_cons_self, hm.1, fun l hl hla => ?_⟩
        rcases List.mem_cons.mp hl with rfl | hl
        · exact le_rfl
        · exact (hk.le l hl hla).trans hm.2.le
      · refine ⟨k, List.mem_cons_of_mem _ hk.mem, hk.hits, fun l hl hla => ?_⟩
        rcases List.mem_cons.mp hl with rfl | hl
        · exact not_lt.mp fun h => hm ⟨hla, h⟩
        · exact hk.le l hl hla
    · have hnm : n = m := by
        rcases List.mem_cons.mp hn with h | h
        · exact h
        · exact absurd ⟨n, h, hna⟩ hq
      refine ⟨m, List.mem_cons_self, hnm ▸ hna, fun l hl hla => ?_⟩
      rcases List.mem_cons.mp hl with rfl | hl
      · exact le_rfl
      · exact absurd ⟨l, hl, hla⟩ hq

theorem not_foremost_nil : ¬ Foremost covers rank [] a n := fun h => List.not_mem_nil h.mem

theorem Foremost.rank_eq (h : Foremost covers rank q a n) (h' : Foremost covers rank q a n') :
    rank n = rank n' :=
  le_antisymm (h'.le n h.mem h.hits) (h.le n' h'.mem h'.hits)

/-- A coherent list gives a point one colour at most. -/
theorem Shows.unique (hq : Coherent covers rank colour q) (h : Shows covers rank colour q a c)
    (h' : Shows covers rank colour q a c') : c = c' := by
  obtain ⟨n, hn, rfl⟩ := h
  obtain ⟨n', hn', rfl⟩ := h'
  exact hq n hn.mem n' hn'.mem a hn.hits hn'.hits (hn.rank_eq hn')

theorem Foremost.shows_iff (hn : Foremost covers rank q a n) (hq : Coherent covers rank colour q) :
    Shows covers rank colour q a c ↔ colour n = c :=
  ⟨fun h => Shows.unique hq ⟨n, hn, rfl⟩ h, fun h => ⟨n, hn, h⟩⟩

/-- **Replacement rule.**  The colour of `a` stays as it is when `q'` covers no new point and every
foremost region of `q` has one of its colour in `q'`. -/
theorem shows_iff (hq' : Coherent covers rank colour q')
    (hcov : (∃ n ∈ q', covers n a) → ∃ n ∈ q, covers n a)
    (hfwd : ∀ n, Foremost covers rank q a n →
      ∃ n', Foremost covers rank q' a n' ∧ colour n' = colour n) (c : κ) :
    Shows covers rank colour q a c ↔ Shows covers rank colour q' a c := by
  have hto : ∀ c, Shows covers rank colour q a c → Shows covers rank colour q' a c := by
    rintro c ⟨n, hn, rfl⟩
    exact hfwd n hn
  refine ⟨hto c, fun h => ?_⟩
  obtain ⟨n', hn', -⟩ := id h
  obtain ⟨n, hn⟩ : ∃ n, Foremost covers rank q a n :=
    exists_foremost q (hcov ⟨n', hn'.mem, hn'.hits⟩)
  have hc := hto _ ⟨n, hn, rfl⟩
  rw [h.unique hq' hc]
  exact ⟨n, hn, rfl⟩

/-- Only the regions that cover a point matter to it. -/
theorem shows_congr (h : ∀ n, covers n a → (n ∈ q ↔ n ∈ q')) (c : κ) :
    Shows covers rank colour q a c ↔ Shows covers rank colour q' a c := by
  have hf : ∀ n, Foremost covers rank q a n ↔ Foremost covers rank q' a n := by
    intro n
    constructor
    · intro hn
      exact ⟨(h n hn.hits).mp hn.mem, hn.hits, fun m hm hma => hn.le m ((h m hma).mpr hm) hma⟩
    · intro hn
      exact ⟨(h n hn.hits).mpr hn.mem, hn.hits, fun m hm hma => hn.le m ((h m hma).mp hm) hma⟩
  simp only [Shows, hf]

/-- A point that one region alone covers has its colour. -/
theorem shows_single (hn : n ∈ q) (hna : covers n a) (h : ∀ m ∈ q, covers m a → m = n) (c : κ) :
    Shows covers rank colour q a c ↔ colour n = c := by
  constructor
  · rintro ⟨m, hm, rfl⟩
    rw [h m hm.mem hm.hits]
  · rintro rfl
    exact ⟨n, ⟨hn, hna, fun m hm hma => by rw [h m hm hma]⟩, rfl⟩

theorem Coherent.mono (h : Coherent covers rank colour q) (hsub : ∀ n ∈ q', n ∈ q) :
    Coherent covers rank colour q' :=
  fun m hm n hn a hma hna hr => h m (hsub m hm) n (hsub n hn) a hma hna hr

end

end VpnCore.Lib
