import VpnCore.Route.Covers

/-!
# VpnCore.Route.Sweep — what one round of `generateIPList` preserves

At every address from the first one of the current network on, the networks in play (the current
one and those in the queue) give the colour that the longest prefix of `mIpAddresses` gives; below
it the finished networks do.  A round keeps this unless it takes one of the steps that `Harmless`
excludes.
-/

namespace VpnCore.Route

open VpnCore.Lib IpAddress

/-- The kind that the longest prefix of `q` gives to the address `a`. -/
abbrev Kind (q : List IpAddress) (a : ℤ) (included : Bool) : Prop :=
  Shows Covers networkMask IpAddress.included q a included

/-- Networks of equal range have one kind. -/
abbrev OneKind (q : List IpAddress) : Prop := Coherent Covers networkMask IpAddress.included q

/-- `n` covers `a`, and no longer prefix does. -/
abbrev Longest (q : List IpAddress) (a : ℤ) (n : IpAddress) : Prop := Foremost Covers networkMask q a n

/-- All are of one family. -/
def OfFamily (v : Bool) (q : List IpAddress) : Prop := ∀ n ∈ q, n.isV4 = v

/-- `m` does not come before `n` in the order of the queue. -/
def NotBefore (m n : IpAddress) : Prop :=
  n.getFirstAddress ≤ m.getFirstAddress ∧
    (m.getFirstAddress = n.getFirstAddress → m.networkMask ≤ n.networkMask)

theorem notBefore_of_compareTo {m n : IpAddress} (h : m.compareTo n ≠ .lt) : NotBefore m n := by
  rw [Ne, compareTo_lt_iff] at h
  constructor <;> omega

variable {v : Bool} {q q' : List IpAddress} {k m n cur next : IpAddress} {a : ℤ}

theorem kind_swap (a : ℤ) (c : Bool) : Kind (m :: n :: q) a c ↔ Kind (n :: m :: q) a c :=
  shows_congr (fun _ _ => (List.Perm.swap n m q).mem_iff) c

/-! ## Leaving a network out -/

/-- A network can be left out when wherever it is the longest prefix, one of its kind follows it. -/
theorem kind_drop (hone : OneKind (n :: q))
    (h : ∀ a, Longest (n :: q) a n → ∃ k, Longest q a k ∧ k.included = n.included) (a : ℤ)
    (c : Bool) : Kind (n :: q) a c ↔ Kind q a c := by
  refine shows_iff (hone.mono fun m hm => List.mem_cons_of_mem _ hm) ?_ ?_ c
  · rintro ⟨m, hm, hma⟩
    exact ⟨m, List.mem_cons_of_mem _ hm, hma⟩
  · intro m hm
    rcases List.mem_cons.mp hm.mem with rfl | hmq
    · exact h a hm
    · exact ⟨m, ⟨hmq, hm.hits, fun l hl hla => hm.le l (List.mem_cons_of_mem _ hl) hla⟩, rfl⟩

/-- The current network can be forgotten for one of its kind that contains it, when the queue has
nothing between the two. -/
theorem kind_forget (hv : OfFamily v (cur :: next :: q)) (hone : OneKind (cur :: next :: q))
    (hf : cur.getFirstAddress = next.getFirstAddress) (hm : next.networkMask ≤ cur.networkMask)
    (hsame : cur.included = next.included) (hq : ∀ m ∈ q, NotBefore m next) (a : ℤ) (c : Bool) :
    Kind (cur :: next :: q) a c ↔ Kind (next :: q) a c := by
  refine kind_drop hone (fun a hcur => ?_) a c
  have hfam : next.isV4 = cur.isV4 := by rw [hv cur (by simp), hv next (by simp)]
  have hin : ∀ {b}, cur.Covers b → next.Covers b :=
    fun hb => Covers.nested hfam hm (hf ▸ next.covers_first) cur.covers_first hb
  refine ⟨next, ⟨by simp, hin hcur.hits, fun m hmem hma => ?_⟩, hsame.symm⟩
  rcases List.mem_cons.mp hmem with rfl | hmq
  · exact le_rfl
  · -- a network that contains `cur` starts where `cur` does, so that it is not before `next`
    have hle : m.networkMask ≤ cur.networkMask := hcur.le m (List.mem_cons_of_mem _ hmem) hma
    have hmv : m.isV4 = cur.isV4 := by rw [hv cur (by simp), hv m (by simp [hmq])]
    have hmf := (Covers.nested hmv hle hma hcur.hits cur.covers_first).1
    obtain ⟨h1, h2⟩ := hq m hmq
    exact h2 (by omega)

/-- The next network can be ignored inside the current one of its kind, when the queue has no
network of the other kind between the two that starts with the next one. -/
theorem kind_ignore (hv : OfFamily v (next :: cur :: q)) (hone : OneKind (next :: cur :: q))
    (hin : ∀ a, next.Covers a → cur.Covers a) (hsame : cur.included = next.included)
    (hq : ∀ m ∈ q, NotBefore m next)
    (hloss : ∀ m ∈ q, m.getFirstAddress = next.getFirstAddress →
      cur.networkMask < m.networkMask → m.networkMask < next.networkMask →
      m.included = next.included) (a : ℤ) (c : Bool) :
    Kind (next :: cur :: q) a c ↔ Kind (cur :: q) a c := by
  refine kind_drop hone (fun a hnext => ?_) a c
  have hcura := hin a hnext.hits
  obtain ⟨k, hk⟩ : ∃ k, Longest (cur :: q) a k := exists_foremost (cur :: q) ⟨cur, by simp, hcura⟩
  refine ⟨k, hk, ?_⟩
  rcases List.mem_cons.mp hk.mem with rfl | hkq
  · exact hsame
  have hcurk : cur.networkMask ≤ k.networkMask := hk.le cur (by simp) hcura
  have hknext : k.networkMask ≤ next.networkMask := hnext.le k (by simp [hkq]) hk.hits
  rcases hcurk.lt_or_eq with hlt | heq
  · rcases hknext.lt_or_eq with hlt' | heq'
    · have hkv : k.isV4 = next.isV4 := by rw [hv next (by simp), hv k (by simp [hkq])]
      have hkf := (Covers.nested hkv hknext hk.hits hnext.hits next.covers_first).1
      exact hloss k hkq (le_antisymm hkf (hq k hkq).1) hlt hlt'
    · exact hone k (by simp [hkq]) next (by simp) a hk.hits hnext.hits heq'
  · rw [← hsame]
    exact hone k (by simp [hkq]) cur (by simp) a hk.hits hcura heq.symm

/-! ## Splitting a network -/

/-- **Splitting.**  A network can be replaced by its halves; a half may be missing where the list
already has a network of its range, or a part of it with a longer prefix that contains it. -/
theorem kind_split (hw : n.networkMask < n.width) (hone : OneKind (n :: q)) (hone' : OneKind q')
    (hold : ∀ m ∈ q, m ∈ q') (hnew : ∀ m ∈ q', m ∈ q ∨ m = n.split.1 ∨ m = n.split.2)
    (hfst : n.split.1 ∈ q' ∨
      ∃ m ∈ q, n.networkMask < m.networkMask ∧ ∀ a, n.split.1.Covers a → m.Covers a)
    (hsnd : n.split.2 ∈ q' ∨
      ∃ m ∈ q, n.networkMask < m.networkMask ∧ ∀ a, n.split.2.Covers a → m.Covers a)
    (a : ℤ) (c : Bool) : Kind (n :: q) a c ↔ Kind q' a c := by
  have hhalf : ∀ m, m = n.split.1 ∨ m = n.split.2 →
      m.networkMask = n.networkMask + 1 ∧ m.included = n.included := by
    rintro m (rfl | rfl) <;> exact ⟨rfl, rfl⟩
  refine shows_iff hone' ?_ (fun k hk => ?_) c
  · rintro ⟨m, hm, hma⟩
    rcases hnew m hm with h | h | h
    · exact ⟨m, List.mem_cons_of_mem _ h, hma⟩
    · exact ⟨n, List.mem_cons_self, (covers_split hw).mpr (Or.inl (h ▸ hma))⟩
    · exact ⟨n, List.mem_cons_self, (covers_split hw).mpr (Or.inr (h ▸ hma))⟩
  by_cases hna : n.Covers a
  · have hnk : n.networkMask ≤ k.networkMask := hk.le n List.mem_cons_self hna
    rcases hnk.lt_or_eq with hlt | heq
    · -- a longer prefix than that of `n` stays the longest one
      have hkq : k ∈ q := by
        rcases List.mem_cons.mp hk.mem with rfl | h
        · exact absurd hlt (lt_irrefl _)
        · exact h
      refine ⟨k, ⟨hold k hkq, hk.hits, fun m hm hma => ?_⟩, rfl⟩
      rcases hnew m hm with h | h
      · exact hk.le m (List.mem_cons_of_mem _ h) hma
      · rw [(hhalf m h).1]
        omega
    · -- otherwise the half around `a` takes the place of `n`
      have hkind : k.included = n.included :=
        hone k hk.mem n List.mem_cons_self a hk.hits hna heq.symm
      have hshort : ∀ m ∈ q, m.Covers a → m.networkMask ≤ n.networkMask := by
        intro m hm hma
        rw [heq]
        exact hk.le m (List.mem_cons_of_mem _ hm) hma
      have htake : ∀ h, h = n.split.1 ∨ h = n.split.2 → h.Covers a →
          (h ∈ q' ∨ ∃ m ∈ q, n.networkMask < m.networkMask ∧ ∀ a, h.Covers a → m.Covers a) →
          ∃ n', Longest q' a n' ∧ n'.included = k.included := by
        rintro h hh hha (hmem | ⟨m, hm, hlt, hcov⟩)
        · refine ⟨h, ⟨hmem, hha, fun m hm hma => ?_⟩, by rw [(hhalf h hh).2, hkind]⟩
          rw [(hhalf h hh).1]
          rcases hnew m hm with hmq | hmh
          · have := hshort m hmq hma
            omega
          · rw [(hhalf m hmh).1]
        · exact absurd hlt (not_lt.mpr (hshort m hm (hcov a hha)))
      rcases (covers_split hw).mp hna with h1 | h2
      · exact htake _ (Or.inl rfl) h1 hfst
      · exact htake _ (Or.inr rfl) h2 hsnd
  · have hkq : k ∈ q := by
      rcases List.mem_cons.mp hk.mem with rfl | h
      · exact absurd hk.hits hna
      · exact h
    refine ⟨k, ⟨hold k hkq, hk.hits, fun m hm hma => ?_⟩, rfl⟩
    rcases hnew m hm with h | h | h
    · exact hk.le m (List.mem_cons_of_mem _ h) hma
    · exact absurd ((covers_split hw).mpr (Or.inl (h ▸ hma))) hna
    · exact absurd ((covers_split hw).mpr (Or.inr (h ▸ hma))) hna

end VpnCore.Route
