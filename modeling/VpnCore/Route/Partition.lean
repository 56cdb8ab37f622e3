import VpnCore.Route.Sweep

/-!
# VpnCore.Route.Partition — `generateIPList` cuts the networks into a partition

The invariant of the sweep, one lemma for each branch of the loop body, and the run.
-/

namespace VpnCore.Route

open VpnCore.Lib IpAddress

/-- No address lies in both networks. -/
def Apart (m n : IpAddress) : Prop := ∀ a, m.Covers a → ¬ n.Covers a

theorem Apart.symm {m n : IpAddress} (h : Apart m n) : Apart n m := fun a hn hm => h a hm hn

/-- The networks `out` do not overlap, and include the addresses whose longest prefix in
`mIpAddresses` is included. -/
structure Partition (mIpAddresses out : List IpAddress) : Prop where
  kinds : ∀ a, (∃ n ∈ out, n.included = true ∧ n.Covers a) ↔ Kind mIpAddresses a true
  apart : out.Pairwise Apart

/-- `ipsDone` does so for the addresses below `f`. -/
structure Settled (mIpAddresses ipsDone : List IpAddress) (f : ℤ) : Prop where
  kinds : ∀ a < f, (∃ n ∈ ipsDone, n.included = true ∧ n.Covers a) ↔ Kind mIpAddresses a true
  below : ∀ n ∈ ipsDone, n.getLastAddress < f
  apart : ipsDone.Pairwise Apart

/-- **The invariant of the loop.** -/
structure Inv (mIpAddresses : List IpAddress) (v : Bool) (ipsDone : List IpAddress)
    (cur : IpAddress) (networks : List IpAddress) : Prop where
  family : OfFamily v (cur :: networks)
  oneKind : OneKind (cur :: networks)
  order : ∀ n ∈ networks, NotBefore n cur
  ahead : ∀ a, cur.getFirstAddress ≤ a → (Kind (cur :: networks) a true ↔ Kind mIpAddresses a true)
  behind : Settled mIpAddresses ipsDone cur.getFirstAddress

variable {S done q rest networks : List IpAddress} {v : Bool} {cur next n : IpAddress} {t : ℕ}

/-! ## The current network is finished -/

theorem Settled.add (h : Settled S done cur.getFirstAddress) {f : ℤ} (hf : cur.getLastAddress < f)
    (hcur : ∀ a, cur.getFirstAddress ≤ a → a < f →
      (Kind S a true ↔ cur.included = true ∧ cur.Covers a)) :
    Settled S (treeAdd compareTo done cur) f := by
  have hle := cur.first_le_last
  have hbelow : ∀ n ∈ done, n.getFirstAddress < cur.getFirstAddress :=
    fun n hn => n.first_le_last.trans_lt (h.below n hn)
  have hnew : ∀ n ∈ done, cur.compareTo n ≠ .eq := by
    intro n hn
    have := hbelow n hn
    rw [compareTo, if_neg (by omega), if_pos (by omega)]
    simp
  have hmem : ∀ n, n ∈ treeAdd compareTo done cur ↔ n = cur ∨ n ∈ done := by
    intro n
    rw [(treeAdd_perm hnew).mem_iff, List.mem_cons]
  refine ⟨fun a ha => ?_, fun n hn => ?_, ?_⟩
  · constructor
    · rintro ⟨n, hn, hc, hna⟩
      rcases (hmem n).mp hn with rfl | hn
      · exact (hcur a hna.1 ha).mpr ⟨hc, hna⟩
      · have := h.below n hn
        exact (h.kinds a (by have := hna.2; omega)).mp ⟨n, hn, hc, hna⟩
    · intro hk
      by_cases hlt : a < cur.getFirstAddress
      · obtain ⟨n, hn, hna⟩ := (h.kinds a hlt).mpr hk
        exact ⟨n, (hmem n).mpr (Or.inr hn), hna⟩
      · exact ⟨cur, (hmem cur).mpr (Or.inl rfl), (hcur a (by omega) ha).mp hk⟩
  · rcases (hmem n).mp hn with rfl | hn
    · exact hf
    · have := h.below n hn
      omega
  · rw [(treeAdd_perm hnew).pairwise_iff Apart.symm, List.pairwise_cons]
    refine ⟨fun n hn a ha hna => ?_, h.apart⟩
    have h1 := h.below n hn
    have h2 := ha.1
    have h3 := hna.2
    omega

/-- Before the next network starts, the current one is alone. -/
theorem Inv.kind_alone (h : Inv S v done cur networks) {f a : ℤ}
    (hq : ∀ n ∈ networks, f ≤ n.getFirstAddress) (ha : cur.getFirstAddress ≤ a) (haf : a < f) :
    Kind S a true ↔ cur.included = true ∧ cur.Covers a := by
  rw [← h.ahead a ha]
  have honly : ∀ n ∈ cur :: networks, n.Covers a → n = cur := by
    intro n hn hna
    rcases List.mem_cons.mp hn with rfl | hn
    · rfl
    · have h1 := hq n hn
      have h2 := hna.1
      omega
  by_cases hcov : cur.Covers a
  · exact (shows_single List.mem_cons_self hcov honly true).trans (and_iff_left hcov).symm
  · refine ⟨?_, fun hc => absurd hc.2 hcov⟩
    rintro ⟨n, hn, -⟩
    exact absurd (honly n hn.mem hn.hits ▸ hn.hits) hcov

/-- The queue is empty: the sweep is finished. -/
theorem Inv.finish (h : Inv S v done cur []) : Partition S (treeAdd compareTo done cur) := by
  have hset : ∀ f, cur.getLastAddress < f → Settled S (treeAdd compareTo done cur) f :=
    fun f hf => h.behind.add hf fun a ha haf => h.kind_alone (by simp) ha haf
  refine ⟨fun a => ?_, (hset _ (lt_add_one _)).apart⟩
  exact (hset (max a cur.getLastAddress + 1) (by omega)).kinds a (by omega)

/-- The next network starts behind the current one. -/
theorem Inv.advance (h : Inv S v done cur (next :: rest)) (hrest : ∀ n ∈ rest, NotBefore n next)
    (hgap : cur.getLastAddress < next.getFirstAddress) :
    Inv S v (treeAdd compareTo done cur) next rest where
  family n hn := h.family n (List.mem_cons_of_mem _ hn)
  oneKind := h.oneKind.mono fun n hn => List.mem_cons_of_mem _ hn
  order := hrest
  ahead a ha := by
    have hle := cur.first_le_last
    rw [← h.ahead a (by omega)]
    refine shows_congr (fun n hna => ⟨fun hn => List.mem_cons_of_mem _ hn, fun hn => ?_⟩) true
    rcases List.mem_cons.mp hn with rfl | hn
    · have := hna.2
      omega
    · exact hn
  behind := by
    refine h.behind.add hgap fun a ha haf => h.kind_alone (fun n hn => ?_) ha haf
    rcases List.mem_cons.mp hn with rfl | hn
    · exact le_rfl
    · exact (hrest n hn).1

/-! ## The next network contains the current one -/

theorem Inv.forget (h : Inv S v done cur (next :: rest)) (hrest : ∀ n ∈ rest, NotBefore n next)
    (hf : cur.getFirstAddress = next.getFirstAddress) (hm : next.networkMask ≤ cur.networkMask)
    (hsame : cur.included = next.included) : Inv S v done next rest where
  family n hn := h.family n (List.mem_cons_of_mem _ hn)
  oneKind := h.oneKind.mono fun n hn => List.mem_cons_of_mem _ hn
  order := hrest
  ahead a ha := by
    rw [← h.ahead a (by omega)]
    exact (kind_forget h.family h.oneKind hf hm hsame hrest a true).symm
  behind := hf ▸ h.behind

namespace Sweep

theorem mem_offerNew {m : IpAddress} :
    m ∈ offerNew q n ↔ m ∈ q ∨ m = n ∧ ∀ k ∈ q, n.equals k = false := by
  rw [offerNew]
  by_cases h : q.any n.equals = true
  · rw [if_pos h]
    obtain ⟨k, hk, hnk⟩ := List.any_eq_true.mp h
    have hno : ¬ ∀ k ∈ q, n.equals k = false := fun hall => by simp [hall k hk] at hnk
    simp [hno]
  · rw [if_neg h]
    have hall : ∀ k ∈ q, n.equals k = false := by simpa using h
    rw [List.mem_append, List.mem_singleton, and_iff_left hall]

/-- After the offer the queue has a network of that range. -/
theorem offerNew_range : n ∈ offerNew q n ∨ ∃ k ∈ q, n.equals k = true := by
  by_cases h : ∃ k ∈ q, n.equals k = true
  · exact Or.inr h
  · exact Or.inl (mem_offerNew.mpr (Or.inr ⟨rfl, by simpa using h⟩))

end Sweep

/-- Where a network joins, only networks of its range matter. -/
theorem OneKind.cons (hv : OfFamily v (n :: q)) (hq : OneKind q)
    (hn : ∀ m ∈ q, n.equals m = true → m.included = n.included) : OneKind (n :: q) := by
  have hnew : ∀ m ∈ q, ∀ a, n.Covers a → m.Covers a → n.networkMask = m.networkMask →
      m.included = n.included := by
    intro m hm a hna hma hmask
    have hfam : m.isV4 = n.isV4 := by rw [hv n (by simp), hv m (by simp [hm])]
    exact hn m hm (equals_iff.mpr ⟨hmask, Covers.first_eq_of_mask hfam hmask.symm hma hna⟩)
  intro k hk m hm a hka hma hmask
  rcases List.mem_cons.mp hk with rfl | hkq <;> rcases List.mem_cons.mp hm with rfl | hmq
  · rfl
  · exact (hnew m hmq a hka hma hmask).symm
  · exact hnew k hkq a hma hka hmask.symm
  · exact hq k hkq m hmq a hka hma hmask

/-- A network that is offered to the queue joins it only where no network has its range. -/
theorem OneKind.offerNew (hv : OfFamily v (n :: cur :: q)) (hq : OneKind (cur :: q))
    (hcur : n.equals cur = false) : OneKind (cur :: Sweep.offerNew q n) := by
  by_cases h : ∃ k ∈ q, n.equals k = true
  · refine hq.mono fun m hm => ?_
    rcases List.mem_cons.mp hm with rfl | hm
    · exact List.mem_cons_self
    · rcases Sweep.mem_offerNew.mp hm with hmq | ⟨rfl, hall⟩
      · exact List.mem_cons_of_mem _ hmq
      · obtain ⟨k, hk, hnk⟩ := h
        simp [hall k hk] at hnk
  · have hcons : OneKind (n :: cur :: q) := by
      refine OneKind.cons hv hq fun m hm hnm => ?_
      rcases List.mem_cons.mp hm with rfl | hmq
      · simp [hcur] at hnm
      · exact absurd ⟨m, hmq, hnm⟩ h
    refine hcons.mono fun m hm => ?_
    rcases List.mem_cons.mp hm with rfl | hm
    · simp
    · rcases Sweep.mem_offerNew.mp hm with hmq | ⟨rfl, -⟩ <;> simp [*]

theorem not_equals_of_first {m : IpAddress} (h : n.getFirstAddress ≠ m.getFirstAddress) :
    n.equals m = false := by
  rw [Bool.eq_false_iff]
  intro he
  exact h (equals_iff.mp he).2.symm

/-- A network of the range of a half, one bit longer than the whole, takes the half's place. -/
theorem covers_of_equals {m : IpAddress} (hv : m.isV4 = n.isV4) (he : n.equals m = true) :
    ∀ a, n.Covers a → m.Covers a := by
  obtain ⟨hmask, hfirst⟩ := equals_iff.mp he
  intro a ha
  exact (covers_congr hv hmask.symm hfirst).mpr ha

section SplitNext

variable (h : Inv S v done cur (next :: rest)) (hf : cur.getFirstAddress = next.getFirstAddress)
  (hm : next.networkMask ≤ cur.networkMask) (hdiff : cur.included ≠ next.included)
  (hw : next.networkMask < next.width)

include h hf hm hdiff

/-- Networks of equal range have one kind, so that the current one is a proper part. -/
theorem Inv.mask_lt : next.networkMask < cur.networkMask := by
  rcases hm.lt_or_eq with hlt | heq
  · exact hlt
  · refine absurd ?_ hdiff
    exact h.oneKind cur (by simp) next (by simp) _ cur.covers_first (hf ▸ next.covers_first)
      heq.symm

omit h hf hm hdiff in
theorem mem_splitNext_cases {m : IpAddress} (hmem : m ∈ Sweep.splitNext cur next rest) :
    m ∈ rest ∨ m = next.split.1 ∧ next.split.1.getLastAddress ≠ cur.getLastAddress ∨
      m = next.split.2 ∧ ∀ k ∈ rest, next.split.2.equals k = false := by
  rw [Sweep.splitNext] at hmem
  by_cases hlast : next.split.1.getLastAddress = cur.getLastAddress
  · rw [if_pos hlast] at hmem
    exact (Sweep.mem_offerNew.mp hmem).imp_right .inr
  · rw [if_neg hlast] at hmem
    rcases Sweep.mem_offerNew.mp hmem with h1 | ⟨h1, -⟩
    · exact (Sweep.mem_offerNew.mp h1).imp_right .inr
    · exact .inr (.inl ⟨h1, hlast⟩)

omit h hf hm hdiff in
theorem mem_splitNext {m : IpAddress} (hmem : m ∈ Sweep.splitNext cur next rest) :
    m ∈ rest ∨ m = next.split.1 ∨ m = next.split.2 :=
  (mem_splitNext_cases hmem).imp_right (Or.imp And.left And.left)

omit h hf hm hdiff in
theorem mem_splitNext_of_offer {m : IpAddress} (hmem : m ∈ Sweep.offerNew rest next.split.2) :
    m ∈ Sweep.splitNext cur next rest := by
  rw [Sweep.splitNext]
  by_cases hlast : next.split.1.getLastAddress = cur.getLastAddress
  · rw [if_pos hlast]
    exact hmem
  · rw [if_neg hlast]
    exact Sweep.mem_offerNew.mpr (Or.inl hmem)

include hw

theorem Inv.splitNext_oneKind : OneKind (cur :: Sweep.splitNext cur next rest) := by
  have hlt := h.mask_lt hf hm hdiff
  have hfam : ∀ n, n = next.split.1 ∨ n = next.split.2 → n.isV4 = v := by
    rintro n (rfl | rfl) <;> exact h.family next (by simp)
  have hbase : OneKind (cur :: rest) := h.oneKind.mono fun n hn => by
    rcases List.mem_cons.mp hn with rfl | hn <;> simp [*]
  have hfamrest : OfFamily v (cur :: rest) := fun n hn => h.family n (by
    rcases List.mem_cons.mp hn with rfl | hn <;> simp [*])
  have hsnd : OneKind (cur :: Sweep.offerNew rest next.split.2) := by
    refine hbase.offerNew (v := v) (fun n hn => ?_) (not_equals_of_first ?_)
    · rcases List.mem_cons.mp hn with rfl | hn
      · exact hfam _ (Or.inr rfl)
      · exact hfamrest n hn
    · have := split_snd_first hw
      omega
  rw [Sweep.splitNext]
  by_cases hlast : next.split.1.getLastAddress = cur.getLastAddress
  · rw [if_pos hlast]
    exact hsnd
  · rw [if_neg hlast]
    refine hsnd.offerNew (v := v) (fun n hn => ?_) ?_
    · rcases List.mem_cons.mp hn with rfl | hn
      · exact hfam _ (Or.inl rfl)
      · rcases List.mem_cons.mp hn with rfl | hn
        · exact hfamrest n (by simp)
        · rcases Sweep.mem_offerNew.mp hn with h1 | ⟨rfl, -⟩
          · exact hfamrest n (by simp [h1])
          · exact hfam _ (Or.inr rfl)
    · -- the lower half is not the current network, whose last address differs
      rw [Bool.eq_false_iff]
      intro he
      obtain ⟨hmask, hfirst⟩ := equals_iff.mp he
      have hv : next.split.1.isV4 = cur.isV4 := by
        rw [hfam _ (Or.inl rfl), hfamrest cur (by simp)]
      exact hlast (last_eq_of_mask hv hmask hfirst.symm)

theorem Inv.kind_splitNext (a : ℤ) (c : Bool) :
    Kind (cur :: next :: rest) a c ↔ Kind (cur :: Sweep.splitNext cur next rest) a c := by
  have hlt := h.mask_lt hf hm hdiff
  have hfamrest : ∀ m ∈ rest, m.isV4 = next.isV4 := by
    intro m hm
    rw [h.family m (by simp [hm]), h.family next (by simp)]
  refine (kind_swap a c).trans (kind_split hw ?_ (h.splitNext_oneKind hf hm hdiff hw) ?_ ?_ ?_ ?_ a c)
  · exact h.oneKind.mono fun n hn => (List.Perm.swap next cur rest).mem_iff.mpr hn
  · intro m hmem
    rcases List.mem_cons.mp hmem with rfl | hmem
    · exact List.mem_cons_self
    · exact List.mem_cons_of_mem _ (mem_splitNext_of_offer (Sweep.mem_offerNew.mpr (Or.inl hmem)))
  · intro m hmem
    rcases List.mem_cons.mp hmem with rfl | hmem
    · exact Or.inl List.mem_cons_self
    · rcases mem_splitNext hmem with h1 | h1
      · exact Or.inl (List.mem_cons_of_mem _ h1)
      · exact Or.inr h1
  · by_cases hlast : next.split.1.getLastAddress = cur.getLastAddress
    · refine Or.inr ⟨cur, List.mem_cons_self, hlt, fun b hb => ?_⟩
      have hfst := split_fst_first hw
      have h1 := hb.1
      have h2 := hb.2
      exact ⟨by omega, by omega⟩
    · rcases Sweep.offerNew_range (q := Sweep.offerNew rest next.split.2) (n := next.split.1)
        with h1 | ⟨k, hk, hek⟩
      · refine Or.inl (List.mem_cons_of_mem _ ?_)
        rw [Sweep.splitNext, if_neg hlast]
        exact h1
      · rcases Sweep.mem_offerNew.mp hk with hkr | ⟨rfl, -⟩
        · refine Or.inr ⟨k, List.mem_cons_of_mem _ hkr, ?_, covers_of_equals (hfamrest k hkr) hek⟩
          rw [← (equals_iff.mp hek).1]
          exact lt_add_one _
        · have h1 := split_fst_first hw
          have h2 := split_snd_first hw
          have h3 := (equals_iff.mp hek).2
          omega
  · rcases Sweep.offerNew_range (q := rest) (n := next.split.2) with h1 | ⟨k, hk, hek⟩
    · exact Or.inl (List.mem_cons_of_mem _ (mem_splitNext_of_offer h1))
    · refine Or.inr ⟨k, List.mem_cons_of_mem _ hk, ?_, covers_of_equals (hfamrest k hk) hek⟩
      rw [← (equals_iff.mp hek).1]
      exact lt_add_one _

theorem Inv.splitNext : Inv S v done cur (Sweep.splitNext cur next rest) where
  family n hn := by
    rcases List.mem_cons.mp hn with rfl | hn
    · exact h.family n (by simp)
    · rcases mem_splitNext hn with h1 | rfl | rfl
      · exact h.family n (by simp [h1])
      · exact h.family next (by simp)
      · exact h.family next (by simp)
  oneKind := h.splitNext_oneKind hf hm hdiff hw
  order n hn := by
    have hlt := h.mask_lt hf hm hdiff
    rcases mem_splitNext hn with h1 | rfl | rfl
    · exact h.order n (by simp [h1])
    · have hfst := split_fst_first hw
      exact ⟨by omega, fun _ => hlt⟩
    · have hsnd := split_snd_first hw
      exact ⟨by omega, fun heq => by omega⟩
  ahead a ha := by
    rw [← h.ahead a ha]
    exact (h.kind_splitNext hf hm hdiff hw a true).symm
  behind := h.behind

end SplitNext

/-! ## The next network is the address of the current one -/

/-- The lower half of an address is the current network, the upper half is the address behind it. -/
theorem splitNext_address (rest : List IpAddress) (hv : cur.isV4 = next.isV4)
    (hf : cur.getFirstAddress = next.getFirstAddress) (hm : next.networkMask ≤ cur.networkMask)
    (hw : next.width ≤ next.networkMask) :
    Sweep.splitNext cur next rest = Sweep.offerNew rest next.split.2 := by
  have hwidth := width_of_isV4 hv
  rw [Sweep.splitNext, if_pos]
  rw [(split_address hw).1, last_of_width_le (n := cur) (by omega), hf]

/-- A network with the longest prefix of all can join where it changes nothing. -/
theorem kind_join (hone : OneKind (n :: q)) (hlong : ∀ m ∈ q, m.networkMask ≤ n.networkMask)
    (hjoin : ∀ a, n.Covers a → (Kind q a true ↔ n.included = true)) (a : ℤ) :
    Kind (n :: q) a true ↔ Kind q a true := by
  by_cases hna : n.Covers a
  · have hn : Longest (n :: q) a n := by
      refine ⟨List.mem_cons_self, hna, fun m hm _ => ?_⟩
      rcases List.mem_cons.mp hm with rfl | hm
      · exact le_rfl
      · exact hlong m hm
    exact (hn.shows_iff hone).trans (hjoin a hna).symm
  · refine shows_congr (fun m hma => ?_) true
    refine ⟨fun hm => ?_, List.mem_cons_of_mem _⟩
    rcases List.mem_cons.mp hm with rfl | hm
    · exact absurd hma hna
    · exact hm

/-- A network can be offered where it is there already or changes nothing. -/
theorem kind_offerNew (hone : OneKind (cur :: Sweep.offerNew q n))
    (hlong : ∀ m ∈ cur :: q, m.networkMask ≤ n.networkMask)
    (hjoin : (∃ m ∈ q, n.equals m = true) ∨
      ∀ a, n.Covers a → (Kind (cur :: q) a true ↔ n.included = true)) (a : ℤ) :
    Kind (cur :: Sweep.offerNew q n) a true ↔ Kind (cur :: q) a true := by
  by_cases hin : ∃ m ∈ q, n.equals m = true
  · rw [Sweep.offerNew, if_pos (List.any_eq_true.mpr hin)]
  · rw [Sweep.offerNew, if_neg fun hany => hin (List.any_eq_true.mp hany)] at hone ⊢
    have hmem : ∀ m, m ∈ cur :: (q ++ [n]) ↔ m ∈ n :: cur :: q := by
      intro m
      simp only [List.mem_cons, List.mem_append, List.not_mem_nil, or_false]
      tauto
    refine (shows_congr (fun m _ => hmem m) true).trans ?_
    exact kind_join (hone.mono fun m hm => (hmem m).mpr hm) hlong (hjoin.resolve_left hin) a

/-- An address is not needed beside a longer prefix of it. -/
theorem Inv.kind_address (h : Inv S v done cur (next :: rest))
    (hf : cur.getFirstAddress = next.getFirstAddress) (hlt : next.networkMask < cur.networkMask)
    (hw : next.width ≤ next.networkMask) (a : ℤ) :
    Kind (cur :: next :: rest) a true ↔ Kind (cur :: rest) a true := by
  refine (kind_swap a true).trans (kind_drop ?_ (fun a hn => ?_) a true)
  · exact h.oneKind.mono fun n hn => (List.Perm.swap next cur rest).mem_iff.mpr hn
  · have hle := cur.first_le_last
    have hcur : cur.Covers a := by
      obtain ⟨h1, h2⟩ := hn.hits
      rw [last_of_width_le hw] at h2
      exact ⟨by omega, by omega⟩
    exact absurd hlt (not_lt.mpr (hn.le cur (by simp) hcur))

/-- The split of an address drops it, and the address behind it must not change anything. -/
theorem Inv.splitAddress (h : Inv S v done cur (next :: rest))
    (hf : cur.getFirstAddress = next.getFirstAddress) (hm : next.networkMask ≤ cur.networkMask)
    (hdiff : cur.included ≠ next.included) (hw : next.width ≤ next.networkMask)
    (hlong : ∀ n ∈ cur :: next :: rest, n.networkMask ≤ n.width + 1)
    (hjoin : (∃ m ∈ rest, next.split.2.equals m = true) ∨
      (Kind S (next.getFirstAddress + 1) true ↔ next.included = true)) :
    Inv S v done cur (Sweep.splitNext cur next rest) := by
  have hv : cur.isV4 = next.isV4 := by rw [h.family cur (by simp), h.family next (by simp)]
  have hsub : ∀ n ∈ cur :: rest, n ∈ cur :: next :: rest := by simp +contextual
  have hdrop := h.kind_address hf (h.mask_lt hf hm hdiff) hw
  rw [splitNext_address rest hv hf hm hw]
  have hsnd : next.split.2.getFirstAddress = next.getFirstAddress + 1 := (split_address hw).2
  have hfamily : OfFamily v (next.split.2 :: cur :: rest) := by
    intro n hn
    rcases List.mem_cons.mp hn with rfl | hn
    · exact h.family next (by simp)
    · exact h.family n (hsub n hn)
  have hone : OneKind (cur :: Sweep.offerNew rest next.split.2) :=
    OneKind.offerNew hfamily (h.oneKind.mono hsub) (not_equals_of_first (by omega))
  refine ⟨fun n hn => ?_, hone, fun n hn => ?_, fun a ha => ?_, h.behind⟩
  · rcases List.mem_cons.mp hn with rfl | hn
    · exact h.family n (by simp)
    · rcases Sweep.mem_offerNew.mp hn with hn | ⟨rfl, -⟩
      · exact hfamily n (by simp [hn])
      · exact hfamily _ (by simp)
  · rcases Sweep.mem_offerNew.mp hn with hn | ⟨rfl, -⟩
    · exact h.order n (by simp [hn])
    · exact ⟨by omega, fun heq => by omega⟩
  · rw [← h.ahead a ha, hdrop]
    refine kind_offerNew hone (fun n hn => ?_) (hjoin.imp_right fun hkind b hb => ?_) a
    · have h1 := hlong n (hsub n hn)
      have h2 : n.width = next.width :=
        width_of_isV4 ((h.family n (hsub n hn)).trans (h.family next (by simp)).symm)
      change n.networkMask ≤ next.networkMask + 1
      omega
    · -- the joining network is one address
      obtain ⟨h1, h2⟩ := hb
      rw [last_of_width_le (show next.width ≤ next.networkMask + 1 by omega)] at h2
      have hb' : b = next.getFirstAddress + 1 := by omega
      rw [← hdrop, h.ahead b (by omega), hb']
      exact hkind

/-! ## The current network contains the next one -/

section Inside

variable (h : Inv S v done cur (next :: rest)) (hlt : cur.getFirstAddress < next.getFirstAddress)
  (hmeet : next.getFirstAddress ≤ cur.getLastAddress)

include h hlt hmeet

theorem Inv.inside : cur.networkMask < next.networkMask ∧ ∀ a, next.Covers a → cur.Covers a := by
  have hv : cur.isV4 = next.isV4 := by rw [h.family cur (by simp), h.family next (by simp)]
  have hcur : cur.Covers next.getFirstAddress := ⟨hlt.le, hmeet⟩
  have hmask : cur.networkMask < next.networkMask := by
    by_contra hge
    have hback := Covers.nested hv.symm (not_lt.mp hge) next.covers_first hcur cur.covers_first
    exact absurd hback.1 (not_le.mpr hlt)
  exact ⟨hmask, fun a ha => Covers.nested hv hmask.le hcur next.covers_first ha⟩

theorem Inv.ignore (hrest : ∀ n ∈ rest, NotBefore n next) (hsame : cur.included = next.included)
    (hloss : ∀ m ∈ rest, m.getFirstAddress = next.getFirstAddress →
      cur.networkMask < m.networkMask → m.networkMask < next.networkMask →
      m.included = next.included) : Inv S v done cur rest where
  family n hn := h.family n (by rcases List.mem_cons.mp hn with rfl | hn <;> simp [*])
  oneKind := h.oneKind.mono fun n hn => by rcases List.mem_cons.mp hn with rfl | hn <;> simp [*]
  order n hn := h.order n (List.mem_cons_of_mem _ hn)
  ahead a ha := by
    have hperm := List.Perm.swap next cur rest
    rw [← h.ahead a ha, kind_swap]
    refine (kind_ignore (v := v) (fun n hn => ?_) ?_ (h.inside hlt hmeet).2 hsame hrest hloss a
      true).symm
    · exact h.family n (hperm.mem_iff.mpr hn)
    · exact h.oneKind.mono fun n hn => hperm.mem_iff.mpr hn
  behind := h.behind

omit h hlt hmeet in
theorem mem_splitCurrent {m : IpAddress} :
    m ∈ Sweep.splitCurrent cur next rest ↔
      m ∈ next :: rest ∨ m = cur.split.2 ∧ cur.split.2.networkMask ≠ next.networkMask := by
  rw [Sweep.splitCurrent]
  by_cases hmask : cur.split.2.networkMask = next.networkMask
  · rw [if_pos hmask, List.mem_append, List.mem_singleton, List.mem_cons]
    tauto
  · rw [if_neg hmask, List.mem_append, List.mem_append, List.mem_singleton, List.mem_singleton,
      List.mem_cons]
    tauto

theorem Inv.splitCurrent_order {m : IpAddress} (hm : m ∈ Sweep.splitCurrent cur next rest)
    (hrest : ∀ n ∈ rest, NotBefore n next) : cur.getFirstAddress < m.getFirstAddress := by
  rcases mem_splitCurrent.mp hm with h1 | ⟨rfl, -⟩
  · rcases List.mem_cons.mp h1 with rfl | h1
    · exact hlt
    · exact hlt.trans_le (hrest m h1).1
  · exact split_snd_first (mask_lt_width (hlt.trans_le hmeet))

omit hlt hmeet in
theorem Inv.splitCurrent_family : OfFamily v (cur.split.1 :: Sweep.splitCurrent cur next rest) := by
  intro n hn
  rcases List.mem_cons.mp hn with rfl | hn
  · exact h.family cur (by simp)
  · rcases mem_splitCurrent.mp hn with h1 | ⟨rfl, -⟩
    · exact h.family n (List.mem_cons_of_mem _ h1)
    · exact h.family cur (by simp)

/-- A next network of the size of a half is the upper half. -/
theorem Inv.next_covers_half (hmask : cur.split.2.networkMask = next.networkMask) :
    ∀ a, cur.split.2.Covers a → next.Covers a := by
  have hw := mask_lt_width (hlt.trans_le hmeet)
  have hv : next.isV4 = cur.isV4 := by rw [h.family cur (by simp), h.family next (by simp)]
  have hcur := (h.inside hlt hmeet).2 _ next.covers_first
  have hupper : cur.split.2.Covers next.getFirstAddress := by
    rcases (covers_split hw).mp hcur with h1 | h1
    · have h2 := Covers.first_eq_of_mask (m := next) (n := cur.split.1) hv hmask.symm
        next.covers_first h1
      have h3 := split_fst_first hw
      omega
    · exact h1
  have hfirst := Covers.first_eq_of_mask (m := next) (n := cur.split.2) hv hmask.symm
    next.covers_first hupper
  intro a ha
  exact (covers_congr (n := cur.split.2) hv hmask.symm hfirst).mpr ha

variable (hhalf : cur.networkMask + 1 ≠ next.networkMask → ∀ m ∈ rest, cur.split.2.equals m = true →
  m.included = cur.included)

include hhalf

theorem Inv.splitCurrent_oneKind (hrest : ∀ n ∈ rest, NotBefore n next) :
    OneKind (cur.split.1 :: Sweep.splitCurrent cur next rest) := by
  have hw := mask_lt_width (hlt.trans_le hmeet)
  have hfam := h.splitCurrent_family
  have hbase : OneKind (next :: rest) := h.oneKind.mono fun n hn => List.mem_cons_of_mem _ hn
  have htail : OneKind (Sweep.splitCurrent cur next rest) := by
    by_cases hmask : cur.split.2.networkMask = next.networkMask
    · refine hbase.mono fun m hm => ?_
      rcases mem_splitCurrent.mp hm with h1 | ⟨-, h1⟩
      · exact h1
      · exact absurd hmask h1
    · have hcons : OneKind (cur.split.2 :: next :: rest) := by
        refine OneKind.cons (v := v) (fun n hn => ?_) hbase fun m hm he => ?_
        · rcases List.mem_cons.mp hn with rfl | hn
          · exact h.family cur (by simp)
          · exact h.family n (List.mem_cons_of_mem _ hn)
        · rcases List.mem_cons.mp hm with rfl | hm
          · exact absurd (equals_iff.mp he).1 hmask
          · exact hhalf hmask m hm he
      refine hcons.mono fun m hm => ?_
      rcases mem_splitCurrent.mp hm with h1 | ⟨rfl, -⟩
      · exact List.mem_cons_of_mem _ h1
      · exact List.mem_cons_self
  -- the lower half starts before everything in the queue
  refine OneKind.cons hfam htail fun m hm he => ?_
  have h1 := h.splitCurrent_order hlt hmeet hm hrest
  have h2 := (equals_iff.mp he).2
  have h3 := split_fst_first hw
  omega

theorem Inv.splitCurrent (hrest : ∀ n ∈ rest, NotBefore n next) :
    Inv S v done cur.split.1 (Sweep.splitCurrent cur next rest) := by
  have hw := mask_lt_width (hlt.trans_le hmeet)
  have hfst := split_fst_first hw
  have hone := h.splitCurrent_oneKind hlt hmeet hhalf hrest
  refine ⟨h.splitCurrent_family, hone, fun n hn => ?_, fun a ha => ?_, hfst ▸ h.behind⟩
  · have := h.splitCurrent_order hlt hmeet hn hrest
    exact ⟨by omega, fun heq => by omega⟩
  · rw [← h.ahead a (by omega)]
    refine (kind_split hw h.oneKind hone ?_ ?_ (Or.inl List.mem_cons_self) ?_ a true).symm
    · intro m hm
      exact List.mem_cons_of_mem _ (mem_splitCurrent.mpr (Or.inl hm))
    · intro m hm
      rcases List.mem_cons.mp hm with rfl | hm
      · exact Or.inr (Or.inl rfl)
      · rcases mem_splitCurrent.mp hm with h1 | ⟨rfl, -⟩
        · exact Or.inl h1
        · exact Or.inr (Or.inr rfl)
    · by_cases hmask : cur.split.2.networkMask = next.networkMask
      · exact Or.inr ⟨next, List.mem_cons_self, (h.inside hlt hmeet).1,
          h.next_covers_half hlt hmeet hmask⟩
      · exact Or.inl (List.mem_cons_of_mem _ (mem_splitCurrent.mpr (Or.inr ⟨rfl, hmask⟩)))

end Inside

end VpnCore.Route
