import VpnCore.Route.GenerateIPList

/-!
# VpnCore.Route.Rounds — `generateIPList` ends, and what it creates on the way

Every round but one kind lowers the total weight of the networks in play.  The exception is the
split of a single address, which creates the address after it with a prefix that is too long; there
a queued network moves behind the current one.  So the loop always ends, and the networks that it creates fit
into the address space unless a round meets one address as the current and as the next network, with two
kinds.
-/

namespace VpnCore.Route

open VpnCore.Lib VpnCore.Config IpAddress

/-! ## One round -/

/-- The networks that a round creates, in the order of `split`. -/
def Sweep.halves (cur next : IpAddress) : List IpAddress :=
  if cur.getLastAddress < next.getFirstAddress then []
  else if cur.getFirstAddress = next.getFirstAddress ∧ cur.networkMask ≥ next.networkMask then
    if cur.included = next.included then [] else [next.split.1, next.split.2]
  else if cur.included = next.included then [] else [cur.split.1, cur.split.2]

/-- The networks that the next round creates, with the choice `t` of the queue. -/
def Sweep.created (s : Sweep) (t : ℕ) : List IpAddress :=
  match s.currentNet, poll compareTo t s.networks with
  | some cur, some (next, _) => Sweep.halves cur next
  | _, _ => []

/-- One address as the current and as the next network, with two kinds. -/
def Clash (cur next : IpAddress) : Prop :=
  cur.networkMask = cur.width ∧ next.networkMask = next.width ∧
    cur.getFirstAddress = next.getFirstAddress ∧ cur.included ≠ next.included

instance (cur next : IpAddress) : Decidable (Clash cur next) :=
  inferInstanceAs (Decidable (_ ∧ _ ∧ _ ∧ _))

/-- The next round does not meet one address twice. -/
def Sweep.NoClash (s : Sweep) (t : ℕ) : Prop :=
  match s.currentNet, poll compareTo t s.networks with
  | some cur, some (next, _) => ¬ Clash cur next
  | _, _ => True

instance (s : Sweep) (t : ℕ) : Decidable (s.NoClash t) :=
  decidable_of_iff (∀ cur ∈ s.currentNet, ∀ next ∈ poll compareTo t s.networks, ¬ Clash cur next.1) <| by
    unfold Sweep.NoClash
    cases s.currentNet <;> cases poll compareTo t s.networks <;> simp

variable {cur next n : IpAddress} {rest done q : List IpAddress} {v : Bool}

/-- What a round can do: the variables after it, and the networks that it creates. -/
inductive Round (done : List IpAddress) (cur next : IpAddress) (rest : List IpAddress) :
    Sweep → List IpAddress → Prop
  | advance : cur.getLastAddress < next.getFirstAddress →
      Round done cur next rest ⟨rest, treeAdd compareTo done cur, some next⟩ []
  | forget : cur.included = next.included → Round done cur next rest ⟨rest, done, some next⟩ []
  | ignore : cur.included = next.included → Round done cur next rest ⟨rest, done, some cur⟩ []
  | splitNext : cur.getFirstAddress = next.getFirstAddress → next.networkMask ≤ cur.networkMask →
      cur.included ≠ next.included →
      Round done cur next rest ⟨Sweep.splitNext cur next rest, done, some cur⟩
        [next.split.1, next.split.2]
  | splitCurrent : next.getFirstAddress ≤ cur.getLastAddress →
      (next.getFirstAddress = cur.getFirstAddress → cur.networkMask < next.networkMask) →
      Round done cur next rest ⟨Sweep.splitCurrent cur next rest, done, some cur.split.1⟩
        [cur.split.1, cur.split.2]

theorem round_merge (done : List IpAddress) (cur next : IpAddress) (rest : List IpAddress) :
    Round done cur next rest (Sweep.merge done cur next rest) (Sweep.halves cur next) := by
  rw [Sweep.merge, Sweep.halves]
  by_cases hgap : cur.getLastAddress < next.getFirstAddress
  · rw [if_pos hgap, if_pos hgap]
    exact .advance hgap
  rw [if_neg hgap, if_neg hgap]
  by_cases hbase : cur.getFirstAddress = next.getFirstAddress ∧ cur.networkMask ≥ next.networkMask
  · rw [if_pos hbase, if_pos hbase]
    by_cases hsame : cur.included = next.included
    · rw [if_pos hsame, if_pos hsame]
      exact .forget hsame
    · rw [if_neg hsame, if_neg hsame]
      exact .splitNext hbase.1 hbase.2 hsame
  · rw [if_neg hbase, if_neg hbase]
    by_cases hsame : cur.included = next.included
    · rw [if_pos hsame, if_pos hsame]
      exact .ignore hsame
    · rw [if_neg hsame, if_neg hsame]
      exact .splitCurrent (not_lt.mp hgap) fun heq => not_le.mp fun hle => hbase ⟨heq.symm, hle⟩

/-- **What a step does.**  The loop has ended, or it ends as the queue is empty, or it does a round. -/
theorem Sweep.step_cases (s : Sweep) (t : ℕ) :
    s.currentNet = none ∧ s.step t = s ∧ s.created t = [] ∧ s.NoClash t ∨
    (∃ cur, s.currentNet = some cur ∧ s.networks = [] ∧ s.created t = [] ∧ s.NoClash t ∧
      s.step t = ⟨[], treeAdd compareTo s.ipsDone cur, none⟩) ∨
    ∃ cur next rest, s.currentNet = some cur ∧ s.networks.Perm (next :: rest) ∧
      (∀ n ∈ rest, NotBefore n next) ∧ Round s.ipsDone cur next rest (s.step t) (s.created t) ∧
      (s.NoClash t ↔ ¬ Clash cur next) := by
  obtain ⟨networks, done, currentNet⟩ := s
  cases currentNet with
  | none => exact .inl ⟨rfl, rfl, rfl, trivial⟩
  | some cur =>
    right
    rcases hp : poll compareTo t networks with _ | ⟨next, rest⟩
    · have hnil := poll_eq_none compareTo_trans compareTo_irrefl hp
      subst hnil
      exact .inl ⟨cur, rfl, rfl, rfl, trivial, rfl⟩
    · refine .inr ⟨cur, next, rest, rfl, poll_perm hp,
        fun n hn => notBefore_of_compareTo (poll_le hp hn), ?_, ?_⟩
      · have hround := round_merge done cur next rest
        simp only [Sweep.step, Sweep.created, hp]
        exact hround
      · simp only [Sweep.NoClash, hp]

/-- The networks of a state. -/
def Sweep.all (s : Sweep) : List IpAddress := s.currentNet.toList ++ s.networks ++ s.ipsDone

/-- What holds of the networks before a round and of those that it creates, holds of all after it. -/
theorem Round.forall {P : IpAddress → Prop} {s : Sweep} {created : List IpAddress}
    (hround : Round done cur next rest s created)
    (hall : ∀ n, n = cur ∨ n = next ∨ n ∈ rest ∨ n ∈ done → P n)
    (hcreated : ∀ n ∈ created, P n) : ∀ n ∈ s.all, P n := by
  intro n hn
  simp only [Sweep.all, List.mem_append, Option.mem_toList] at hn
  cases hround with
  | advance _ =>
    rcases hn with (hn | hn) | hn
    · exact hall n (.inr (.inl (Option.some.inj hn).symm))
    · exact hall n (.inr (.inr (.inl hn)))
    · rcases mem_treeAdd.mp hn with hn | ⟨rfl, -⟩
      · exact hall n (.inr (.inr (.inr hn)))
      · exact hall n (.inl rfl)
  | forget _ =>
    rcases hn with (hn | hn) | hn
    · exact hall n (.inr (.inl (Option.some.inj hn).symm))
    · exact hall n (.inr (.inr (.inl hn)))
    · exact hall n (.inr (.inr (.inr hn)))
  | ignore _ =>
    rcases hn with (hn | hn) | hn
    · exact hall n (.inl (Option.some.inj hn).symm)
    · exact hall n (.inr (.inr (.inl hn)))
    · exact hall n (.inr (.inr (.inr hn)))
  | splitNext _ _ _ =>
    rcases hn with (hn | hn) | hn
    · exact hall n (.inl (Option.some.inj hn).symm)
    · rcases mem_splitNext hn with hn | rfl | rfl
      · exact hall n (.inr (.inr (.inl hn)))
      · exact hcreated _ (by simp)
      · exact hcreated _ (by simp)
    · exact hall n (.inr (.inr (.inr hn)))
  | splitCurrent _ _ =>
    rcases hn with (hn | hn) | hn
    · exact hcreated n (by simp [(Option.some.inj hn).symm])
    · rcases mem_splitCurrent.mp hn with hn | ⟨rfl, -⟩
      · rcases List.mem_cons.mp hn with rfl | hn
        · exact hall n (.inr (.inl rfl))
        · exact hall n (.inr (.inr (.inl hn)))
      · exact hcreated _ (by simp)
    · exact hall n (.inr (.inr (.inr hn)))

/-- A round creates nothing but halves. -/
theorem Round.created_forall {P : IpAddress → Prop} {s : Sweep} {created : List IpAddress}
    (hround : Round done cur next rest s created) (hcur : ∀ m ∈ [cur.split.1, cur.split.2], P m)
    (hnext : ∀ m ∈ [next.split.1, next.split.2], P m) : ∀ n ∈ created, P n := by
  cases hround with
  | advance _ => simp
  | forget _ => simp
  | ignore _ => simp
  | splitNext _ _ _ => exact hnext
  | splitCurrent _ _ => exact hcur

/-- The networks of a state, one by one. -/
theorem Sweep.forall_parts {P : IpAddress → Prop} {s : Sweep} (hc : s.currentNet = some cur)
    (hperm : s.networks.Perm (next :: rest)) (hs : ∀ n ∈ s.all, P n) :
    ∀ n, n = cur ∨ n = next ∨ n ∈ rest ∨ n ∈ s.ipsDone → P n := by
  intro n hn
  refine hs n ?_
  simp only [Sweep.all, hc, List.mem_append, Option.toList_some, hperm.mem_iff, List.mem_cons]
  tauto

/-- The last network joins those that are done. -/
theorem Sweep.forall_finished {P : IpAddress → Prop} {s : Sweep} (hc : s.currentNet = some cur)
    (hs : ∀ n ∈ s.all, P n) :
    ∀ n ∈ (Sweep.mk [] (treeAdd compareTo s.ipsDone cur) none).all, P n := by
  intro n hn
  rcases mem_treeAdd.mp (show n ∈ treeAdd compareTo s.ipsDone cur by simpa [Sweep.all] using hn) with
    hn | ⟨rfl, -⟩
  · exact hs n (List.mem_append_right _ hn)
  · exact hs n (by simp [Sweep.all, hc])

/-- What holds of the networks of a state, and of the halves of such networks, holds in all later ones. -/
theorem Sweep.run_forall {P : IpAddress → Prop}
    (hsplit : ∀ n, P n → ∀ m ∈ [n.split.1, n.split.2], P m) (ts : List ℕ) (s : Sweep)
    (hs : ∀ n ∈ s.all, P n) : ∀ n ∈ (run Sweep.step s ts).all, P n := by
  refine run_inv (P := fun _ _ => True) (I := fun s => ∀ n ∈ s.all, P n) (fun s t hs _ => ?_) ts s hs
    (along_of_forall (fun _ _ => trivial) ts s)
  rcases s.step_cases t with ⟨-, hstep, -⟩ | ⟨cur, hc, hnil, -, -, hstep⟩ |
    ⟨cur, next, rest, hc, hperm, -, hround, -⟩
  · rw [hstep]
    exact hs
  · rw [hstep]
    exact forall_finished hc hs
  · have hall := forall_parts hc hperm hs
    exact hround.forall hall (hround.created_forall (hsplit cur (hall cur (.inl rfl)))
      (hsplit next (hall next (.inr (.inl rfl)))))

/-! ## The order of the networks in play -/

/-- Nothing in the queue starts before the current network; what starts with it has no longer prefix, unless
that is a full one. -/
structure Ordered (v : Bool) (cur : IpAddress) (networks : List IpAddress) : Prop where
  family : OfFamily v (cur :: networks)
  first : ∀ n ∈ networks, cur.getFirstAddress ≤ n.getFirstAddress
  mask : ∀ n ∈ networks, n.getFirstAddress = cur.getFirstAddress →
    n.networkMask ≤ max cur.networkMask cur.width

theorem Ordered.perm {networks networks' : List IpAddress} (h : Ordered v cur networks)
    (hp : networks.Perm networks') : Ordered v cur networks' where
  family n hn := h.family n ((hp.cons cur).mem_iff.mpr hn)
  first n hn := h.first n (hp.mem_iff.mpr hn)
  mask n hn := h.mask n (hp.mem_iff.mpr hn)

/-- A current network that is split has more than one address. -/
theorem Ordered.mask_lt (h : Ordered v cur (next :: rest))
    (hmeet : next.getFirstAddress ≤ cur.getLastAddress)
    (hlonger : next.getFirstAddress = cur.getFirstAddress → cur.networkMask < next.networkMask) :
    cur.networkMask < cur.width := by
  by_contra hw
  have hlast := last_of_width_le (not_lt.mp hw)
  have hfirst : next.getFirstAddress = cur.getFirstAddress :=
    le_antisymm (hlast ▸ hmeet) (h.first next List.mem_cons_self)
  have hmask := h.mask next List.mem_cons_self hfirst
  have := hlonger hfirst
  omega

/-- A next network whose lower half is queued has more than one address. -/
theorem Ordered.splitNext_lt (h : Ordered v cur (next :: rest))
    (hfirst : cur.getFirstAddress = next.getFirstAddress)
    (hmask : next.networkMask ≤ cur.networkMask)
    (hne : next.split.1.getLastAddress ≠ cur.getLastAddress) : next.networkMask < next.width := by
  by_contra hw
  have hwidth : cur.width = next.width := width_of_isV4
    ((h.family cur (by simp)).trans (h.family next (by simp)).symm)
  refine hne ?_
  rw [(split_address (not_lt.mp hw)).1, last_of_width_le (by omega), hfirst]

theorem Ordered.move (h : Ordered v cur (next :: rest)) (hrest : ∀ n ∈ rest, NotBefore n next) :
    Ordered v next rest where
  family n hn := h.family n (List.mem_cons_of_mem _ hn)
  first n hn := (hrest n hn).1
  mask n hn heq := ((hrest n hn).2 heq).trans (le_max_left _ _)

/-- **A round keeps the order.** -/
theorem Ordered.round {s : Sweep} {created : List IpAddress} (h : Ordered v cur (next :: rest))
    (hrest : ∀ n ∈ rest, NotBefore n next) (hround : Round done cur next rest s created) :
    ∃ cur', s.currentNet = some cur' ∧ Ordered v cur' s.networks := by
  have hcur : cur.isV4 = v := h.family cur (by simp)
  have hnext : next.isV4 = v := h.family next (by simp)
  have hdrop : Ordered v cur rest := ⟨fun n hn => h.family n (by
      rcases List.mem_cons.mp hn with rfl | hn
      · exact List.mem_cons_self
      · exact List.mem_cons_of_mem _ (List.mem_cons_of_mem _ hn)),
    fun n hn => h.first n (List.mem_cons_of_mem _ hn),
    fun n hn => h.mask n (List.mem_cons_of_mem _ hn)⟩
  cases hround with
  | advance _ => exact ⟨next, rfl, h.move hrest⟩
  | forget _ => exact ⟨next, rfl, h.move hrest⟩
  | ignore _ => exact ⟨cur, rfl, hdrop⟩
  | splitNext hfirst hmask hkind =>
    refine ⟨cur, rfl, ?_, fun n hn => ?_, fun n hn heq => ?_⟩
    · intro n hn
      rcases List.mem_cons.mp hn with rfl | hn
      · exact hcur
      · rcases mem_splitNext hn with hn | rfl | rfl
        · exact hdrop.family n (List.mem_cons_of_mem _ hn)
        · exact hnext
        · exact hnext
    · rcases mem_splitNext_cases hn with hn | ⟨rfl, hne⟩ | ⟨rfl, -⟩
      · exact hdrop.first n hn
      · rw [split_fst_first (h.splitNext_lt hfirst hmask hne), hfirst]
      · exact (hfirst.trans_lt (first_lt_split_snd next)).le
    · rcases mem_splitNext_cases hn with hn | ⟨rfl, hne⟩ | ⟨rfl, -⟩
      · exact hdrop.mask n hn heq
      · have hw := h.splitNext_lt hfirst hmask hne
        rw [width_of_isV4 (hcur.trans hnext.symm)]
        exact (Int.add_one_le_of_lt hw).trans (le_max_right _ _)
      · exact absurd heq (hfirst.trans_lt (first_lt_split_snd next)).ne'
  | splitCurrent hmeet hlonger =>
    have hw := h.mask_lt hmeet hlonger
    have hfst := split_fst_first hw
    refine ⟨cur.split.1, rfl, ?_, fun n hn => ?_, fun n hn heq => ?_⟩
    · intro n hn
      rcases List.mem_cons.mp hn with rfl | hn
      · exact hcur
      · rcases mem_splitCurrent.mp hn with hn | ⟨rfl, -⟩
        · exact h.family n (List.mem_cons_of_mem _ hn)
        · exact hcur
    · rw [hfst]
      rcases mem_splitCurrent.mp hn with hn | ⟨rfl, -⟩
      · exact h.first n hn
      · exact (first_lt_split_snd cur).le
    · rw [hfst] at heq
      rcases mem_splitCurrent.mp hn with hn | ⟨rfl, -⟩
      · have hmask := h.mask n hn heq
        change n.networkMask ≤ max (cur.networkMask + 1) cur.width
        omega
      · exact absurd heq (first_lt_split_snd cur).ne'

/-! ## The measure -/

/-- The networks of the queue that do not start behind the current one. -/
def waiting (cur : IpAddress) (networks : List IpAddress) : List IpAddress :=
  networks.filter fun n => n.getFirstAddress ≤ cur.getFirstAddress

/-- A bound on the number of rounds that are left, in lexicographic order of the total weight and of the
number of networks that do not start behind the current one. -/
def Sweep.fuel (s : Sweep) : ℕ :=
  match s.currentNet with
  | none => 0
  | some cur => s.rounds * (s.rounds + 1) + (waiting cur s.networks).length

theorem length_le_totalWeight : ∀ q : List IpAddress, q.length ≤ totalWeight q
  | [] => Nat.zero_le _
  | n :: q => by
    have := weight_pos n
    have := length_le_totalWeight q
    rw [List.length_cons, totalWeight_cons]
    omega

theorem rounds_eq (networks done : List IpAddress) (cur : IpAddress) :
    (Sweep.mk networks done (some cur)).rounds = weight cur + totalWeight networks :=
  totalWeight_cons cur networks

theorem length_waiting_le (cur : IpAddress) (networks : List IpAddress) :
    (waiting cur networks).length ≤ totalWeight networks :=
  List.length_filter_le _ _ |>.trans (length_le_totalWeight networks)

/-- The order of the measure is lexicographic. -/
theorem lex_lt {a a' w w' : ℕ} (hw : w' ≤ a') (h : a' < a ∨ a' ≤ a ∧ w' < w) :
    a' * (a' + 1) + w' < a * (a + 1) + w := by
  rcases h with h | ⟨hle, hlt⟩
  · have := Nat.mul_le_mul (show a' + 1 ≤ a from h) (show a' + 2 ≤ a + 1 by omega)
    have hexp : (a' + 1) * (a' + 2) = a' * (a' + 1) + 2 * a' + 2 := by ring
    omega
  · have := Nat.mul_le_mul hle (show a' + 1 ≤ a + 1 by omega)
    omega

theorem waiting_offerNew (h : cur.getFirstAddress < n.getFirstAddress) :
    waiting cur (Sweep.offerNew q n) = waiting cur q := by
  unfold Sweep.offerNew
  split_ifs
  · rfl
  · rw [waiting, List.filter_append, ← waiting, List.filter_cons_of_neg (by simpa using h),
      List.filter_nil, List.append_nil]

/-- **A round lowers the measure.** -/
theorem Ordered.fuel_lt {s : Sweep} {created : List IpAddress} (h : Ordered v cur (next :: rest))
    (hround : Round done cur next rest s created) :
    s.fuel < (weight cur + totalWeight (next :: rest)) *
      (weight cur + totalWeight (next :: rest) + 1) + (waiting cur (next :: rest)).length := by
  have hcur := weight_pos cur
  have hnext := weight_pos next
  have htotal := totalWeight_cons next rest
  have hlex : ∀ (networks done : List IpAddress) (cur' : IpAddress),
      (weight cur' + totalWeight networks < weight cur + totalWeight (next :: rest) ∨
        weight cur' + totalWeight networks ≤ weight cur + totalWeight (next :: rest) ∧
          (waiting cur' networks).length < (waiting cur (next :: rest)).length) →
      (Sweep.mk networks done (some cur')).fuel < (weight cur + totalWeight (next :: rest)) *
        (weight cur + totalWeight (next :: rest) + 1) + (waiting cur (next :: rest)).length := by
    intro networks done cur' hless
    have hle := length_waiting_le cur' networks
    change (Sweep.mk networks done (some cur')).rounds *
      ((Sweep.mk networks done (some cur')).rounds + 1) + (waiting cur' networks).length < _
    rw [rounds_eq]
    exact lex_lt (by omega) hless
  cases hround with
  | advance _ => exact hlex _ _ _ (.inl (by omega))
  | forget _ => exact hlex _ _ _ (.inl (by omega))
  | ignore _ => exact hlex _ _ _ (.inl (by omega))
  | splitNext hfirst hmask hkind =>
    by_cases hw : next.networkMask < next.width
    · have := totalWeight_splitNext cur rest hw
      exact hlex _ _ _ (.inl (by omega))
    · -- the address after it takes the place of the next network
      have hsnd := (split_address (not_lt.mp hw)).2
      have hsplit := splitNext_address rest
        ((h.family cur (by simp)).trans (h.family next (by simp)).symm) hfirst hmask (not_lt.mp hw)
      have hweight : weight next.split.2 = weight next := by
        rw [width] at hw
        rw [weight, weight, numBits, numBits, show next.split.2.isV4 = next.isV4 from rfl,
          show next.split.2.networkMask = next.networkMask + 1 from rfl]
        congr 2
        omega
      have hoffer := totalWeight_offerNew rest next.split.2
      have hwait : (waiting cur (next :: rest)).length = (waiting cur rest).length + 1 := by
        rw [waiting, List.filter_cons_of_pos (by simpa using hfirst.ge), List.length_cons, ← waiting]
      refine hlex _ _ _ (.inr ⟨by rw [hsplit]; omega, ?_⟩)
      rw [hsplit, waiting_offerNew (by omega), hwait]
      exact Nat.lt_succ_self _
  | splitCurrent hmeet hlonger =>
    have := totalWeight_splitCurrent next rest (h.mask_lt hmeet hlonger)
    exact hlex _ _ _ (.inl (by omega))

/-! ## Inside the address space -/

/-- A network with a valid prefix inside the address space. -/
structure Fits (n : IpAddress) : Prop where
  mask_nonneg : 0 ≤ n.networkMask
  mask_le : n.networkMask ≤ n.width
  first_nonneg : 0 ≤ n.getFirstAddress
  last_lt : n.getLastAddress < 2 ^ n.width.toNat

instance (n : IpAddress) : Decidable (Fits n) :=
  decidable_of_iff (_ ∧ _ ∧ _ ∧ _)
    ⟨fun ⟨h1, h2, h3, h4⟩ => ⟨h1, h2, h3, h4⟩, fun ⟨h1, h2, h3, h4⟩ => ⟨h1, h2, h3, h4⟩⟩

/-- The halves of a network with more than one address fit with it, those of an address do not. -/
theorem Fits.split_iff (h : Fits n) :
    (∀ m ∈ [n.split.1, n.split.2], Fits m) ↔ n.networkMask < n.width := by
  constructor
  · intro hall
    have hle := (hall n.split.1 (by simp)).mask_le
    change n.networkMask + 1 ≤ n.width at hle
    omega
  · intro hw m hm
    have hnonneg := h.mask_nonneg
    have hmask : m.networkMask = n.networkMask + 1 ∧ m.width = n.width := by
      rcases List.mem_pair.mp hm with rfl | rfl <;> exact ⟨rfl, rfl⟩
    have hinside : ∀ a, m.Covers a → n.Covers a := by
      intro a ha
      rcases List.mem_pair.mp hm with rfl | rfl
      · exact (covers_split hw).mpr (.inl ha)
      · exact (covers_split hw).mpr (.inr ha)
    refine ⟨by omega, by omega, h.first_nonneg.trans (hinside _ m.covers_first).1, ?_⟩
    rw [hmask.2]
    exact (hinside _ m.covers_last).2.trans_lt h.last_lt

/-- What a round creates fits iff the round meets no address twice. -/
theorem Ordered.created_fits_iff {s : Sweep} {created : List IpAddress}
    (h : Ordered v cur (next :: rest)) (hcur : Fits cur) (hnext : Fits next)
    (hround : Round done cur next rest s created) :
    (∀ n ∈ created, Fits n) ↔ ¬ Clash cur next := by
  have hwidth : cur.width = next.width := width_of_isV4
    ((h.family cur (by simp)).trans (h.family next (by simp)).symm)
  have hmask := hcur.mask_le
  cases hround with
  | advance hgap =>
    refine iff_of_true (by simp) fun hclash => ?_
    have := cur.first_le_last
    have := hclash.2.2.1
    omega
  | forget hsame => exact iff_of_true (by simp) fun hclash => hclash.2.2.2 hsame
  | ignore hsame => exact iff_of_true (by simp) fun hclash => hclash.2.2.2 hsame
  | splitNext hfirst hle hkind =>
    rw [hnext.split_iff]
    constructor
    · intro hlt hclash
      have := hclash.2.1
      omega
    · intro hno
      refine lt_of_le_of_ne hnext.mask_le fun heq => hno ⟨by omega, heq, hfirst, hkind⟩
  | splitCurrent hmeet hlonger =>
    rw [hcur.split_iff]
    refine iff_of_true (h.mask_lt hmeet hlonger) fun hclash => ?_
    have := hlonger hclash.2.2.1.symm
    have := hclash.1
    have := hclash.2.1
    omega

/-! ## The whole loop -/

/-- The order of a state; an ended one has none. -/
def Sweep.Ordered (v : Bool) (s : Sweep) : Prop :=
  ∀ cur, s.currentNet = some cur → Route.Ordered v cur s.networks

theorem Sweep.fuel_pos {s : Sweep} (hc : s.currentNet = some cur) : 0 < s.fuel := by
  have hrounds : 0 < s.rounds := Nat.pos_of_ne_zero fun h0 => by
    rw [Sweep.ended_of_rounds h0] at hc
    cases hc
  rw [Sweep.fuel, hc]
  exact Nat.add_pos_left (Nat.mul_pos hrounds (Nat.succ_pos _)) _

/-- A round keeps the order and lowers the measure. -/
theorem Sweep.Ordered.step_ordered {s : Sweep} (h : s.Ordered v) (t : ℕ) :
    (s.step t).Ordered v ∧ (s.currentNet = none ∨ (s.step t).fuel < s.fuel) := by
  rcases s.step_cases t with ⟨hc, hstep, -⟩ | ⟨cur, hc, -, -, -, hstep⟩ |
    ⟨cur, next, rest, hc, hperm, hrest, hround, -⟩
  · rw [hstep]
    exact ⟨h, .inl hc⟩
  · rw [hstep]
    exact ⟨(fun _ hcur => by cases hcur), .inr (Sweep.fuel_pos hc)⟩
  · have hord := (h cur hc).perm hperm
    obtain ⟨cur', hcur', hord'⟩ := hord.round hrest hround
    refine ⟨fun c hc' => ?_, .inr ?_⟩
    · obtain rfl := Option.some.inj (hcur'.symm.trans hc')
      exact hord'
    · have hlt := hord.fuel_lt hround
      have hwait : (waiting cur s.networks).length = (waiting cur (next :: rest)).length :=
        (hperm.filter _).length_eq
      have hrounds : s.rounds = weight cur + totalWeight (next :: rest) := by
        rw [Sweep.rounds, hc, Option.toList_some, List.singleton_append, totalWeight_cons,
          totalWeight_perm hperm]
      rw [Sweep.fuel.eq_def s, hc]
      dsimp only
      rw [hrounds, hwait]
      exact hlt

/-- The loop ends within its measure. -/
theorem Sweep.Ordered.run_ended {s : Sweep} (h : s.Ordered v) (ts : List ℕ)
    (hlen : s.fuel ≤ ts.length) : (run Sweep.step s ts).currentNet = none := by
  refine run_ends (P := fun _ _ => True) (I := Sweep.Ordered v) (E := fun s => s.currentNet = none)
    (fun s t hs _ => (hs.step_ordered t).1) (fun s t hs _ => (hs.step_ordered t).2)
    (fun s _ hzero => ?_) Sweep.step_ended ts s h (along_of_forall (fun _ _ => trivial) ts s) hlen
  rcases hc : s.currentNet with _ | cur
  · rfl
  · exact absurd hzero (Sweep.fuel_pos hc).ne'

/-- What a round creates fits iff the round meets no address twice; then all networks fit after it. -/
theorem Sweep.Ordered.step_fits {s : Sweep} (h : s.Ordered v) (hfit : ∀ n ∈ s.all, Fits n) (t : ℕ) :
    ((∀ n ∈ s.created t, Fits n) ↔ s.NoClash t) ∧
      ((∀ n ∈ s.created t, Fits n) → ∀ n ∈ (s.step t).all, Fits n) := by
  rcases s.step_cases t with ⟨-, hstep, hcreated, hclash⟩ | ⟨cur, hc, -, hcreated, hclash, hstep⟩ |
    ⟨cur, next, rest, hc, hperm, -, hround, hclash⟩
  · rw [hstep, hcreated]
    exact ⟨iff_of_true (by simp) hclash, fun _ => hfit⟩
  · rw [hstep, hcreated]
    exact ⟨iff_of_true (by simp) hclash, fun _ => forall_finished hc hfit⟩
  · have hall := forall_parts hc hperm hfit
    rw [hclash]
    exact ⟨((h cur hc).perm hperm).created_fits_iff (hall cur (.inl rfl))
      (hall next (.inr (.inl rfl))) hround, hround.forall hall⟩

theorem Sweep.ordered_start {S : List IpAddress} (hv : OfFamily v S) (t : ℕ) :
    (Sweep.start t S).Ordered v := by
  rw [Sweep.start]
  rcases hp : poll compareTo t S with _ | ⟨cur, rest⟩
  · intro cur hcur
    cases hcur
  · intro cur' hcur'
    obtain rfl := Option.some.inj hcur'
    have hperm := poll_perm hp
    have hrest : ∀ n ∈ rest, NotBefore n cur := fun n hn => notBefore_of_compareTo (poll_le hp hn)
    exact ⟨fun n hn => hv n (hperm.mem_iff.mpr hn), fun n hn => (hrest n hn).1,
      fun n hn heq => ((hrest n hn).2 heq).trans (le_max_left _ _)⟩

theorem Sweep.forall_start {P : IpAddress → Prop} {S : List IpAddress} (hS : ∀ n ∈ S, P n) (t : ℕ) :
    ∀ n ∈ (Sweep.start t S).all, P n := by
  intro n hn
  refine hS n ?_
  rw [Sweep.start] at hn
  rcases hp : poll compareTo t S with _ | ⟨cur, rest⟩
  · rw [hp] at hn
    simpa [Sweep.all] using hn
  · rw [hp] at hn
    rw [(poll_perm hp).mem_iff]
    simpa [Sweep.all] using hn

/-- **`generateIPList` ends** for every set of networks of one family, whatever the queue chooses.  All
networks that it creates and returns fit iff no round meets one address as the current and as the
next network, with two kinds. -/
theorem generateIPList_ends (v : Bool) (s : NetworkSpace) (hv : OfFamily v s.mIpAddresses)
    (hfit : ∀ n ∈ s.mIpAddresses, Fits n) (t : ℕ) (ts : List ℕ)
    (hlen : (Sweep.start t s.mIpAddresses).fuel ≤ ts.length) :
    ∃ out, s.generateIPList t ts = some out ∧
      ((Along Sweep.step (fun s t => ∀ n ∈ s.created t, Fits n) (Sweep.start t s.mIpAddresses) ts ∧
          ∀ n ∈ out, Fits n) ↔
        Along Sweep.step Sweep.NoClash (Sweep.start t s.mIpAddresses) ts) := by
  have hord := Sweep.ordered_start hv t
  have hend := hord.run_ended ts hlen
  refine ⟨_, by rw [NetworkSpace.generateIPList, hend], ?_⟩
  have hinv : ∀ (s : Sweep) (t : ℕ), (s.Ordered v ∧ ∀ n ∈ s.all, Fits n) →
      (∀ n ∈ s.created t, Fits n) → (s.step t).Ordered v ∧ ∀ n ∈ (s.step t).all, Fits n :=
    fun s t hs hc => ⟨(hs.1.step_ordered t).1, (hs.1.step_fits hs.2 t).2 hc⟩
  have hstart := And.intro hord (Sweep.forall_start hfit t)
  rw [← along_congr (P := fun s t => ∀ n ∈ s.created t, Fits n) (Q := Sweep.NoClash)
    (fun s t hs => (hs.1.step_fits hs.2 t).1) hinv ts _ hstart]
  refine and_iff_left_of_imp fun hcreated n hn => ?_
  exact (run_inv hinv ts _ hstart hcreated).2 n (List.mem_append_right _ hn)

theorem generateIPList_ends_hole :
    ∃ out, (networkSpace holeCalls).generateIPList 0 (List.replicate 100 0) = some out ∧
      ∀ n ∈ out, Fits n := by
  obtain ⟨out, hout, hiff⟩ := generateIPList_ends true (networkSpace holeCalls)
    (networkSpace_wellFormed holeCalls (by simp [OneFamily, holeCalls, Call.isV4])).1
    (by decide +kernel) 0 (List.replicate 100 0) (by decide +kernel)
  exact ⟨out, hout, (hiff.mpr (by decide +kernel)).2⟩

/-- The last four addresses without the last two, which are excluded together and one by one. -/
def clashCalls : List Call :=
  [.addIP ⟨"255.255.255.252".toList, 30⟩ true, .addIP ⟨"255.255.255.254".toList, 31⟩ false,
    .addIP ⟨"255.255.255.254".toList, 32⟩ false, .addIP ⟨"255.255.255.255".toList, 32⟩ false]

/-- Two networks with a prefix of 33 bits are returned, the second one behind the last address. -/
theorem generateIPList_long_prefix :
    (networkSpace clashCalls).generateIPList 0 (List.replicate 20 0) =
        some [⟨0xfffffffc, 31, true, true⟩, ⟨0xfffffffe, 32, false, true⟩,
          ⟨0xffffffff, 33, true, true⟩, ⟨0x100000000, 33, false, true⟩] ∧
      ¬ Fits ⟨0xffffffff, 33, true, true⟩ ∧ ¬ Fits ⟨0x100000000, 33, false, true⟩ := by
  decide +kernel

end VpnCore.Route
