import VpnCore.Route.Partition

/-!
# VpnCore.Route.GenerateIPList — what `generateIPList` starts from, and how far it is from its end

The calls that fill the set make networks of one family and of distinct ranges.  The total weight of
the networks in play bounds the rounds that are left.
-/

namespace VpnCore.Route

open VpnCore.Lib VpnCore.Config IpAddress

/-! ## The calls that fill the set -/

/-- What adds to the space. -/
inductive Call
  | addIP (cidrIp : CIDRIP) (included : Bool)
  | addIPv6 (address : Inet6Address) (mask : ℤ) (included : Bool)
  | addIPSplit (cidrIp : CIDRIP) (included : Bool)
  deriving DecidableEq

/-- A call that throws leaves the set as it is. -/
def Call.apply (s : NetworkSpace) : Call → NetworkSpace
  | .addIP cidrIp included => ((s.addIP cidrIp included).toOption).getD s
  | .addIPv6 address mask included => s.addIPv6 address mask included
  | .addIPSplit cidrIp included => ((s.addIPSplit cidrIp included).toOption).getD s

def Call.isV4 : Call → Bool
  | .addIPv6 .. => false
  | _ => true

/-- The length of the prefix of a call. -/
def Call.mask : Call → ℤ
  | .addIPv6 _ mask _ => mask
  | .addIP cidrIp _ | .addIPSplit cidrIp _ => cidrIp.len

/-- The networks after the calls `cs` on a new `NetworkSpace`. -/
def networkSpace (cs : List Call) : NetworkSpace := run Call.apply {} cs

/-! ## The number of rounds -/

/-- A network of `k` addresses can be cut into parts `k - 1` times. -/
def weight (n : IpAddress) : ℕ := 2 ^ (n.numBits + 1) - 1

def totalWeight (q : List IpAddress) : ℕ := (q.map weight).sum

/-- A bound on the number of rounds that are left. -/
def Sweep.rounds (s : Sweep) : ℕ := totalWeight (s.currentNet.toList ++ s.networks)

theorem weight_pos (n : IpAddress) : 0 < weight n := by
  have h : 2 ≤ 2 ^ (n.numBits + 1) := by
    rw [pow_succ]
    have := Nat.one_le_two_pow (n := n.numBits)
    omega
  rw [weight]
  omega

theorem weight_split {n : IpAddress} (h : n.networkMask < n.width) :
    weight n.split.1 + weight n.split.2 + 1 = weight n := by
  obtain ⟨k, hk, hl, hr⟩ := split_bits h
  rw [weight, weight, weight, hk, hl, hr, pow_succ 2 (k + 1)]
  have := Nat.one_le_two_pow (n := k + 1)
  omega

theorem totalWeight_cons (n : IpAddress) (q : List IpAddress) :
    totalWeight (n :: q) = weight n + totalWeight q := by
  simp [totalWeight]

theorem totalWeight_append (q q' : List IpAddress) :
    totalWeight (q ++ q') = totalWeight q + totalWeight q' := by
  simp [totalWeight]

theorem totalWeight_perm {q q' : List IpAddress} (h : q.Perm q') : totalWeight q = totalWeight q' :=
  (h.map weight).sum_eq

theorem totalWeight_offerNew (q : List IpAddress) (n : IpAddress) :
    totalWeight (Sweep.offerNew q n) ≤ totalWeight q + weight n := by
  rw [Sweep.offerNew]
  by_cases h : q.any n.equals = true
  · rw [if_pos h]
    omega
  · rw [if_neg h, totalWeight_append, totalWeight_cons]
    simp [totalWeight]

variable {v : Bool} {cur next : IpAddress} {rest : List IpAddress}

theorem totalWeight_splitNext (cur : IpAddress) (rest : List IpAddress)
    (h : next.networkMask < next.width) :
    totalWeight (Sweep.splitNext cur next rest) < weight next + totalWeight rest := by
  have h1 := weight_split h
  have h2 := totalWeight_offerNew rest next.split.2
  have h3 := totalWeight_offerNew (Sweep.offerNew rest next.split.2) next.split.1
  rw [Sweep.splitNext]
  by_cases hlast : next.split.1.getLastAddress = cur.getLastAddress
  · rw [if_pos hlast]
    omega
  · rw [if_neg hlast]
    omega

theorem totalWeight_splitCurrent (next : IpAddress) (rest : List IpAddress)
    (h : cur.networkMask < cur.width) :
    weight cur.split.1 + totalWeight (Sweep.splitCurrent cur next rest) <
      weight cur + (weight next + totalWeight rest) := by
  have h1 := weight_split h
  have h2 : totalWeight [next] = weight next := by simp [totalWeight]
  have h3 : totalWeight [cur.split.2] = weight cur.split.2 := by simp [totalWeight]
  rw [Sweep.splitCurrent]
  by_cases hmask : cur.split.2.networkMask = next.networkMask
  · rw [if_pos hmask, totalWeight_append, h2]
    omega
  · rw [if_neg hmask, totalWeight_append, totalWeight_append, h2, h3]
    omega

/-! ## The end of the sweep -/

theorem Sweep.step_ended (s : Sweep) (t : ℕ) (h : s.currentNet = none) :
    (s.step t).currentNet = none := by
  rw [Sweep.step, h]
  exact h

theorem Sweep.ended_of_rounds {s : Sweep} (h : s.rounds = 0) : s.currentNet = none := by
  rcases hc : s.currentNet with _ | cur
  · rfl
  · have hcur := weight_pos cur
    rw [Sweep.rounds, hc, Option.toList_some, List.singleton_append, totalWeight_cons] at h
    omega

/-- No two networks of the set have one range. -/
def Distinct (S : List IpAddress) : Prop := ∀ m ∈ S, ∀ n ∈ S, m.compareTo n = .eq → m = n

theorem NetworkSpace.add_distinct {s : NetworkSpace} (h : Distinct s.mIpAddresses) (ip : IpAddress) :
    Distinct (s.add ip).mIpAddresses := by
  intro m hm n hn he
  rcases mem_treeAdd.mp hm with hm' | ⟨rfl, hm'⟩ <;> rcases mem_treeAdd.mp hn with hn' | ⟨rfl, hn'⟩
  · exact h m hm' n hn' he
  · refine absurd ?_ (hn' m hm')
    rw [compareTo_eq_iff, equals_iff] at he ⊢
    exact ⟨he.1.symm, he.2.symm⟩
  · exact absurd he (hm' n hn')
  · rfl

theorem ofCIDRIP_eq_ok {cidrIp : CIDRIP} {included : Bool} {ip : IpAddress}
    (h : ofCIDRIP cidrIp included = .ok ip) : ip.isV4 = true ∧ ip.networkMask = cidrIp.len := by
  rcases hg : cidrIp.getInt with e | n
  · simp [ofCIDRIP, hg, bind, Except.bind] at h
  · simp only [ofCIDRIP, hg, bind, Except.bind, pure, Except.pure, Except.ok.injEq] at h
    rw [← h]
    exact ⟨rfl, rfl⟩

/-- What holds of a set and of networks of the family that are added to it, holds after a call.  A
half has a longer prefix than the call, by one bit. -/
theorem Call.apply_inv {P : NetworkSpace → Prop} (c : Call)
    (hadd : ∀ s ip, P s → ip.isV4 = c.isV4 → ip.networkMask ≤ c.mask + 1 → P (s.add ip))
    (s : NetworkSpace) (h : P s) : P (c.apply s) := by
  cases c with
  | addIPv6 address mask included => exact hadd s _ h rfl (Int.lt_succ mask).le
  | addIP cidrIp included =>
    rcases hip : ofCIDRIP cidrIp included with e | ip
    · simpa [Call.apply, NetworkSpace.addIP, hip, bind, Except.bind, Except.toOption] using h
    · obtain ⟨hv, hm⟩ := ofCIDRIP_eq_ok hip
      have hnew := hadd s ip h hv (hm.trans_le (Int.lt_succ cidrIp.len).le)
      simpa [Call.apply, NetworkSpace.addIP, hip, bind, Except.bind, pure, Except.pure,
        Except.toOption] using hnew
  | addIPSplit cidrIp included =>
    rcases hip : ofCIDRIP cidrIp included with e | ip
    · simpa [Call.apply, NetworkSpace.addIPSplit, hip, bind, Except.bind, Except.toOption] using h
    · obtain ⟨hv, hm⟩ := ofCIDRIP_eq_ok hip
      have hlen : ip.networkMask + 1 ≤ cidrIp.len + 1 := by omega
      have hnew := hadd _ ip.split.2 (hadd s ip.split.1 h hv hlen) hv hlen
      simpa [Call.apply, NetworkSpace.addIPSplit, hip, bind, Except.bind, pure, Except.pure,
        Except.toOption] using hnew

theorem networkSpace_inv {P : NetworkSpace → Prop} (h : P {}) (cs : List Call)
    (hadd : ∀ c ∈ cs, ∀ s ip, P s → ip.isV4 = c.isV4 → ip.networkMask ≤ c.mask + 1 → P (s.add ip)) :
    P (networkSpace cs) := by
  have hrun : ∀ s, P s → P (run Call.apply s cs) := by
    induction cs with
    | nil => exact fun s hs => hs
    | cons c cs ih =>
      intro s hs
      exact ih (fun d hd => hadd d (List.mem_cons_of_mem _ hd)) _
        (c.apply_inv (hadd c List.mem_cons_self) s hs)
  exact hrun {} h

/-- The calls are all for one address family. -/
def OneFamily (v : Bool) (cs : List Call) : Prop := ∀ c ∈ cs, c.isV4 = v

/-- Every prefix has a valid length. -/
def ValidMasks (cs : List Call) : Prop :=
  ∀ c ∈ cs, 0 ≤ c.mask ∧ c.mask ≤ if c.isV4 then 32 else 128

theorem networkSpace_wellFormed (cs : List Call) (h : OneFamily v cs) :
    OfFamily v (networkSpace cs).mIpAddresses ∧ Distinct (networkSpace cs).mIpAddresses := by
  refine networkSpace_inv (P := fun s => OfFamily v s.mIpAddresses ∧ Distinct s.mIpAddresses)
    ⟨by simp [OfFamily], by simp [Distinct]⟩ cs fun c hc s ip hs hip _ => ⟨fun n hn => ?_, ?_⟩
  · rcases mem_treeAdd.mp hn with hn | ⟨rfl, -⟩
    · exact hs.1 n hn
    · exact hip.trans (h c hc)
  · exact NetworkSpace.add_distinct hs.2 ip

/-- The prefix of a half of an address is too long by one bit, no prefix is longer. -/
theorem networkSpace_masks (cs : List Call) (h : ValidMasks cs) :
    ∀ n ∈ (networkSpace cs).mIpAddresses, n.networkMask ≤ n.width + 1 := by
  refine networkSpace_inv (P := fun s => ∀ n ∈ s.mIpAddresses, n.networkMask ≤ n.width + 1)
    (by simp) cs fun c hc s ip hs hip hmask n hn => ?_
  rcases mem_treeAdd.mp hn with hn | ⟨rfl, -⟩
  · exact hs n hn
  · rw [width, hip]
    exact hmask.trans (Int.add_le_add_right (h c hc).2 1)

/-- 10.0.0.0/30 without 10.0.0.1. -/
def holeCalls : List Call :=
  [.addIP ⟨"10.0.0.0".toList, 30⟩ true, .addIP ⟨"10.0.0.1".toList, 32⟩ false]

end VpnCore.Route
