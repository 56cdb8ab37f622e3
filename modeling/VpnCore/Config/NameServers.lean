import VpnCore.Config.Exported

/-!
# VpnCore.Config.NameServers — the name servers of an imported configuration

`convertProfile` keeps two addresses and takes a slot for free if it holds the default address.
`getConfigFile` prints both slots.
-/

namespace VpnCore.Config

open VpnCore.Lib

/-! ## The servers of a configuration and of a profile -/

/-- The address in the arguments of a `dhcp-option`. -/
def dnsArgument : OptionLine → Option Text
  | [_, type, arg] => if type = "DNS".toList then some arg else none
  | _ => none

/-- The name servers that a configuration names. -/
def nameServers (o : OptionMap) : List Text := (linesOf o "dhcp-option").filterMap dnsArgument

/-! ## The two slots -/

def defaultServer : Text := "8.8.8.8".toList

/-- What a server does to the slots. -/
def slotStep (slots : Text × Text) (server : Text) : Text × Text :=
  if slots.1 = defaultServer then (server, slots.2) else (slots.1, server)

theorem convertDhcpOptions_slots : ∀ {lines : List OptionLine} {a a' : Addressing},
    (∀ l ∈ lines, wrongLength 2 2 l = false) → convertDhcpOptions a lines = .ok a' →
      (a'.mDNS1, a'.mDNS2) = (lines.filterMap dnsArgument).foldl slotStep (a.mDNS1, a.mDNS2) ∧
        a'.mOverrideDNS = (a.mOverrideDNS || !(lines.filterMap dnsArgument).isEmpty)
  | [], a, a', _, h => by
    obtain rfl := Except.ok.inj h
    simp
  | l :: lines, a, a', hlen, h => by
    rw [List.forall_mem_cons] at hlen
    rw [convertDhcpOptions, List.foldlM_cons] at h
    obtain ⟨a₁, hstep, h⟩ := bind_eq_ok.mp h
    obtain ⟨hslots, hoverride⟩ := convertDhcpOptions_slots hlen.2 h
    obtain ⟨name, type, arg, rfl⟩ := shape_of_wrongLength_two_two hlen.1
    obtain ⟨type', arg', htype, harg, rfl⟩ := convertDhcpOption_eq_ok hstep
    obtain rfl : type = type' := Option.some.inj htype
    obtain rfl : arg = arg' := Option.some.inj harg
    rw [hslots, hoverride, List.filterMap_cons, dnsArgument]
    by_cases hdns : type = "DNS".toList
    · have hdomain : type ≠ "DOMAIN".toList := by
        rw [hdns]
        decide
      have hs : dhcpStep a type arg = if a.mDNS1 = defaultServer then
          { a with mOverrideDNS := true, mDNS1 := arg } else { a with mOverrideDNS := true, mDNS2 := arg } := by
        delta defaultServer
        rw [dhcpStep, if_neg hdomain, if_pos hdns]
      rw [if_pos hdns, hs, List.foldl_cons, slotStep]
      by_cases hfree : a.mDNS1 = defaultServer
      · simp only [if_pos hfree, List.isEmpty_cons, Bool.not_false, Bool.or_true, Bool.true_or, and_self]
      · simp only [if_neg hfree, List.isEmpty_cons, Bool.not_false, Bool.or_true, Bool.true_or, and_self]
    · rw [if_neg hdns]
      unfold dhcpStep
      split_ifs <;> simp

def secondServer : Text := "8.8.4.4".toList

/-- The slots of a profile whose configuration names the servers. -/
def slots (servers : List Text) : Text × Text := servers.foldl slotStep (defaultServer, secondServer)

/-- The slots of the profile that is made. -/
theorem ProfileRead.slots {o : OptionMap} {p : VpnProfile}
    (h : ProfileRead o startProfile p) :
    (p.mDNS1, p.mDNS2) = Config.slots (nameServers o) ∧ p.mOverrideDNS = !(nameServers o).isEmpty := by
  obtain ⟨a, hsame, hread⟩ := h.addressing
  obtain ⟨a₁, hconvert, heq⟩ := hread.dhcp
  obtain ⟨hslots, hoverride⟩ := convertDhcpOptions_slots hread.arity hconvert
  have hp : p.mDNS1 = a₁.mDNS1 ∧ p.mDNS2 = a₁.mDNS2 ∧ p.mOverrideDNS = a₁.mOverrideDNS := by
    rw [← heq]
    exact ⟨rfl, rfl, rfl⟩
  have ha : a.mDNS1 = defaultServer ∧ a.mDNS2 = secondServer ∧ a.mOverrideDNS = false := by
    have hstart : startProfile.mDNS1 = defaultServer ∧ startProfile.mDNS2 = secondServer ∧
        startProfile.mOverrideDNS = false := ⟨rfl, rfl, rfl⟩
    rw [← hsame] at hstart
    exact hstart
  rw [ha.1, ha.2.1] at hslots
  rw [ha.2.2, Bool.false_or] at hoverride
  rw [hp.1, hp.2.1, hp.2.2]
  exact ⟨hslots, hoverride⟩

/-- What holds of the defaults and of the servers holds of the slots. -/
theorem forall_slots {P : Text → Prop} {servers : List Text} (hdefault : P defaultServer)
    (hsecond : P secondServer) (h : ∀ server ∈ servers, P server) :
    P (slots servers).1 ∧ P (slots servers).2 := by
  unfold slots
  refine List.foldlRecOn (b := (defaultServer, secondServer))
    (motive := fun old => P old.1 ∧ P old.2) servers slotStep ⟨hdefault, hsecond⟩
    fun old hold server hserver => ?_
  unfold slotStep
  split_ifs
  · exact ⟨h server hserver, hold.2⟩
  · exact ⟨hold.1, h server hserver⟩

/-! ## The file -/

/-- **The name servers in the file of an imported configuration.** -/
theorem printedServers_exported {order : MapOrder} {ctx : Context} {text file : Text} {s : Parser}
    {p : VpnProfile} (h : exported order ctx text = .ok (s, p, file)) (hsome : nameServers s.options ≠ [])
    (hservers : ∀ server ∈ nameServers s.options, server ≠ [] ∧ '\n' ∉ server) :
    printedServers p = [(slots (nameServers s.options)).1, (slots (nameServers s.options)).2] := by
  obtain ⟨-, np, hread, -, haddressing⟩ := exported_eq_ok h
  obtain ⟨hslots, hoverride⟩ := hread.slots
  obtain ⟨hfirst, hsecond⟩ := forall_slots (P := (· ≠ [])) (by decide) (by decide)
    fun server hserver => (hservers server hserver).1
  have hp : p.mDNS1 = np.mDNS1 ∧ p.mDNS2 = np.mDNS2 ∧ p.mOverrideDNS = np.mOverrideDNS := by
    rw [haddressing]
    exact ⟨rfl, rfl, rfl⟩
  have hon : (p.mOverrideDNS || !p.mUsePull) = true := by
    rw [hp.2.2, hoverride, List.isEmpty_eq_false_iff.mpr hsome]
    rfl
  rw [← hslots] at hfirst hsecond ⊢
  rw [printedServers, if_pos hon, hp.1, hp.2.1]
  simp [hfirst, hsecond]

/-- One or two servers are in the slots only if there are two and the first is not the default. -/
theorem slots_eq_iff {servers : List Text} (hcount : servers.length = 1 ∨ servers.length = 2)
    (hdistinct : servers.Nodup) : [(slots servers).1, (slots servers).2] = servers ↔
      servers.length = 2 ∧ servers.head? ≠ some defaultServer := by
  rcases hcount with hone | htwo
  · obtain ⟨a, rfl⟩ := List.length_eq_one_iff.mp hone
    simp
  · obtain ⟨a, b, rfl⟩ := List.length_eq_two.mp htwo
    have hne : a ≠ b := by simpa using hdistinct
    by_cases hdefault : a = defaultServer
    · -- the second server takes the place of the first
      have hslots : slots [a, b] = (b, secondServer) := by simp [slots, slotStep, hdefault]
      simp only [hslots, List.cons.injEq, and_true]
      constructor
      · exact fun heq => absurd heq.1.symm hne
      · exact fun h => absurd (congrArg some hdefault) h.2
    · have hslots : slots [a, b] = (a, b) := by simp [slots, slotStep, hdefault]
      simp [hslots, hdefault]

end VpnCore.Config
