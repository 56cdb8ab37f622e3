import VpnCore.Route.Texts
import VpnCore.Tun.Model

/-!
# VpnCore.Tun.Reopen — what `NOACTION` says about the configuration

`getTunReopenStatus` compares one text for the whole configuration with that of the last `openTun`.
The text is six parts between blanks, and each part is read back from it; but inside the parts the
IPv6 text follows the IPv4 text without a separator, a missing domain is written like the domain
`null`, and the text of an IPv6 network does not determine the network.  `LooksLike` lists these
confusions, and `noAction_same_iff` says that there are no others.
-/

namespace VpnCore.Tun

open VpnCore.Lib VpnCore.Config VpnCore.Route

/-! ## The configuration -/

/-- What the fields say about the interface. -/
structure TunConfig where
  localIP : Option CIDRIP
  localIPv6 : Option Text
  included : List IpAddress
  included6 : List IpAddress
  excluded : List IpAddress
  excluded6 : List IpAddress
  dns : List Text
  domain : Option Text
  mtu : ℤ
  deriving DecidableEq

def Fields.tunConfig (s : Fields) : TunConfig where
  localIP := s.mLocalIP
  localIPv6 := s.mLocalIPv6
  included := s.mRoutes.getNetworks true
  included6 := s.mRoutesv6.getNetworks true
  excluded := s.mRoutes.getNetworks false
  excluded6 := s.mRoutesv6.getNetworks false
  dns := s.mDnslist
  domain := s.mDomain
  mtu := s.mMtu

/-- Four decimal numbers up to 255 between dots. -/
def isIPv4Text (t : Text) : Bool :=
  (t.splitOn '.').length == 4 &&
    (t.splitOn '.').all fun part => !part.isEmpty && part.all isDigit && digitsValue part ≤ 255

def isHexDigit (c : Char) : Bool := isDigit c || 'a' ≤ c && c ≤ 'f' || 'A' ≤ c && c ≤ 'F'

/-- The shape of an IPv6 address: hexadecimal digits before the first colon, and nothing that ends
an address. -/
def isIPv6Text (t : Text) : Bool :=
  t.contains ':' && (t.takeWhile (· != ':')).all isHexDigit && !t.contains ' ' && !t.contains '/' &&
    !t.contains '|'

/-- An IPv4 address with a prefix length. -/
def ValidLocal (ip : CIDRIP) : Prop := isIPv4Text ip.mIp = true ∧ 0 ≤ ip.len ∧ ip.len ≤ 32

/-- The text of an IPv6 address with a prefix length. -/
def ValidLocal6 (t : Text) : Prop :=
  ∃ address len, t = address ++ '/' :: decimal len ∧ isIPv6Text address = true ∧ 0 ≤ len ∧ len ≤ 128

/-- The fields hold valid addresses and prefix lengths, and a domain without blanks. -/
structure Fields.Valid (s : Fields) : Prop where
  localIP : ∀ ip ∈ s.mLocalIP, ValidLocal ip
  localIPv6 : ∀ t ∈ s.mLocalIPv6, ValidLocal6 t
  routes : ∀ n ∈ s.mRoutes.mIpAddresses, n.Valid4
  routes6 : ∀ n ∈ s.mRoutesv6.mIpAddresses, n.Valid6
  dns : ∀ t ∈ s.mDnslist, isIPv4Text t = true ∨ isIPv6Text t = true
  domain : ∀ t ∈ s.mDomain, ' ' ∉ t

/-! ## Configurations with the same text -/

/-- The digit `d` ends the prefix length `len'` on one side and begins the text `t` on the other. -/
def DigitMoved (len len' : ℤ) (t t' : Text) : Prop :=
  ∃ d : ℕ, d < 10 ∧ 0 < len ∧ len' = 10 * len + d ∧ t = Nat.digitChar d :: t'

/-- A digit between the IPv4 prefix length and the IPv6 text is read either way. -/
def Ambiguous (len len' : ℤ) (t t' : Text) : Prop :=
  DigitMoved len len' t t' ∨ DigitMoved len' len t' t

/-- Local addresses that are written alike. -/
inductive LocalsLook : Option CIDRIP → Option Text → Option CIDRIP → Option Text → Prop
  | same (ip : Option CIDRIP) (t : Option Text) : LocalsLook ip t ip t
  | moved {mIp : Text} {len len' : ℤ} {t t' : Text} (h : Ambiguous len len' t t') :
    LocalsLook (some ⟨mIp, len⟩) (some t) (some ⟨mIp, len'⟩) (some t')

/-- Networks that are written alike. -/
inductive NetworksLook : List IpAddress → List IpAddress → List IpAddress → List IpAddress → Prop
  | same (ns : List IpAddress) {ms ms' : List IpAddress}
    (h : List.Forall₂ IpAddress.LooksLike ms ms') : NetworksLook ns ms ns ms'
  | moved (ns : List IpAddress) {n n' m m' : IpAddress} {ms ms' : List IpAddress}
    (haddress : n.netAddress = n'.netAddress) (hmask : m.networkMask = m'.networkMask)
    (hmoved : Ambiguous n.networkMask n'.networkMask m.getIPv6Address m'.getIPv6Address)
    (h : List.Forall₂ IpAddress.LooksLike ms ms') :
    NetworksLook (ns ++ [n]) (m :: ms) (ns ++ [n']) (m' :: ms')

/-- The configurations differ at most in what the text does not show. -/
structure TunConfig.LooksLike (c d : TunConfig) : Prop where
  locals : LocalsLook c.localIP c.localIPv6 d.localIP d.localIPv6
  included : NetworksLook c.included c.included6 d.included d.included6
  excluded : NetworksLook c.excluded c.excluded6 d.excluded d.excluded6
  dns : c.dns = d.dns
  /-- no domain and the domain `null` -/
  domain : c.domain.getD "null".toList = d.domain.getD "null".toList
  mtu : c.mtu = d.mtu

/-! ## The place between the IPv4 and the IPv6 text -/

theorem decimal_append_eq_iff {len len' : ℤ} (h : 0 ≤ len ∧ len ≤ 32) (h' : 0 ≤ len' ∧ len' ≤ 32)
    {t t' : Text} : decimal len ++ t = decimal len' ++ t' ↔
      len = len' ∧ t = t' ∨ Ambiguous len len' t t' := by
  obtain ⟨l, rfl⟩ := Int.eq_ofNat_of_zero_le h.1
  obtain ⟨l', rfl⟩ := Int.eq_ofNat_of_zero_le h'.1
  have hlonger : ∀ {k k' : ℕ} {u u' : Text}, k' ≤ 32 → decimal k ++ u = decimal k' ++ u' →
      (decimal k).length ≤ (decimal k').length →
      (k : ℤ) = k' ∧ u = u' ∨ DigitMoved k k' u u' := by
    intro k k' u u' hk' heq hlen
    obtain ⟨v, hv⟩ := List.prefix_of_prefix_length_le (List.prefix_append (decimal k) u)
      (heq ▸ List.prefix_append (decimal k') u') hlen
    rw [← hv, List.append_assoc, List.append_cancel_left_eq] at heq
    rw [decimal_natCast, decimal_natCast] at hv
    obtain ⟨rfl, rfl⟩ | ⟨d, hd, hpos, rfl, rfl⟩ :=
      toDigits_eq_append (by decide) (by decide) (by omega) hv.symm
    · exact .inl ⟨rfl, heq⟩
    · exact .inr ⟨d, hd, by omega, by push_cast; rfl, heq⟩
  have hmoved : ∀ {k k' : ℕ} {u u' : Text}, DigitMoved k k' u u' → decimal k ++ u = decimal k' ++ u' := by
    rintro k k' u u' ⟨d, hd, hpos, hk', rfl⟩
    obtain rfl : k' = 10 * k + d := by omega
    rw [decimal_natCast, decimal_natCast, ← Nat.toDigits_append_toDigits (by decide) (by omega) hd,
      Nat.toDigits_of_lt_base hd, List.append_assoc, List.singleton_append]
  constructor
  · intro heq
    rcases le_total (decimal l).length (decimal l').length with hlen | hlen
    · exact (hlonger (by omega) heq hlen).imp id .inl
    · exact (hlonger (by omega) heq.symm hlen).imp (fun ⟨a, b⟩ => ⟨a.symm, b.symm⟩) .inr
  · rintro (⟨hl, rfl⟩ | hm | hm)
    · rw [hl]
    · exact hmoved hm
    · exact (hmoved hm).symm

/-! ## The addresses of the interface -/

theorem mem_of_isIPv4Text {t : Text} (h : isIPv4Text t = true) {c : Char} (hc : c ∈ t) :
    isDigit c = true ∨ c = '.' := by
  simp only [isIPv4Text, Bool.and_eq_true, List.all_eq_true] at h
  have hjoin : ['.'].intercalate (t.splitOn '.') = t := List.intercalate_splitOn '.'
  rw [← hjoin] at hc
  obtain rfl | ⟨part, hpart, hc⟩ := mem_intercalate hc
  · exact .inr rfl
  · exact .inl ((h.2 part hpart).1.2 c hc)

theorem not_mem_of_isIPv4Text {t : Text} (h : isIPv4Text t = true) {c : Char} (hdot : c ≠ '.')
    (hc : isDigit c = false) : c ∉ t := by
  intro hm
  rcases mem_of_isIPv4Text h hm with hm | hm
  · rw [hc] at hm
    exact Bool.false_ne_true hm
  · exact hdot hm

theorem dot_mem_of_isIPv4Text {t : Text} (h : isIPv4Text t = true) : '.' ∈ t := by
  by_contra hdot
  rw [isIPv4Text, List.splitOn_eq_singleton hdot] at h
  simp at h

theorem not_mem_of_isIPv6Text {t : Text} (h : isIPv6Text t = true) :
    ' ' ∉ t ∧ '/' ∉ t ∧ '|' ∉ t := by
  simp only [isIPv6Text, Bool.and_eq_true, Bool.not_eq_true', List.contains_eq_mem,
    decide_eq_false_iff_not] at h
  exact ⟨h.1.1.2, h.1.2, h.2⟩

theorem colon_mem_of_isIPv6Text {t : Text} (h : isIPv6Text t = true) : ':' ∈ t := by
  simp only [isIPv6Text, Bool.and_eq_true, List.contains_eq_mem, decide_eq_true_eq] at h
  exact h.1.1.1.1

theorem exists_of_isIPv6Text {t : Text} (h : isIPv6Text t = true) :
    ∃ a r, t = a ++ ':' :: r ∧ ':' ∉ a ∧ '.' ∉ a := by
  have hcolon := colon_mem_of_isIPv6Text h
  simp only [isIPv6Text, Bool.and_eq_true, List.all_eq_true] at h
  obtain ⟨a, r, rfl, ha⟩ := List.eq_append_cons_of_mem hcolon
  refine ⟨a, r, rfl, ha, fun hdot => ?_⟩
  have htake : (a ++ ':' :: r).takeWhile (· != ':') = a := by
    rw [List.takeWhile_append_of_pos fun c hc => by simpa using ne_of_mem_of_not_mem hc ha]
    simp
  have hhex := h.1.1.1.2
  rw [htake] at hhex
  exact absurd (hhex '.' hdot) (by decide)

theorem ValidLocal.text {ip : CIDRIP} (h : ValidLocal ip) :
    ∃ a r, ip.text = a ++ '.' :: r ∧ ':' ∉ a := by
  obtain ⟨a, r, heq, -⟩ := List.eq_append_cons_of_mem (dot_mem_of_isIPv4Text h.1)
  refine ⟨a, r ++ '/' :: decimal ip.len, ?_, fun hc => ?_⟩
  · rw [CIDRIP.text, heq, List.append_assoc, List.cons_append]
  · exact not_mem_of_isIPv4Text h.1 (by decide) (by decide) (heq ▸ List.mem_append_left _ hc)

theorem ValidLocal6.colon_mem {t : Text} (h : ValidLocal6 t) : ':' ∈ t := by
  obtain ⟨address, len, rfl, haddress, -⟩ := h
  exact List.mem_append_left _ (colon_mem_of_isIPv6Text haddress)

/-- An IPv4 address is not read as an IPv6 address or as none. -/
theorem text_append_ne {ip : CIDRIP} {t : Option Text} (h : ValidLocal ip)
    (ht : ∀ u ∈ t, ValidLocal6 u) (x : Text) : ip.text ++ x ≠ t.getD [] := by
  obtain ⟨a, r, hip, ha⟩ := h.text
  rw [hip, List.append_assoc, List.cons_append]
  cases t with
  | none => simp
  | some u =>
    obtain ⟨address, len, rfl, haddress, -⟩ := ht u rfl
    obtain ⟨b, q, rfl, -, hb⟩ := exists_of_isIPv6Text haddress
    rw [Option.getD_some, List.append_assoc, List.cons_append]
    intro heq
    exact absurd ((append_cons_inj ha hb).mp heq).2.1 (by decide)

theorem slash_not_mem {ip : CIDRIP} (h : ValidLocal ip) : '/' ∉ ip.mIp :=
  not_mem_of_isIPv4Text h.1 (by decide) (by decide)

theorem locals_eq_iff {ip ip' : Option CIDRIP} {t t' : Option Text}
    (hip : ∀ i ∈ ip, ValidLocal i) (hip' : ∀ i ∈ ip', ValidLocal i) (ht : ∀ u ∈ t, ValidLocal6 u)
    (ht' : ∀ u ∈ t', ValidLocal6 u) :
    (ip.map CIDRIP.text).getD [] ++ t.getD [] = (ip'.map CIDRIP.text).getD [] ++ t'.getD [] ↔
      LocalsLook ip t ip' t' := by
  constructor
  · intro h
    have hsome : ∀ {u : Option Text}, (∀ v ∈ u, ValidLocal6 v) → u.getD [] = [] → u = none := by
      intro u hu hnil
      cases u with
      | none => rfl
      | some v =>
        have hcolon := (hu v rfl).colon_mem
        rw [show v = [] from hnil] at hcolon
        cases hcolon
    cases ip with
    | none =>
      cases ip' with
      | none =>
        obtain rfl : t = t' := by
          cases t with
          | none => exact (hsome ht' h.symm).symm
          | some u =>
            cases t' with
            | none => exact hsome ht h
            | some u' => exact congrArg some h
        exact .same none t
      | some i' => exact absurd h.symm (text_append_ne (hip' i' rfl) ht _)
    | some i =>
      cases ip' with
      | none => exact absurd h (text_append_ne (hip i rfl) ht' _)
      | some i' =>
        obtain ⟨mIp, len⟩ := i
        obtain ⟨mIp', len'⟩ := i'
        have hi := hip _ rfl
        have hi' := hip' _ rfl
        simp only [Option.map_some, Option.getD_some, CIDRIP.text, List.append_assoc,
          List.cons_append] at h
        obtain ⟨rfl, -, hrest⟩ := (append_cons_inj (slash_not_mem hi) (slash_not_mem hi')).mp h
        have hno : ∀ {l l' : ℤ} {u : Text}, 0 ≤ l → ValidLocal6 u → decimal l ≠ decimal l' ++ u := by
          intro l l' u hl hu heq
          have hcolon : ':' ∈ decimal l := heq ▸ List.mem_append_right _ hu.colon_mem
          exact not_mem_decimal hl (by decide) hcolon
        cases t with
        | none =>
          cases t' with
          | none =>
            rw [Option.getD_none, List.append_nil, List.append_nil] at hrest
            rw [decimal_inj hrest]
            exact .same _ none
          | some u' =>
            rw [Option.getD_none, List.append_nil] at hrest
            exact absurd hrest (hno hi.2.1 (ht' u' rfl))
        | some u =>
          cases t' with
          | none =>
            rw [Option.getD_none, List.append_nil] at hrest
            exact absurd hrest.symm (hno hi'.2.1 (ht u rfl))
          | some u' =>
            obtain ⟨rfl, hu⟩ | hmoved := (decimal_append_eq_iff hi.2 hi'.2).mp hrest
            · rw [show u = u' from hu]
              exact .same _ _
            · exact .moved hmoved
  · rintro (⟨ip, t⟩ | hmoved)
    · rfl
    · have hdecimal := (decimal_append_eq_iff (hip _ rfl).2 (hip' _ rfl).2).mpr (.inr hmoved)
      simp only [Option.map_some, Option.getD_some, CIDRIP.text, List.append_assoc, List.cons_append,
        hdecimal]

/-! ## The networks -/

section

variable {b : Bool} {n n' : IpAddress} {ns ns' ms ms' : List IpAddress}

/-- Valid IPv4 networks of one kind. -/
def All4 (b : Bool) (ns : List IpAddress) : Prop := ∀ n ∈ ns, n.Valid4 ∧ n.included = b

/-- Valid IPv6 networks. -/
def All6 (ms : List IpAddress) : Prop := ∀ m ∈ ms, m.Valid6

theorem slash_not_mem4 (h : n.Valid4) : '/' ∉ n.getIPv4Address :=
  h.not_mem_getIPv4Address (by decide) (by decide)

theorem slash_not_mem6 (h : n.Valid6) : '/' ∉ n.getIPv6Address :=
  h.not_mem_getIPv6Address (by decide) (by decide)

theorem dot_mem_text (h : n.Valid4) : '.' ∈ n.text := by
  rw [IpAddress.text_of_isV4 h.isV4]
  exact List.mem_append_left _ h.dot_mem

/-- The characters that do not occur in the text of a network. -/
theorem not_mem_text4 (h : n.Valid4) {c : Char} (hdot : c ≠ '.') (hslash : c ≠ '/')
    (hc : isDigit c = false) : c ∉ n.text := by
  rw [IpAddress.text_of_isV4 h.isV4, List.mem_append, List.mem_cons, not_or, not_or]
  exact ⟨h.not_mem_getIPv4Address hdot hc, hslash, not_mem_decimal h.mask.1 hc⟩

theorem not_mem_text6 (h : n.Valid6) {c : Char} (hcolon : c ≠ ':') (hslash : c ≠ '/')
    (hc : ∀ d : Fin 16, c ≠ Nat.digitChar d) (hdigit : isDigit c = false) : c ∉ n.text := by
  rw [IpAddress.text_of_not_isV4 h.isV4, List.mem_append, List.mem_cons, not_or, not_or]
  exact ⟨h.not_mem_getIPv6Address hcolon hc, hslash, not_mem_decimal h.mask.1 hdigit⟩

theorem text_ne_nil (n : IpAddress) : n.text ≠ [] := by simp [IpAddress.text]

theorem map_text4_inj (hns : All4 b ns) (hns' : All4 b ns')
    (h : ns.map IpAddress.text = ns'.map IpAddress.text) : ns = ns' := by
  induction ns generalizing ns' with
  | nil => exact (List.map_eq_nil_iff.mp h.symm).symm
  | cons n ns ih =>
    obtain ⟨n', ns', rfl, hn, hrest⟩ := List.map_eq_cons_iff.mp h.symm
    obtain ⟨hv, hb⟩ := hns n List.mem_cons_self
    obtain ⟨hv', hb'⟩ := hns' n' List.mem_cons_self
    rw [hv.text_inj hv' (hb.trans hb'.symm) hn.symm,
      ih (fun k hk => hns k (List.mem_cons_of_mem n hk))
        (fun k hk => hns' k (List.mem_cons_of_mem n' hk)) hrest.symm]

theorem map_text6_iff (hms : All6 ms) (hms' : All6 ms') :
    ms.map IpAddress.text = ms'.map IpAddress.text ↔ List.Forall₂ IpAddress.LooksLike ms ms' := by
  induction ms generalizing ms' with
  | nil => rw [List.map_nil, eq_comm, List.map_eq_nil_iff, List.forall₂_nil_left_iff]
  | cons m ms ih =>
    cases ms' with
    | nil => simp
    | cons m' ms' =>
      rw [List.map_cons, List.map_cons, List.cons.injEq, List.forall₂_cons,
        (hms m List.mem_cons_self).text_eq_iff (hms' m' List.mem_cons_self),
        ih (fun k hk => hms k (List.mem_cons_of_mem m hk))
          (fun k hk => hms' k (List.mem_cons_of_mem m' hk))]

/-- The text of the networks of one kind. -/
def networksText (ns ms : List IpAddress) : Text :=
  join "|".toList (ns.map IpAddress.text) ++ join "|".toList (ms.map IpAddress.text)

/-- The part in which the IPv4 texts end and the IPv6 texts begin, and the parts behind it. -/
def border (n : IpAddress) : List IpAddress → List Text
  | [] => [n.text]
  | m :: ms => (n.text ++ m.text) :: ms.map IpAddress.text

theorem networksText_concat (ns : List IpAddress) (n : IpAddress) (ms : List IpAddress) :
    networksText (ns ++ [n]) ms = ['|'].intercalate (ns.map IpAddress.text ++ border n ms) := by
  unfold networksText join
  cases ms with
  | nil => simp [border]
  | cons m ms =>
    rw [List.map_append, List.map_singleton, List.map_cons]
    exact intercalate_append '|' (ns.map IpAddress.text) n.text m.text (ms.map IpAddress.text)

theorem dot_not_mem_join (hms : All6 ms) : '.' ∉ join "|".toList (ms.map IpAddress.text) := by
  intro h
  obtain h | ⟨t, ht, hc⟩ := mem_intercalate h
  · exact absurd h (by decide)
  · obtain ⟨m, hm, rfl⟩ := List.mem_map.mp ht
    exact not_mem_text6 (hms m hm) (by decide) (by decide) (by decide) (by decide) hc

/-- Networks with IPv4 networks among them have a dot in their text. -/
theorem dot_mem_networksText (hns : All4 b (ns ++ [n])) (ms : List IpAddress) :
    '.' ∈ networksText (ns ++ [n]) ms := by
  have hn := dot_mem_text (hns n (by simp)).1
  have hlast : '.' ∈ ['|'].intercalate (ns.map IpAddress.text ++ [n.text]) := by
    induction ns with
    | nil => simpa using hn
    | cons k ns ih =>
      rw [List.map_cons, List.cons_append, intercalate_cons (by simp)]
      exact List.mem_append_right _ (List.mem_cons_of_mem _
        (ih fun j hj => hns j (List.mem_cons_of_mem k hj)))
  refine List.mem_append_left _ ?_
  rw [List.map_append, List.map_singleton]
  exact hlast

theorem border_parts (n : IpAddress) (hms : All6 ms) :
    ∃ x rest, border n ms = (n.text ++ x) :: rest ∧ '|' ∉ x ∧
      ∀ t ∈ rest, t ≠ [] ∧ '|' ∉ t ∧ '.' ∉ t := by
  cases ms with
  | nil => exact ⟨[], [], by rw [List.append_nil]; rfl, List.not_mem_nil, by simp⟩
  | cons m ms =>
    refine ⟨m.text, ms.map IpAddress.text, rfl,
      not_mem_text6 (hms m List.mem_cons_self) (by decide) (by decide) (by decide) (by decide), ?_⟩
    intro t ht
    obtain ⟨k, hk, rfl⟩ := List.mem_map.mp ht
    have hk6 := hms k (List.mem_cons_of_mem m hk)
    exact ⟨text_ne_nil k, not_mem_text6 hk6 (by decide) (by decide) (by decide) (by decide),
      not_mem_text6 hk6 (by decide) (by decide) (by decide) (by decide)⟩

/-- The parts before the border, the one at the border and those behind it are read back. -/
theorem networksText_inj (hns : All4 b (ns ++ [n])) (hns' : All4 b (ns' ++ [n'])) (hms : All6 ms)
    (hms' : All6 ms') (h : networksText (ns ++ [n]) ms = networksText (ns' ++ [n']) ms') :
    ns = ns' ∧ border n ms = border n' ms' := by
  obtain ⟨x, rest, hborder, hx, hrest⟩ := border_parts n hms
  obtain ⟨x', rest', hborder', hx', hrest'⟩ := border_parts n' hms'
  have hbefore : ∀ {ks : List IpAddress} {k : IpAddress} {y : Text}, All4 b (ks ++ [k]) → '|' ∉ y →
      ∀ t ∈ ks.map IpAddress.text ++ [k.text ++ y], (t ≠ [] ∧ '|' ∉ t) ∧ '.' ∈ t := by
    intro ks k y hks hy t ht
    rcases List.mem_append.mp ht with ht | ht
    · obtain ⟨j, hj, rfl⟩ := List.mem_map.mp ht
      have hj4 := (hks j (List.mem_append_left _ hj)).1
      exact ⟨⟨text_ne_nil j, not_mem_text4 hj4 (by decide) (by decide) (by decide)⟩, dot_mem_text hj4⟩
    · obtain rfl := List.mem_singleton.mp ht
      have hk4 := (hks k (by simp)).1
      refine ⟨⟨by simp [text_ne_nil k], ?_⟩, List.mem_append_left _ (dot_mem_text hk4)⟩
      rw [List.mem_append, not_or]
      exact ⟨not_mem_text4 hk4 (by decide) (by decide) (by decide), hy⟩
  rw [networksText_concat, networksText_concat, hborder, hborder', List.append_cons,
    List.append_cons (ns'.map IpAddress.text)] at h
  have hparts := intercalate_inj
    (fun t ht => (List.mem_append.mp ht).elim (fun ht => (hbefore hns hx t ht).1)
      fun ht => ⟨(hrest t ht).1, (hrest t ht).2.1⟩)
    (fun t ht => (List.mem_append.mp ht).elim (fun ht => (hbefore hns' hx' t ht).1)
      fun ht => ⟨(hrest' t ht).1, (hrest' t ht).2.1⟩) h
  obtain ⟨hfirst, hsecond⟩ := append_inj_of_forall (p := fun t => '.' ∈ t)
    (fun t ht => (hbefore hns hx t ht).2) (fun t ht => (hrest t ht).2.2)
    (fun t ht => (hbefore hns' hx' t ht).2) (fun t ht => (hrest' t ht).2.2) hparts
  obtain ⟨hinit, hlast⟩ := List.append_inj' hfirst rfl
  refine ⟨map_text4_inj (fun k hk => hns k (List.mem_append_left _ hk))
    (fun k hk => hns' k (List.mem_append_left _ hk)) hinit, ?_⟩
  rw [hborder, hborder', List.singleton_inj.mp hlast, hsecond]

/-- The address is read back from the text at the border. -/
theorem text_append_iff (hn : n.Valid4) (hn' : n'.Valid4) {x x' : Text} :
    n.text ++ x = n'.text ++ x' ↔ n.netAddress = n'.netAddress ∧
      decimal n.networkMask ++ x = decimal n'.networkMask ++ x' := by
  rw [IpAddress.text_of_isV4 hn.isV4, IpAddress.text_of_isV4 hn'.isV4, List.append_assoc,
    List.append_assoc, List.cons_append, List.cons_append,
    append_cons_inj (slash_not_mem4 hn) (slash_not_mem4 hn')]
  refine ⟨fun ⟨ha, _, h⟩ => ⟨hn.netAddress_eq hn' ha, h⟩, fun ⟨ha, h⟩ => ⟨?_, rfl, h⟩⟩
  rw [hn.getIPv4Address, hn'.getIPv4Address, ha]

theorem IpAddress.eq_of_valid4 (hn : n.Valid4) (hn' : n'.Valid4) (hi : n.included = n'.included)
    (ha : n.netAddress = n'.netAddress) (hm : n.networkMask = n'.networkMask) : n = n' := by
  have hv4 := hn.isV4.trans hn'.isV4.symm
  cases n
  cases n'
  simp_all

/-- The text at the border with an IPv6 text in it. -/
theorem border_text_iff {m m' : IpAddress} (hn : n.Valid4) (hn' : n'.Valid4) (hm : m.Valid6)
    (hm' : m'.Valid6) :
    n.text ++ m.text = n'.text ++ m'.text ↔
      n.netAddress = n'.netAddress ∧ m.networkMask = m'.networkMask ∧
        (n.networkMask = n'.networkMask ∧ m.getIPv6Address = m'.getIPv6Address ∨
          Ambiguous n.networkMask n'.networkMask m.getIPv6Address m'.getIPv6Address) := by
  have hfree : ∀ {k l : IpAddress}, k.Valid4 → l.Valid6 →
      '/' ∉ decimal k.networkMask ++ l.getIPv6Address := by
    intro k l hk hl
    rw [List.mem_append, not_or]
    exact ⟨not_mem_decimal hk.mask.1 (by decide), slash_not_mem6 hl⟩
  rw [text_append_iff hn hn', IpAddress.text_of_not_isV4 hm.isV4,
    IpAddress.text_of_not_isV4 hm'.isV4, ← List.append_assoc, ← List.append_assoc,
    append_cons_inj (hfree hn hm) (hfree hn' hm'), decimal_append_eq_iff hn.mask hn'.mask]
  exact ⟨fun ⟨ha, h, _, hmask⟩ => ⟨ha, decimal_inj hmask, h⟩,
    fun ⟨ha, hmask, h⟩ => ⟨ha, h, rfl, by rw [hmask]⟩⟩

theorem slash_mem_text (n : IpAddress) : '/' ∈ n.text := by simp [IpAddress.text]

theorem networksLook_of_border (hn : n.Valid4) (hn' : n'.Valid4) (hi : n.included = n'.included)
    (hms : All6 ms) (hms' : All6 ms') (h : border n ms = border n' ms') :
    NetworksLook (ns ++ [n]) ms (ns ++ [n']) ms' := by
  have hno : ∀ {k k' m : IpAddress}, k.Valid4 → k'.Valid4 → k.text ≠ k'.text ++ m.text := by
    intro k k' m hk hk' heq
    rw [← List.append_nil k.text, text_append_iff hk hk', List.append_nil] at heq
    have hslash : '/' ∈ decimal k.networkMask :=
      heq.2 ▸ List.mem_append_right _ (slash_mem_text m)
    exact not_mem_decimal hk.mask.1 (by decide) hslash
  cases ms with
  | nil =>
    cases ms' with
    | nil =>
      rw [hn.text_inj hn' hi (List.singleton_inj.mp h)]
      exact .same _ .nil
    | cons m' ms' => exact absurd (List.cons.inj h).1 (hno hn hn')
  | cons m ms =>
    cases ms' with
    | nil => exact absurd (List.cons.inj h).1.symm (hno hn' hn)
    | cons m' ms' =>
      obtain ⟨hhead, htail⟩ := List.cons.inj h
      have hm := hms m List.mem_cons_self
      have hm' := hms' m' List.mem_cons_self
      have hrest := (map_text6_iff (fun k hk => hms k (List.mem_cons_of_mem m hk))
        fun k hk => hms' k (List.mem_cons_of_mem m' hk)).mp htail
      obtain ⟨ha, hmask6, ⟨hmask, htext⟩ | hmoved⟩ := (border_text_iff hn hn' hm hm').mp hhead
      · rw [IpAddress.eq_of_valid4 hn hn' hi ha hmask]
        exact .same _ (.cons ⟨hmask6, (hm.getIPv6Address_eq_iff hm').mp htext⟩ hrest)
      · exact .moved ns ha hmask6 hmoved hrest

theorem networksText_eq_iff (hns : All4 b ns) (hns' : All4 b ns') (hms : All6 ms)
    (hms' : All6 ms') :
    networksText ns ms = networksText ns' ms' ↔ NetworksLook ns ms ns' ms' := by
  constructor
  · intro h
    rcases ns.eq_nil_or_concat' with rfl | ⟨init, n, rfl⟩
    · rcases ns'.eq_nil_or_concat' with rfl | ⟨init', n', rfl⟩
      · have hparts : ∀ {ks : List IpAddress}, All6 ks → ∀ t ∈ ks.map IpAddress.text,
            t ≠ [] ∧ '|' ∉ t := by
          intro ks hks t ht
          obtain ⟨k, hk, rfl⟩ := List.mem_map.mp ht
          exact ⟨text_ne_nil k,
            not_mem_text6 (hks k hk) (by decide) (by decide) (by decide) (by decide)⟩
        exact .same [] ((map_text6_iff hms hms').mp (intercalate_inj (hparts hms) (hparts hms') h))
      · have hdot := h ▸ dot_mem_networksText hns' ms'
        exact absurd hdot (dot_not_mem_join hms)
    · rcases ns'.eq_nil_or_concat' with rfl | ⟨init', n', rfl⟩
      · have hdot := h ▸ dot_mem_networksText hns ms
        exact absurd hdot (dot_not_mem_join hms')
      · obtain ⟨rfl, hborder⟩ := networksText_inj hns hns' hms hms' h
        obtain ⟨hn, hb⟩ := hns n (by simp)
        obtain ⟨hn', hb'⟩ := hns' n' (by simp)
        exact networksLook_of_border hn hn' (hb.trans hb'.symm) hms hms' hborder
  · rintro (⟨ns, h⟩ | ⟨ns, ha, hmask, hmoved, h⟩)
    · rw [networksText, networksText, (map_text6_iff hms hms').mpr h]
    · next n n' m m' ms ms' =>
      have htext := (border_text_iff (hns n (by simp)).1 (hns' n' (by simp)).1
        (hms m List.mem_cons_self) (hms' m' List.mem_cons_self)).mpr ⟨ha, hmask, .inr hmoved⟩
      have hrest := (map_text6_iff (fun k hk => hms k (List.mem_cons_of_mem m hk))
        fun k hk => hms' k (List.mem_cons_of_mem m' hk)).mpr h
      rw [networksText_concat, networksText_concat, border, border, htext, hrest]

end

/-! ## The whole text -/

section

variable {s o : Fields}

/-- The parts of the text between its blanks. -/
def Fields.sections (s : Fields) : List Text :=
  ["TUNCFG".toList, "UNQIUE".toList, "STRING".toList,
    "ips:".toList ++ ((s.mLocalIP.map CIDRIP.text).getD [] ++ s.mLocalIPv6.getD []) ++
      "routes:".toList,
    s.networks true ++ "excl.".toList, "routes:".toList ++ s.networks false ++ "dns:".toList,
    join "|".toList s.mDnslist ++ "domain:".toList, s.mDomain.getD "null".toList ++ "mtu:".toList,
    decimal s.mMtu]

theorem join_sections (ip ip6 routes excl dns domain mtu : Text) :
    "TUNCFG UNQIUE STRING ips:".toList ++ ip ++ ip6 ++ "routes: ".toList ++ routes ++
        "excl. routes:".toList ++ excl ++ "dns: ".toList ++ dns ++ "domain: ".toList ++ domain ++
        "mtu: ".toList ++ mtu =
      [' '].intercalate ["TUNCFG".toList, "UNQIUE".toList, "STRING".toList,
        "ips:".toList ++ (ip ++ ip6) ++ "routes:".toList, routes ++ "excl.".toList,
        "routes:".toList ++ excl ++ "dns:".toList, dns ++ "domain:".toList, domain ++ "mtu:".toList,
        mtu] := by
  have hips : "TUNCFG UNQIUE STRING ips:".toList =
      "TUNCFG".toList ++ ([' '] ++ ("UNQIUE".toList ++ ([' '] ++ ("STRING".toList ++
        ([' '] ++ "ips:".toList))))) := by decide
  have hroutes : "routes: ".toList = "routes:".toList ++ [' '] := by decide
  have hexcl : "excl. routes:".toList = "excl.".toList ++ ([' '] ++ "routes:".toList) := by decide
  have hdns : "dns: ".toList = "dns:".toList ++ [' '] := by decide
  have hdomain : "domain: ".toList = "domain:".toList ++ [' '] := by decide
  have hmtu : "mtu: ".toList = "mtu:".toList ++ [' '] := by decide
  rw [hips, hroutes, hexcl, hdns, hdomain, hmtu]
  simp only [List.intercalate_cons_cons, List.intercalate_singleton, List.append_assoc]

theorem getTunConfigString_eq (s : Fields) :
    s.getTunConfigString = [' '].intercalate s.sections :=
  join_sections _ _ _ _ _ _ _

theorem all4_getNetworks (hs : s.Valid) (b : Bool) : All4 b (s.mRoutes.getNetworks b) := by
  intro n hn
  obtain ⟨hmem, hb⟩ := List.mem_filter.mp hn
  exact ⟨hs.routes n hmem, by simpa using hb⟩

theorem all6_getNetworks (hs : s.Valid) (b : Bool) : All6 (s.mRoutesv6.getNetworks b) :=
  fun n hn => hs.routes6 n (List.mem_filter.mp hn).1

theorem blank_not_mem_networks (hs : s.Valid) (b : Bool) : ' ' ∉ s.networks b := by
  intro h
  rcases List.mem_append.mp h with h | h
  · obtain h | ⟨t, ht, hc⟩ := mem_intercalate h
    · exact absurd h (by decide)
    · obtain ⟨n, hn, rfl⟩ := List.mem_map.mp ht
      exact not_mem_text4 (all4_getNetworks hs b n hn).1 (by decide) (by decide) (by decide) hc
  · obtain h | ⟨t, ht, hc⟩ := mem_intercalate h
    · exact absurd h (by decide)
    · obtain ⟨n, hn, rfl⟩ := List.mem_map.mp ht
      exact not_mem_text6 (all6_getNetworks hs b n hn) (by decide) (by decide) (by decide)
        (by decide) hc

theorem dns_text (hs : s.Valid) {t : Text} (ht : t ∈ s.mDnslist) : t ≠ [] ∧ '|' ∉ t ∧ ' ' ∉ t := by
  rcases hs.dns t ht with h | h
  · exact ⟨List.ne_nil_of_mem (dot_mem_of_isIPv4Text h),
      not_mem_of_isIPv4Text h (by decide) (by decide), not_mem_of_isIPv4Text h (by decide) (by decide)⟩
  · exact ⟨List.ne_nil_of_mem (colon_mem_of_isIPv6Text h), (not_mem_of_isIPv6Text h).2.2,
      (not_mem_of_isIPv6Text h).1⟩

theorem blank_not_mem_locals (hs : s.Valid) :
    ' ' ∉ (s.mLocalIP.map CIDRIP.text).getD [] ++ s.mLocalIPv6.getD [] := by
  rw [List.mem_append, not_or]
  constructor
  · rcases hip : s.mLocalIP with _ | ip
    · simp
    · obtain ⟨htext, hlen⟩ := hs.localIP ip hip
      simp only [Option.map_some, Option.getD_some, CIDRIP.text, List.mem_append, List.mem_cons,
        not_or]
      exact ⟨not_mem_of_isIPv4Text htext (by decide) (by decide), by decide,
        not_mem_decimal hlen.1 (by decide)⟩
  · rcases hip : s.mLocalIPv6 with _ | t
    · simp
    · obtain ⟨address, len, rfl, haddress, hlen⟩ := hs.localIPv6 t hip
      simp only [Option.getD_some, List.mem_append, List.mem_cons, not_or]
      exact ⟨(not_mem_of_isIPv6Text haddress).1, by decide, not_mem_decimal hlen.1 (by decide)⟩

theorem blank_not_mem_decimal (n : ℤ) : ' ' ∉ decimal n := by
  rcases lt_or_ge n 0 with h | h
  · rw [decimal, if_pos h, List.mem_cons, not_or]
    refine ⟨by decide, fun hm => ?_⟩
    exact absurd (isDigit_of_mem_toDigits hm) (by decide)
  · exact not_mem_decimal h (by decide)

theorem blank_not_mem_sections (hs : s.Valid) : ∀ t ∈ s.sections, ' ' ∉ t := by
  have hdns : ' ' ∉ join "|".toList s.mDnslist := by
    intro h
    obtain h | ⟨t, ht, hc⟩ := mem_intercalate h
    · exact absurd h (by decide)
    · exact (dns_text hs ht).2.2 hc
  have hdomain : ' ' ∉ s.mDomain.getD "null".toList := by
    rcases hd : s.mDomain with _ | t
    · decide
    · exact hs.domain t hd
  simp only [Fields.sections, List.mem_cons, List.not_mem_nil, or_false, forall_eq_or_imp, forall_eq,
    List.mem_append, not_or]
  exact ⟨by decide, by decide, by decide,
    ⟨⟨by decide, List.mem_append.not.mp (blank_not_mem_locals hs) |> not_or.mp⟩, by decide⟩,
    ⟨blank_not_mem_networks hs true, by decide⟩,
    ⟨⟨by decide, blank_not_mem_networks hs false⟩, by decide⟩, ⟨hdns, by decide⟩,
    ⟨hdomain, by decide⟩, blank_not_mem_decimal s.mMtu⟩

/-- **The text shows everything but the confusions.** -/
theorem getTunConfigString_eq_iff (hs : s.Valid) (ho : o.Valid) :
    s.getTunConfigString = o.getTunConfigString ↔ s.tunConfig.LooksLike o.tunConfig := by
  have hsections : s.getTunConfigString = o.getTunConfigString ↔ s.sections = o.sections := by
    rw [getTunConfigString_eq, getTunConfigString_eq]
    refine ⟨fun h => ?_, fun h => by rw [h]⟩
    have hsplit := congrArg (List.splitOn ' ') h
    rwa [List.splitOn_intercalate ' ' (blank_not_mem_sections hs) (List.cons_ne_nil _ _),
      List.splitOn_intercalate ' ' (blank_not_mem_sections ho) (List.cons_ne_nil _ _)] at hsplit
  have hdns : join "|".toList s.mDnslist = join "|".toList o.mDnslist ↔ s.mDnslist = o.mDnslist :=
    ⟨fun h => intercalate_inj (fun t ht => ⟨(dns_text hs ht).1, (dns_text hs ht).2.1⟩)
      (fun t ht => ⟨(dns_text ho ht).1, (dns_text ho ht).2.1⟩) h, fun h => by rw [h]⟩
  have hnetworks : ∀ b, s.networks b = o.networks b ↔
      NetworksLook (s.mRoutes.getNetworks b) (s.mRoutesv6.getNetworks b) (o.mRoutes.getNetworks b)
        (o.mRoutesv6.getNetworks b) := fun b =>
    networksText_eq_iff (all4_getNetworks hs b) (all4_getNetworks ho b) (all6_getNetworks hs b)
      (all6_getNetworks ho b)
  have hmtu : decimal s.mMtu = decimal o.mMtu ↔ s.mMtu = o.mMtu :=
    ⟨decimal_inj, fun h => by rw [h]⟩
  rw [hsections]
  simp only [Fields.sections, List.cons.injEq, true_and, and_true, List.append_cancel_right_eq,
    List.append_cancel_left_eq, hdns, hnetworks, hmtu,
    locals_eq_iff hs.localIP ho.localIP hs.localIPv6 ho.localIPv6]
  exact ⟨fun ⟨h1, h2, h3, h4, h5, h6⟩ => ⟨h1, h2, h3, h4, h5, h6⟩,
    fun ⟨h1, h2, h3, h4, h5, h6⟩ => ⟨h1, h2, h3, h4, h5, h6⟩⟩

/-- `openTun` keeps the text of the configuration it gave to the builder. -/
theorem openTun_mLastTunCfg {dev : Device} {env : Env} (h : (o.openTun dev env).exit = none) :
    (o.openTun dev env).fields.mLastTunCfg =
      some (o.withLocalNetworks dev env).1.getTunConfigString := by
  unfold Fields.openTun at h ⊢
  split_ifs at h ⊢ with hcreated hlocal
  rcases hlan : o.withLocalNetworks dev env with ⟨o', _ | e⟩
  · rw [hlan] at h
    rcases hconf : configure dev env o' with ⟨calls, _ | exit⟩
    · simp only [hconf]
      rfl
    · simp [hconf] at h
  · rw [hlan] at h
    simp at h

/-- **`NOACTION` and the confusions.**  `o` are the fields when `openTun` was called, and `s` the
fields when the text that it kept is compared. -/
theorem noAction_same_iff (dev : Device) (env : Env) (o s : Fields)
    (hopen : (o.openTun dev env).exit = none)
    (hlast : s.mLastTunCfg = (o.openTun dev env).fields.mLastTunCfg)
    (ho : (o.withLocalNetworks dev env).1.Valid) (hs : s.Valid) :
    (getTunReopenStatus dev s = .noAction →
        s.tunConfig = (o.withLocalNetworks dev env).1.tunConfig) ↔
      s.tunConfig = (o.withLocalNetworks dev env).1.tunConfig ∨
        ¬ s.tunConfig.LooksLike (o.withLocalNetworks dev env).1.tunConfig := by
  have hstatus : getTunReopenStatus dev s = .noAction ↔
      s.tunConfig.LooksLike (o.withLocalNetworks dev env).1.tunConfig := by
    rw [← getTunConfigString_eq_iff hs ho, getTunReopenStatus, hlast, openTun_mLastTunCfg hopen]
    split_ifs with heq hkitkat
    · exact iff_of_true rfl (Option.some.inj heq)
    · exact iff_of_false (by decide) fun h => heq (congrArg some h)
    · exact iff_of_false (by decide) fun h => heq (congrArg some h)
  rw [hstatus]
  tauto

end

/-! ## A network that moved by a group -/

/-- An Android 9 device. -/
def pie : Device := ⟨28, "9".toList, "google".toList, false, false⟩

/-- The environment of a device without local networks. -/
def noLan : Env := { choices := (0, [0]), choices6 := (0, [0]) }

/-- The interface 10.8.0.2/24 with its own network and the IPv6 network `address/48`. -/
def oneNetwork (address : ℤ) (last : Option Text) : Fields where
  mRoutes := ⟨[⟨0x0a080000, 24, true, true⟩]⟩
  mRoutesv6 := ⟨[⟨address, 48, true, false⟩]⟩
  mLocalIP := some ⟨"10.8.0.2".toList, 24⟩
  mMtu := 1500
  mLastTunCfg := last

theorem oneNetwork_valid {address : ℤ} (h : 0 ≤ address ∧ address < 2 ^ 128) (last : Option Text) :
    (oneNetwork address last).Valid where
  localIP := by
    rintro ip ⟨⟩
    exact ⟨by decide +kernel, by decide, by decide⟩
  localIPv6 := by rintro t ⟨⟩
  routes := by
    intro n hn
    obtain rfl := List.mem_singleton.mp hn
    exact ⟨rfl, by decide, by decide⟩
  routes6 := by
    intro n hn
    obtain rfl := List.mem_singleton.mp hn
    have hmask : (0 : ℤ) ≤ 48 ∧ (48 : ℤ) ≤ 128 := by decide
    exact ⟨rfl, h, hmask⟩
  dns := by simp [oneNetwork]
  domain := by rintro t ⟨⟩

theorem withLocalNetworks_noLan (address : ℤ) (last : Option Text) :
    (oneNetwork address last).withLocalNetworks pie noLan = (oneNetwork address last, none) := rfl

theorem oneNetwork_mLastTunCfg (address : ℤ) (last : Option Text) :
    (oneNetwork address last).mLastTunCfg = last := rfl

theorem oneNetwork_tunConfig (address : ℤ) (last last' : Option Text) :
    (oneNetwork address last).tunConfig = (oneNetwork address last').tunConfig := rfl

/-- 2001:db8::/48 -/
def documentation : ℤ := 0x20010db8 * 2 ^ 96

/-- What `openTun` kept for 2001:db8::/48. -/
def kept : Option Text := ((oneNetwork documentation none).openTun pie noLan).fields.mLastTunCfg

theorem noAction_same_unchanged :
    getTunReopenStatus pie (oneNetwork documentation kept) = .noAction ∧
      (oneNetwork documentation kept).tunConfig =
        ((oneNetwork documentation none).withLocalNetworks pie noLan).1.tunConfig := by
  have hstatus : getTunReopenStatus pie (oneNetwork documentation kept) = .noAction := by
    decide +kernel
  refine ⟨hstatus, (noAction_same_iff pie noLan (oneNetwork documentation none)
    (oneNetwork documentation kept) (by decide +kernel) ?_ ?_ ?_).mpr (.inl ?_) hstatus⟩
  · rw [← kept, oneNetwork_mLastTunCfg]
  · rw [withLocalNetworks_noLan]
    exact oneNetwork_valid (by decide) none
  · exact oneNetwork_valid (by decide) kept
  · rw [withLocalNetworks_noLan, oneNetwork_tunConfig documentation kept none]

/-- 0:2001:db8::/48 is taken for 2001:db8::/48. -/
theorem noAction_moved_network :
    (oneNetwork (documentation / 2 ^ 16) kept).Valid ∧
      getTunReopenStatus pie (oneNetwork (documentation / 2 ^ 16) kept) = .noAction ∧
      (oneNetwork (documentation / 2 ^ 16) kept).tunConfig ≠
        ((oneNetwork documentation none).withLocalNetworks pie noLan).1.tunConfig :=
  ⟨oneNetwork_valid (by decide) kept, by decide +kernel, by decide +kernel⟩

end VpnCore.Tun
