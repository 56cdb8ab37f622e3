import VpnCore.Lib.Numerals
import VpnCore.Lib.Separated
import VpnCore.Ranges.SplitTunnel

/-!
# VpnCore.Ranges.TextForm — sets of ranges as texts

`IPRange.toString` prints a proper subnet as its first address and its prefix, any other range as its two ends;
`IPRangeSet.toString` puts blanks between the ranges.  `IPRange(String)` takes both forms, so a text is read back
range by range, and as the ranges of a set are apart, adding them one after the other merges
nothing.
-/

namespace VpnCore.Ranges

open VpnCore.Lib VpnCore.Config

/-! ## Texts -/

/-- The groups of two bytes. -/
def groups : Bytes → List ℕ
  | hi :: lo :: rest => (hi.toNat * 256 + lo.toNat) :: groups rest
  | _ => []

/-- `getHostAddress`: four octets in decimal, or eight groups in hexadecimal with none left out. -/
def InetAddress.getHostAddress (addr : InetAddress) : Text :=
  match addr.family with
  | .inet => ['.'].intercalate ((addr.bytes.map UInt8.toNat).map (Nat.toDigits 10))
  | .inet6 => [':'].intercalate ((groups addr.bytes).map (Nat.toDigits 16))

/-- `toString` of a range, with nothing for the text that `super.toString` gives an unknown host. -/
def IPRange.toString (range : IPRange) : Option Text := do
  let mFrom ← getByAddress range.mFrom
  match range.determinePrefix with
  | some mPrefix => return mFrom.getHostAddress ++ '/' :: decimal mPrefix
  | none =>
    let mTo ← getByAddress range.mTo
    return mFrom.getHostAddress ++ '-' :: mTo.getHostAddress

/-- The body of the loop in `toString` of a set. -/
def appendText (sb text : Text) : Text := (if 0 < sb.length then sb ++ [' '] else sb) ++ text

def IPRangeSet.toString (mRanges : IPRangeSet) : Option Text :=
  mRanges.foldlM (fun sb range => range.toString.map (appendText sb)) []

/-! ## Texts of addresses -/

section

variable {base : ℕ} {d : Char} {ns ms : List ℕ}

theorem numerals_ne_nil (hns : ns ≠ []) : [d].intercalate (ns.map (Nat.toDigits base)) ≠ [] := by
  obtain ⟨n, hn⟩ := List.exists_mem_of_ne_nil ns hns
  obtain ⟨c, hc⟩ := List.exists_mem_of_ne_nil _ (Nat.toDigits_ne_nil (b := base) (n := n))
  exact List.ne_nil_of_mem (mem_intercalate_of_mem (List.mem_map_of_mem hn) hc)

theorem separator_mem_numerals (hns : 2 ≤ ns.length) : d ∈ [d].intercalate (ns.map (Nat.toDigits base)) := by
  rcases ns with _ | ⟨n, _ | ⟨m, ns⟩⟩
  · simp at hns
  · simp at hns
  · rw [List.map_cons, intercalate_cons (by simp)]
    simp

theorem mem_numerals (hb : 1 < base) {c : Char} (hc : c ∈ [d].intercalate (ns.map (Nat.toDigits base))) :
    c = d ∨ ∃ k < base, c = Nat.digitChar k := by
  rcases mem_intercalate hc with rfl | ⟨t, ht, hc⟩
  · exact .inl rfl
  · obtain ⟨n, -, rfl⟩ := List.mem_map.mp ht
    exact .inr (exists_of_mem_toDigits hb hc)

theorem numerals_inj (hb : 1 < base) (hb' : base ≤ 16) (hd : ∀ k < 16, Nat.digitChar k ≠ d)
    (h : [d].intercalate (ns.map (Nat.toDigits base)) = [d].intercalate (ms.map (Nat.toDigits base))) :
    ns = ms := by
  have hparts : ∀ ns : List ℕ, ∀ t ∈ ns.map (Nat.toDigits base), t ≠ [] ∧ d ∉ t := by
    intro ns t ht
    obtain ⟨n, -, rfl⟩ := List.mem_map.mp ht
    refine ⟨Nat.toDigits_ne_nil, fun hc => ?_⟩
    obtain ⟨k, hk, heq⟩ := exists_of_mem_toDigits hb hc
    exact hd k (by omega) heq.symm
  have hinj : Function.Injective (Nat.toDigits base) := fun _ _ => toDigits_inj hb hb'
  exact List.map_injective_iff.mpr hinj (intercalate_inj (hparts ns) (hparts ms) h)

end

theorem groups_ne_nil {a : Bytes} (h : 2 ≤ a.length) : groups a ≠ [] := by
  rcases a with _ | ⟨x, _ | ⟨y, rest⟩⟩
  · simp at h
  · simp at h
  · simp [groups]

theorem groups_inj : ∀ {a b : Bytes}, a.length = b.length → 2 ∣ a.length → groups a = groups b → a = b
  | [], b, hlen, _, _ => (List.length_eq_zero_iff.mp hlen.symm).symm
  | [_], _, _, heven, _ => absurd heven (by simp)
  | _ :: _ :: _, [], hlen, _, _ => by simp at hlen
  | _ :: _ :: _, [_], hlen, _, _ => by simp at hlen
  | x :: y :: a, x' :: y' :: b, hlen, heven, h => by
    simp only [List.length_cons] at hlen heven
    rw [groups, groups, List.cons.injEq] at h
    have hy := y.toNat_lt
    have hy' := y'.toNat_lt
    obtain rfl : a = b := groups_inj (by omega) (by omega) h.2
    obtain rfl : x = x' := UInt8.toNat_inj.mp (by omega)
    obtain rfl : y = y' := UInt8.toNat_inj.mp (by omega)
    rfl

/-- The pattern of `IPRange(String)` takes the text of an address. -/
theorem looksLikeAddress_getHostAddress (addr : InetAddress) :
    looksLikeAddress addr.getHostAddress = true := by
  have hlen := addr.length_eq
  have hdigit : ∀ k < 10, isDigit (Nat.digitChar k) = true := by decide
  have hhex : ∀ k < 16, isHex (Nat.digitChar k) = true := by decide
  rw [looksLikeAddress, Bool.and_eq_true, Bool.not_eq_true', List.isEmpty_eq_false_iff, Bool.or_eq_true,
    List.all_eq_true, List.all_eq_true, InetAddress.getHostAddress]
  cases hf : addr.family with
  | inet =>
    rw [hf] at hlen
    have hne : addr.bytes.map UInt8.toNat ≠ [] := by
      rw [← List.length_pos_iff, List.length_map, hlen]
      decide
    refine ⟨numerals_ne_nil hne, .inl fun c hc => ?_⟩
    rcases mem_numerals (by decide) hc with rfl | ⟨k, hk, rfl⟩
    · rfl
    · rw [hdigit k hk, Bool.true_or]
  | inet6 =>
    rw [hf] at hlen
    refine ⟨numerals_ne_nil (groups_ne_nil (by rw [hlen]; decide)), .inr fun c hc => ?_⟩
    rcases mem_numerals (by decide) hc with rfl | ⟨k, hk, rfl⟩
    · rfl
    · rw [hhex k hk, Bool.true_or]

/-- What the pattern takes for an address has none of the separators. -/
theorem looksLikeAddress_not_mem {s : Text} (h : looksLikeAddress s = true) {c : Char}
    (hc : (isHex c || c == ':' || c == '.') = false) : c ∉ s := by
  simp only [looksLikeAddress, Bool.and_eq_true, Bool.or_eq_true, List.all_eq_true] at h
  simp only [Bool.or_eq_false_iff, beq_eq_false_iff_ne] at hc
  intro hm
  rcases h.2 with hall | hall
  · have hdigit : isDigit c = false := by
      have hhex := hc.1.1
      rw [isHex, Bool.or_eq_false_iff, Bool.or_eq_false_iff] at hhex
      exact hhex.1.1
    rcases hall c hm with h' | h'
    · rw [hdigit] at h'
      cases h'
    · exact hc.2 (beq_iff_eq.mp h')
  · rcases hall c hm with h' | h'
    · rw [hc.1.1] at h'
      cases h'
    · exact hc.1.2 (beq_iff_eq.mp h')

/-- Only the text of an IPv4 address has a dot. -/
theorem dot_mem_getHostAddress (addr : InetAddress) : '.' ∈ addr.getHostAddress ↔ addr.family = .inet := by
  have hlen := addr.length_eq
  have hdigit : ∀ k < 16, Nat.digitChar k ≠ '.' := by decide
  rw [InetAddress.getHostAddress]
  cases hf : addr.family with
  | inet =>
    rw [hf] at hlen
    refine iff_of_true (separator_mem_numerals ?_) rfl
    rw [List.length_map, hlen]
    decide
  | inet6 =>
    refine iff_of_false (fun hm => ?_) (by simp)
    rcases mem_numerals (by decide) hm with h | ⟨k, hk, h⟩
    · exact absurd h (by decide)
    · exact hdigit k hk h.symm

/-- An address is determined by its text. -/
theorem getHostAddress_injective : Function.Injective InetAddress.getHostAddress := by
  intro a b h
  have hfamily : a.family = b.family := by
    have hdot := dot_mem_getHostAddress a
    rw [h, dot_mem_getHostAddress] at hdot
    cases ha : a.family <;> cases hb : b.family <;> simp_all
  have hlen : a.bytes.length = b.bytes.length := by rw [a.length_eq, b.length_eq, hfamily]
  have hbytes : a.bytes = b.bytes := by
    rw [InetAddress.getHostAddress, InetAddress.getHostAddress, ← hfamily] at h
    cases hf : a.family with
    | inet =>
      rw [hf] at h
      have hinj : Function.Injective UInt8.toNat := fun _ _ => UInt8.toNat_inj.mp
      exact List.map_injective_iff.mpr hinj (numerals_inj (by decide) (by decide) (by decide) h)
    | inet6 =>
      rw [hf] at h
      refine groups_inj hlen ?_ (numerals_inj (by decide) (by decide) (by decide) h)
      rw [a.length_eq, hf]
      decide
  cases a
  cases b
  exact InetAddress.mk.injEq .. ▸ hbytes

/-! ## One range -/

section

variable {getByName : Text → Option InetAddress}

/-- The pattern finds the end of an address. -/
theorem looksLikeRange_append {s : Text} (hs : looksLikeAddress s = true) {c : Char} (rest : Text)
    (hc : (c != '-' && c != '/') = false) :
    looksLikeRange (s ++ c :: rest) =
      match c :: rest with
      | '-' :: rest => looksLikeAddress rest
      | _ => !rest.isEmpty && rest.all isDigit := by
  have hstop : ∀ c ∈ s, (c != '-' && c != '/') = true := by
    intro c hm
    simp only [Bool.and_eq_true, bne_iff_ne]
    exact ⟨fun h => looksLikeAddress_not_mem hs (c := '-') rfl (h ▸ hm),
      fun h => looksLikeAddress_not_mem hs (c := '/') rfl (h ▸ hm)⟩
  rw [looksLikeRange, List.takeWhile_append_of_pos hstop, List.dropWhile_append_of_pos hstop,
    List.takeWhile_cons_of_neg (by simp [hc]), List.dropWhile_cons_of_neg (by simp [hc]), List.append_nil,
    hs, Bool.true_and]
  by_cases hm : c = '-'
  · subst hm
    rfl
  · split
    · next h => exact absurd h (List.cons_ne_nil _ _)
    · next h => exact absurd (List.cons.inj h).1 hm
    · next h =>
      obtain ⟨rfl, rfl⟩ := List.cons.inj h
      split
      · next h => exact absurd (List.cons.inj h).1 hm
      · rfl

/-- A subnet is read from its first address and its prefix. -/
theorem ofText_subnet {s : Text} {addr : InetAddress} {bits : ℕ} (hs : looksLikeAddress s = true)
    (hname : getByName s = some addr) (hbits : bits < 2 ^ 31) :
    IPRange.ofText getByName (s ++ '/' :: decimal bits) =
      IPRange.initializeFromCIDR addr.bytes bits := by
  have hdecimal : decimal bits = Nat.toDigits 10 bits := by simp [decimal]
  have hdigits : ∀ c ∈ decimal bits, isDigit c = true := fun c hc =>
    isDigit_of_mem_toDigits (hdecimal ▸ hc)
  have hne : decimal bits ≠ [] := hdecimal ▸ Nat.toDigits_ne_nil
  have hlooks : looksLikeRange (s ++ '/' :: decimal bits) = true := by
    rw [looksLikeRange_append hs _ rfl]
    simpa [hne] using hdigits
  have hnone : (s ++ '/' :: decimal bits).contains '-' = false := by
    simp only [List.contains_eq_mem, decide_eq_false_iff_not, List.mem_append, List.mem_cons, not_or]
    exact ⟨looksLikeAddress_not_mem hs rfl, by decide, fun hm => absurd (hdigits _ hm) (by decide)⟩
  have hsplit : split '/' (s ++ '/' :: decimal bits) = [s, decimal bits] :=
    split_pair (looksLikeAddress_not_mem hs rfl) (fun hm => absurd (hdigits _ hm) (by decide)) hne
  have hparse : parseInt (decimal bits) = .ok (bits : ℤ) :=
    parseNumber_decimal (by omega) (by omega)
  rw [IPRange.ofText, hlooks, hnone, hsplit]
  simp [hname, hparse, Except.toOption]

/-- A range is read from its ends. -/
theorem ofText_ends {s t : Text} {fa ta : InetAddress} (hs : looksLikeAddress s = true)
    (ht : looksLikeAddress t = true) (hfrom : getByName s = some fa) (hto : getByName t = some ta) :
    IPRange.ofText getByName (s ++ '-' :: t) = IPRange.initializeFromRange fa.bytes ta.bytes := by
  have hne : t ≠ [] := by
    rintro rfl
    cases ht
  have hlooks : looksLikeRange (s ++ '-' :: t) = true := by
    rw [looksLikeRange_append hs _ rfl]
    exact ht
  have hsplit : split '-' (s ++ '-' :: t) = [s, t] :=
    split_pair (looksLikeAddress_not_mem hs rfl) (looksLikeAddress_not_mem ht rfl) hne
  rw [IPRange.ofText, hlooks, hsplit]
  simp [hfrom, hto]

/-- A proper subnet is the range of its first address and its prefix. -/
theorem initializeFromCIDR_determinePrefix {r : IPRange} {p : ℕ} (hr : r.Valid)
    (hp : r.determinePrefix = some p) : IPRange.initializeFromCIDR r.mFrom p = some r := by
  obtain ⟨hle, hdvd, hlast⟩ := (IPRange.determinePrefix_eq_some hr).mp hp
  obtain ⟨s, hs, hblock⟩ := IPRange.initializeFromCIDR_eq r.mFrom hr.family hle
  have hfirst := hblock.first
  have hlast' := hblock.last
  rw [clearLow_of_dvd hdvd] at hfirst hlast'
  rw [hs, Option.some.injEq, IPRange.mk.injEq, ← value_eq_iff hblock.length_from,
    ← value_eq_iff (hblock.length_to.trans hr.length)]
  exact ⟨hfirst, Nat.succ.inj (hlast'.trans hlast.symm)⟩

/-- The ends of a range are taken as they are. -/
theorem initializeFromRange_ends {r : IPRange} (hr : r.Valid) :
    IPRange.initializeFromRange r.mFrom r.mTo = some r := by
  rw [IPRange.initializeFromRange, if_neg (not_not.mpr hr.length)]
  split_ifs with hlt
  · rfl
  · rw [compareAddr_lt, not_lt] at hlt
    obtain heq := key_injective (le_antisymm hr.le hlt)
    rw [Option.some.injEq, IPRange.mk.injEq]
    exact ⟨heq.symm, heq⟩

theorem isHex_of_isWhitespace {c : Char} (h : isWhitespace c = true) :
    (isHex c || c == ':' || c == '.') = false := by
  have hmem : c ∈ [' ', '\t', '\n', '\x0b', '\x0c', '\r'] := of_decide_eq_true h
  simp only [List.mem_cons, List.not_mem_nil, or_false] at hmem
  rcases hmem with rfl | rfl | rfl | rfl | rfl | rfl <;> rfl

/-- Addresses, numbers and the separators have no whitespace. -/
theorem isWhitespace_of_mem {s : Text} (hs : looksLikeAddress s = true) {c : Char} (hc : c ∈ s) :
    isWhitespace c = false := by
  by_contra hw
  exact looksLikeAddress_not_mem hs (isHex_of_isWhitespace (Bool.eq_true_of_not_eq_false hw)) hc

theorem looksLikeAddress_decimal (n : ℕ) : looksLikeAddress (decimal n) = true := by
  have hdecimal : decimal n = Nat.toDigits 10 n := by simp [decimal]
  rw [hdecimal, looksLikeAddress, Bool.and_eq_true, Bool.not_eq_true', List.isEmpty_eq_false_iff,
    Bool.or_eq_true, List.all_eq_true]
  exact ⟨Nat.toDigits_ne_nil, .inl fun c hc => by rw [isDigit_of_mem_toDigits hc, Bool.true_or]⟩

/-- **The text of a range** has no whitespace and gives the range. -/
theorem ofText_toString {r : IPRange}
    (hinv : ∀ addr : InetAddress, getByName addr.getHostAddress = some addr) (hr : r.Valid)
    (hfrom : isIPv4Mapped r.mFrom = false) (hto : isIPv4Mapped r.mTo = false) :
    ∃ text, r.toString = some text ∧ IPRange.ofText getByName text = some r ∧ text ≠ [] ∧
      ∀ c ∈ text, isWhitespace c = false := by
  obtain ⟨fa, hfa, -, hfb⟩ := getByAddress_eq hr.family
  obtain ⟨ta, hta, -, htb⟩ := getByAddress_eq (hr.length ▸ hr.family)
  have hs := looksLikeAddress_getHostAddress fa
  have ht := looksLikeAddress_getHostAddress ta
  have hblank : ∀ {s t : Text} {d : Char}, looksLikeAddress s = true → looksLikeAddress t = true →
      isWhitespace d = false → ∀ c ∈ s ++ d :: t, isWhitespace c = false := by
    intro s t d hs ht hd c hc
    rcases List.mem_append.mp hc with hc | hc
    · exact isWhitespace_of_mem hs hc
    · rcases List.mem_cons.mp hc with rfl | hc
      · exact hd
      · exact isWhitespace_of_mem ht hc
  cases hp : r.determinePrefix with
  | some p =>
    obtain ⟨hle, -⟩ := (IPRange.determinePrefix_eq_some hr).mp hp
    have hsmall : p < 2 ^ 31 := by
      rcases hr.family with h | h <;> omega
    refine ⟨fa.getHostAddress ++ '/' :: decimal p, by simp [IPRange.toString, hfa, hp], ?_, by simp,
      hblank hs (looksLikeAddress_decimal p) rfl⟩
    rw [ofText_subnet hs (hinv fa) hsmall, hfb hfrom, initializeFromCIDR_determinePrefix hr hp]
  | none =>
    refine ⟨fa.getHostAddress ++ '-' :: ta.getHostAddress, by simp [IPRange.toString, hfa, hp, hta], ?_,
      by simp, hblank hs ht rfl⟩
    rw [ofText_ends hs ht (hinv fa) (hinv ta), hfb hfrom, htb hto, initializeFromRange_ends hr]

end

/-! ## Sets -/

/-- Texts with blanks between them. -/
theorem foldl_appendText {texts : List Text} (h : ∀ t ∈ texts, t ≠ []) :
    texts.foldl appendText [] = [' '].intercalate texts := by
  have hloop : ∀ (texts : List Text) (sb : Text), sb ≠ [] →
      texts.foldl appendText sb = [' '].intercalate (sb :: texts) := by
    intro texts
    induction texts with
    | nil => exact fun sb _ => (List.intercalate_singleton ..).symm
    | cons t texts ih =>
      intro sb hsb
      have happend : appendText sb t = sb ++ ' ' :: t := by
        rw [appendText, if_pos (List.length_pos_iff.mpr hsb), List.append_assoc, List.singleton_append]
      rw [List.foldl_cons, happend, ih _ (by simp), intercalate_cons (List.cons_ne_nil t texts)]
      cases texts with
      | nil => simp
      | cons u texts => simp
  cases texts with
  | nil => rfl
  | cons t texts => exact hloop texts t (h t List.mem_cons_self)

theorem partsBetween_free : ∀ {t : Text}, (∀ c ∈ t, isWhitespace c = false) → partsBetween t = [t]
  | [], _ => rfl
  | c :: t, h => by
    rw [List.forall_mem_cons] at h
    rw [partsBetween, h.1, partsBetween_free h.2]
    rfl

theorem partsBetween_append {rest : Text} (hrest : (rest.head?.map isWhitespace).getD false = false) :
    ∀ {t : Text}, (∀ c ∈ t, isWhitespace c = false) →
      partsBetween (t ++ ' ' :: rest) = t :: partsBetween rest
  | [], _ => by
    rw [List.nil_append, partsBetween, hrest]
    rfl
  | c :: t, h => by
    rw [List.forall_mem_cons] at h
    rw [List.cons_append, partsBetween, h.1, partsBetween_append hrest h.2]
    rfl

/-- The parts of joined texts. -/
theorem partsBetween_intercalate {t : Text} {texts : List Text} (hne : ∀ u ∈ texts, u ≠ [])
    (h : ∀ u ∈ t :: texts, ∀ c ∈ u, isWhitespace c = false) :
    partsBetween ([' '].intercalate (t :: texts)) = t :: texts := by
  induction texts generalizing t with
  | nil =>
    rw [List.intercalate_singleton]
    exact partsBetween_free (h t List.mem_cons_self)
  | cons u texts ih =>
    rw [List.forall_mem_cons] at hne h
    have hhead : (([' '].intercalate (u :: texts)).head?.map isWhitespace).getD false = false := by
      obtain ⟨c, u, rfl⟩ := List.exists_cons_of_ne_nil hne.1
      have hc : isWhitespace c = false := h.2 _ List.mem_cons_self c List.mem_cons_self
      cases texts with
      | nil => exact hc
      | cons v texts =>
        rw [intercalate_cons (List.cons_ne_nil v texts)]
        exact hc
    rw [intercalate_cons (List.cons_ne_nil u texts), partsBetween_append hhead h.1, ih hne.2 h.2]

theorem splitWhitespace_intercalate {texts : List Text} (hsome : texts ≠ []) (hne : ∀ t ∈ texts, t ≠ [])
    (h : ∀ t ∈ texts, ∀ c ∈ t, isWhitespace c = false) :
    splitWhitespace ([' '].intercalate texts) = texts := by
  obtain ⟨t, texts, rfl⟩ := List.exists_cons_of_ne_nil hsome
  have hparts := partsBetween_intercalate (List.forall_mem_cons.mp hne).2 h
  have hlast : (t :: texts).rdropWhile List.isEmpty = t :: texts := by
    rw [List.rdropWhile_eq_self_iff]
    intro hl hempty
    exact hne _ (List.getLast_mem hl) (List.isEmpty_iff.mp hempty)
  rw [splitWhitespace]
  split_ifs with hany
  · rw [hparts, hlast]
  · -- without whitespace there is one text
    cases texts with
    | nil => rw [List.intercalate_singleton]
    | cons u texts =>
      refine absurd ?_ hany
      rw [intercalate_cons (List.cons_ne_nil u texts)]
      simp [isWhitespace]

namespace IPRangeSet

/-- Adding the ranges of a set to an empty one gives the set. -/
theorem Good.addAll_nil {l : IPRangeSet} (h : Good l) : IPRangeSet.addAll [] l = l := by
  have hadd := Represents.nil.addAll h.valid
  exact hadd.1.eq_of_covered h (by rw [hadd.2, Set.empty_union])

variable {getByName : Text → Option InetAddress}

/-- **A canonical set** is read back from its text. -/
theorem Good.read_text {l : IPRangeSet} (h : Good l) (hne : l ≠ [])
    (hinv : ∀ addr : InetAddress, getByName addr.getHostAddress = some addr)
    (hmapped : ∀ r ∈ l, isIPv4Mapped r.mFrom = false ∧ isIPv4Mapped r.mTo = false) :
    ∃ text, l.toString = some text ∧ fromString getByName (some text) = some l := by
  choose! f hf using fun r (hr : r ∈ l) =>
    ofText_toString hinv (h.valid r hr) (hmapped r hr).1 (hmapped r hr).2
  have htexts : ∀ (l' : List IPRange) (sb : Text), (∀ r ∈ l', r ∈ l) →
      l'.foldlM (fun sb range => range.toString.map (appendText sb)) sb =
        some ((l'.map f).foldl appendText sb) := by
    intro l'
    induction l' with
    | nil => exact fun sb _ => rfl
    | cons r l' ih =>
      intro sb hsub
      rw [List.forall_mem_cons] at hsub
      rw [List.foldlM_cons, (hf r hsub.1).1]
      exact ih _ hsub.2
  have hread : ∀ (l' : List IPRange) (set : IPRangeSet), (∀ r ∈ l', r ∈ l) →
      (l'.map f).foldlM (fun set range => (IPRange.ofText getByName range).map set.add) set =
        some (IPRangeSet.addAll set l') := by
    intro l'
    induction l' with
    | nil => exact fun set _ => rfl
    | cons r l' ih =>
      intro set hsub
      rw [List.forall_mem_cons] at hsub
      rw [List.map_cons, List.foldlM_cons, (hf r hsub.1).2.1]
      exact ih _ hsub.2
  have hnonempty : ∀ t ∈ l.map f, t ≠ [] := List.forall_mem_map.mpr fun r hr => (hf r hr).2.2.1
  have hblank : ∀ t ∈ l.map f, ∀ c ∈ t, isWhitespace c = false :=
    List.forall_mem_map.mpr fun r hr => (hf r hr).2.2.2
  refine ⟨_, htexts l [] fun _ hr => hr, ?_⟩
  rw [fromString, foldl_appendText hnonempty,
    splitWhitespace_intercalate (by simpa using hne) hnonempty hblank, hread l [] fun _ hr => hr,
    h.addAll_nil]

/-- **Sets survive their text form**: every set that operations can build is read back, unless it is
empty or has an end that is an IPv4-mapped address. -/
theorem fromString_toString (hinv : ∀ addr : InetAddress, getByName addr.getHostAddress = some addr)
    (ops : List Op) (i : ℕ) (hne : run step (fun _ => []) ops i ≠ [])
    (hmapped : ∀ r ∈ run step (fun _ => []) ops i, isIPv4Mapped r.mFrom = false ∧ isIPv4Mapped r.mTo = false) :
    ∃ text, toString (run step (fun _ => []) ops i) = some text ∧
      fromString getByName (some text) = some (run step (fun _ => []) ops i) :=
  (represents_run ops i).1.read_text hne hinv hmapped

/-- A subnet, and a range that is none. -/
def subnetAndRange : List Op :=
  [.add 0 ⟨⟨[10, 0, 0, 0], [10, 255, 255, 255]⟩, rfl, .inl rfl, by decide⟩,
    .add 0 ⟨⟨[192, 168, 1, 1], [192, 168, 1, 10]⟩, rfl, .inl rfl, by decide⟩]

theorem fromString_toString_subnetAndRange :
    ∃ text, toString (run step (fun _ => []) subnetAndRange 0) = some text ∧
      fromString (Function.partialInv InetAddress.getHostAddress) (some text) =
        some (run step (fun _ => []) subnetAndRange 0) := by
  have hset : run step (fun _ => []) subnetAndRange 0 =
      [⟨[10, 0, 0, 0], [10, 255, 255, 255]⟩, ⟨[192, 168, 1, 1], [192, 168, 1, 10]⟩] := by
    have hadd : ∀ {l : IPRangeSet} {r : IPRange}, (l.any fun s => r.compareTo s = .eq) = false →
        mergeFirst r l = none → IPRangeSet.add l r = treeAdd IPRange.compareTo l r := by
      intro l r hany hnone
      rw [IPRangeSet.add, hany, if_neg Bool.false_ne_true, reinsert]
      split
      · rfl
      · next hsome => simp [hnone] at hsome
    rw [subnetAndRange, run_cons, run_cons, run_nil, step, Function.update_self, step, Function.update_self,
      hadd (l := []) rfl rfl]
    exact (hadd (by decide) (by decide)).trans (by decide)
  refine fromString_toString (Function.partialInv_left getHostAddress_injective) _ _ ?_ ?_
  · rw [hset]
    simp
  · rw [hset]
    decide

end IPRangeSet

end VpnCore.Ranges
