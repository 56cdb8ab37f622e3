import VpnCore.Lib.Runs
import VpnCore.Lib.Separated

/-!
# VpnCore.Dns.Proxy — which DNS queries bypass the tunnel

`android_dns_proxy` sends a DNS query outside of the tunnel if its name is one of the allowed
hostnames.  `extract_hostname` reads the name loosely: it copies the bytes behind the first length
byte up to a zero byte, and walks from length byte to length byte to write dots over them.  No
length byte is checked, the last label may end before its length says so, and the name may end with
the packet.  `Spells` says which text a question gives this way, and `bypass_iff` that only such
questions get past the check without being a query for an allowed hostname.
-/

namespace VpnCore.Dns

open VpnCore.Lib

abbrev Bytes := List UInt8

/-! ## The check -/

/-- `'.'` -/
def dot : UInt8 := 0x2e

/-- `chunk_skip` -/
def chunkSkip (chunk : Bytes) (bytes : ℕ) : Bytes :=
  if bytes < chunk.length then chunk.drop bytes else []

/-- `strndup` -/
def strndup (ptr : Bytes) (n : ℕ) : Bytes := (ptr.take n).takeWhile (· != 0)

/-- The loop of `extract_hostname`.  `pos` grows in every round, so that it ends within as many
rounds as there are bytes. -/
def dotLoop : ℕ → Bytes → ℕ → Bytes
  | 0, hostname, _ => hostname
  | fuel + 1, hostname, pos =>
    match hostname[pos]? with
    | some label => dotLoop fuel (hostname.set pos dot) (pos + 1 + label.toNat)
    | none => hostname

/-- The name that a query asks for. -/
def extractHostname (data : Bytes) : Option Bytes :=
  match data with
  | [] => none
  | label :: _ =>
    if 255 < data.length then none
    else
      let data := chunkSkip data 1
      let hostname := strndup data data.length
      some (dotLoop hostname.length hostname label.toNat)

def byteAt (data : Bytes) (i : ℕ) : ℕ := (data[i]?.getD 0).toNat

/-- `sizeof(dns_header_t)` -/
def headerLength : ℕ := 12

/-- `ntohs(dns->flags)` -/
def flags (data : Bytes) : ℕ := byteAt data 2 * 256 + byteAt data 3

/-- `DNS_QR_MASK` -/
def qrMask : ℕ := 0x8000

/-- `DNS_OPCODE_MASK` -/
def opcodeMask : ℕ := 0x7800

/-- `dns->qdcount` -/
def qdcount (data : Bytes) : ℕ := byteAt data 4 * 256 + byteAt data 5

/-- The query is for one of the names. -/
def checkHostname (hostnames : List Bytes) (data : Bytes) : Bool :=
  if hostnames.isEmpty then true
  else if data.length < headerLength then false
  else if flags data &&& qrMask = 0 ∧ flags data &&& opcodeMask = 0 ∧ qdcount data ≠ 0 then
    match extractHostname (chunkSkip data headerLength) with
    | some hostname => hostnames.contains hostname
    | none => false
  else false

/-! ## Names as RFC 1035 has them -/

/-- The bytes begin with a name of these labels. -/
inductive QName : Bytes → List Bytes → Prop
  | root (rest : Bytes) : QName (0 :: rest) []
  | label {l bs : Bytes} {ls : List Bytes} (h : 1 ≤ l.length ∧ l.length ≤ 63) (hbs : QName bs ls) :
    QName (UInt8.ofNat l.length :: (l ++ bs)) (l :: ls)

/-- The labels with dots between them. -/
def dotted (labels : List Bytes) : Bytes := [dot].intercalate labels

/-- Labels without dots and zero bytes, with dots between them. -/
def IsHostname (h : Bytes) : Prop :=
  ∃ labels : List Bytes, labels ≠ [] ∧
    (∀ l ∈ labels, (1 ≤ l.length ∧ l.length ≤ 63) ∧ dot ∉ l ∧ 0 ∉ l) ∧ h = dotted labels

/-- The header is that of a standard query with a question: `QR` is the highest bit of the third
byte, and `OPCODE` the four bits below it. -/
structure StandardQuery (data : Bytes) : Prop where
  header : headerLength ≤ data.length
  qr : byteAt data 2 / 128 = 0
  opcode : byteAt data 2 / 8 % 16 = 0
  question : 1 ≤ qdcount data

/-- A query for one of the hostnames. -/
structure AllowedQuery (hostnames : List Bytes) (data : Bytes) : Prop extends StandardQuery data where
  name : ∃ labels, QName (data.drop headerLength) labels ∧ dotted labels ∈ hostnames

/-! ## Names as they are read -/

/-- The text that the bytes give when the next length byte comes after `n` of them: the length bytes
become dots, and the last label takes what is left. -/
inductive Spells : ℕ → Bytes → Bytes → Prop
  | last {n : ℕ} {bytes : Bytes} (h : bytes.length ≤ n) : Spells n bytes bytes
  | dot {label : Bytes} {n : UInt8} {bytes text : Bytes} (h : Spells n.toNat bytes text) :
    Spells label.length (label ++ n :: bytes) (label ++ dot :: text)

/-- The bytes up to the first zero byte spell the hostname. -/
def SpellsName (question hostname : Bytes) : Prop :=
  ∃ n rest, question = n :: rest ∧ Spells n.toNat (rest.takeWhile (· != 0)) hostname

/-- The bytes begin with a name whose labels have no zero byte in them. -/
def WellFormed (question : Bytes) : Prop := ∃ labels, QName question labels ∧ ∀ l ∈ labels, 0 ∉ l

/-- A question that is no name spells one of the hostnames. -/
structure LooselyRead (hostnames : List Bytes) (data : Bytes) : Prop extends StandardQuery data where
  short : (data.drop headerLength).length ≤ 255
  spells : ∃ h ∈ hostnames, SpellsName (data.drop headerLength) h
  malformed : ¬ WellFormed (data.drop headerLength)

/-! ## What is extracted -/

theorem chunkSkip_eq (chunk : Bytes) (n : ℕ) : chunkSkip chunk n = chunk.drop n := by
  unfold chunkSkip
  split_ifs with h
  · rfl
  · exact (List.drop_eq_nil_of_le (by omega)).symm

/-- Every question spells a text. -/
theorem exists_spells (n : ℕ) (bytes : Bytes) : ∃ text, Spells n bytes text := by
  induction hk : bytes.length using Nat.strongRecOn generalizing n bytes with
  | ind k ih =>
    by_cases hn : bytes.length ≤ n
    · exact ⟨bytes, .last hn⟩
    · have hlt : n < bytes.length := by omega
      obtain ⟨text, htext⟩ := ih (bytes.drop (n + 1)).length
        (by rw [List.length_drop]; omega) bytes[n].toNat (bytes.drop (n + 1)) rfl
      have hsplit : bytes = bytes.take n ++ bytes[n] :: bytes.drop (n + 1) := by
        rw [List.getElem_cons_drop, List.take_append_drop]
      have hlen : (bytes.take n).length = n := List.length_take_of_le hlt.le
      have hspells : Spells (bytes.take n).length (bytes.take n ++ bytes[n] :: bytes.drop (n + 1))
          (bytes.take n ++ dot :: text) := .dot htext
      rw [hlen, ← hsplit] at hspells
      exact ⟨_, hspells⟩

/-- It is the text that the loop makes. -/
theorem Spells.dotLoop {n : ℕ} {bytes text : Bytes} (h : Spells n bytes text) :
    ∀ (a : Bytes) {fuel : ℕ}, bytes.length ≤ fuel →
      dotLoop fuel (a ++ bytes) (a.length + n) = a ++ text := by
  induction h with
  | @last n bytes h =>
    intro a fuel _
    cases fuel with
    | zero => rfl
    | succ fuel =>
      have hnone : (a ++ bytes)[a.length + n]? = none := by
        rw [List.getElem?_eq_none_iff, List.length_append]
        omega
      rw [Dns.dotLoop, hnone]
  | @dot label n bytes text _ ih =>
    intro a fuel hfuel
    rw [List.length_append, List.length_cons] at hfuel
    cases fuel with
    | zero => omega
    | succ fuel =>
      have hsome : (a ++ (label ++ n :: bytes))[a.length + label.length]? = some n := by
        rw [← List.append_assoc, ← List.length_append, List.getElem?_append_right le_rfl,
          Nat.sub_self, List.getElem?_cons_zero]
      have hset : (a ++ (label ++ n :: bytes)).set (a.length + label.length) Dns.dot =
          (a ++ label ++ [Dns.dot]) ++ bytes := by
        rw [← List.append_assoc, ← List.length_append, List.set_append_right _ _ le_rfl,
          Nat.sub_self, List.set_cons_zero, List.append_assoc _ [Dns.dot], List.singleton_append]
      have hpos : a.length + label.length + 1 + n.toNat =
          (a ++ label ++ [Dns.dot]).length + n.toNat := by
        rw [List.length_append, List.length_append, List.length_singleton]
      simp only [Dns.dotLoop, hsome, hset, hpos]
      rw [ih (a ++ label ++ [Dns.dot]) (by omega)]
      simp

theorem extractHostname_eq_some_iff {data h : Bytes} :
    extractHostname data = some h ↔ data.length ≤ 255 ∧ SpellsName data h := by
  cases data with
  | nil =>
    simp [extractHostname, SpellsName]
  | cons n rest =>
    have hdup : strndup (chunkSkip (n :: rest) 1) (chunkSkip (n :: rest) 1).length =
        rest.takeWhile (· != 0) := by
      rw [chunkSkip_eq, List.drop_one, List.tail_cons, strndup, List.take_length]
    have hloop : ∀ {text : Bytes}, Spells n.toNat (rest.takeWhile (· != 0)) text →
        dotLoop (rest.takeWhile (· != 0)).length (rest.takeWhile (· != 0)) n.toNat = text := by
      intro text htext
      simpa using htext.dotLoop [] le_rfl
    unfold extractHostname SpellsName
    simp only [hdup, List.cons.injEq]
    by_cases hlong : 255 < (n :: rest).length
    · rw [if_pos hlong]
      exact iff_of_false (by simp) fun h => hlong.not_ge h.1
    · rw [if_neg hlong, Option.some_inj]
      constructor
      · intro heq
        obtain ⟨text, htext⟩ := exists_spells n.toNat (rest.takeWhile (· != 0))
        rw [hloop htext] at heq
        exact ⟨Nat.le_of_not_lt hlong, n, rest, ⟨rfl, rfl⟩, heq ▸ htext⟩
      · rintro ⟨-, n', rest', ⟨rfl, rfl⟩, htext⟩
        exact hloop htext

/-- A question spells one text. -/
theorem SpellsName.unique {q h h' : Bytes} (hq : SpellsName q h) (hq' : SpellsName q h') : h = h' := by
  obtain ⟨n, rest, rfl, hs⟩ := hq
  obtain ⟨n', rest', heq, hs'⟩ := hq'
  obtain ⟨rfl, rfl⟩ := List.cons.inj heq
  have h1 := hs.dotLoop [] le_rfl
  have h2 := hs'.dotLoop [] le_rfl
  exact List.append_cancel_left (h1.symm.trans h2)

/-! ## Names that are read as they are -/

theorem toNat_labelLength {l : Bytes} (h : l.length ≤ 63) : (UInt8.ofNat l.length).toNat = l.length := by
  rw [UInt8.toNat_ofNat']
  omega

theorem labelLength_ne_zero {l : Bytes} (h : 1 ≤ l.length ∧ l.length ≤ 63) :
    UInt8.ofNat l.length ≠ 0 := by
  intro h0
  have := congrArg UInt8.toNat h0
  rw [toNat_labelLength h.2, UInt8.toNat_zero] at this
  omega

theorem takeWhile_label {l bs : Bytes} (h : 0 ∉ l) :
    (l ++ bs).takeWhile (· != 0) = l ++ bs.takeWhile (· != 0) :=
  List.takeWhile_append_of_pos fun c hc => by simpa using ne_of_mem_of_not_mem hc h

/-- A name without zero bytes in its labels spells its labels. -/
theorem QName.spellsName {q : Bytes} {ls : List Bytes} (h : QName q ls) (hne : ls ≠ [])
    (hzero : ∀ l ∈ ls, 0 ∉ l) : SpellsName q (dotted ls) := by
  induction h with
  | root rest => exact absurd rfl hne
  | @label l bs ls hl hbs ih =>
    refine ⟨UInt8.ofNat l.length, l ++ bs, rfl, ?_⟩
    rw [toNat_labelLength hl.2, takeWhile_label (hzero l List.mem_cons_self)]
    cases hbs with
    | root rest =>
      have hend : (0 :: rest).takeWhile (· != (0 : UInt8)) = [] := by simp
      rw [hend, List.append_nil, dotted, List.intercalate_singleton]
      exact .last le_rfl
    | @label l' bs' ls' hl' hbs' =>
      have ih := ih (List.cons_ne_nil l' ls') fun m hm => hzero m (List.mem_cons_of_mem l hm)
      obtain ⟨n, rest, heq, hspells⟩ := ih
      obtain ⟨rfl, rfl⟩ := List.cons.inj heq
      rw [List.takeWhile_cons_of_pos (by simpa using labelLength_ne_zero hl'), dotted,
        intercalate_cons (List.cons_ne_nil l' ls')]
      exact .dot hspells

theorem IsHostname.eq_cons {h : Bytes} (hh : IsHostname h) : ∃ c t, h = c :: t ∧ c ≠ dot := by
  obtain ⟨labels, hne, hlabels, rfl⟩ := hh
  obtain ⟨l, ls, rfl⟩ := List.exists_cons_of_ne_nil hne
  obtain ⟨⟨hlen, -⟩, hdot, -⟩ := hlabels l List.mem_cons_self
  obtain ⟨c, t, rfl⟩ := List.exists_cons_of_length_pos hlen
  refine ⟨c, ([dot].intercalate ((c :: t) :: ls)).tail, ?_, fun hc => hdot (hc ▸ List.mem_cons_self)⟩
  by_cases hls : ls = []
  · subst hls
    rw [dotted, List.intercalate_singleton, List.tail_cons]
  · rw [dotted, intercalate_cons hls, List.cons_append, List.tail_cons]

theorem IsHostname.zero_not_mem {h : Bytes} (hh : IsHostname h) : 0 ∉ h := by
  obtain ⟨labels, -, hlabels, rfl⟩ := hh
  intro h0
  obtain h0 | ⟨l, hl, hmem⟩ := mem_intercalate h0
  · exact absurd h0 (by decide)
  · exact (hlabels l hl).2.2 hmem

/-- The root spells no hostname. -/
theorem not_spellsName_root {rest h : Bytes} (hh : IsHostname h) : ¬ SpellsName (0 :: rest) h := by
  rintro ⟨n, rest', heq, hspells⟩
  obtain ⟨rfl, rfl⟩ := List.cons.inj heq
  obtain ⟨c, t, rfl, hc⟩ := hh.eq_cons
  generalize hbytes : rest.takeWhile (· != (0 : UInt8)) = bytes at hspells
  generalize hzero : (0 : UInt8).toNat = k at hspells
  generalize htext : c :: t = text at hspells
  cases hspells with
  | last hlen =>
    subst htext
    rw [← hzero] at hlen
    simp at hlen
  | @dot label n bytes text hrest =>
    obtain rfl : label = [] := List.eq_nil_of_length_eq_zero (hzero.symm.trans rfl)
    exact hc (List.cons.inj htext).1

/-- A well formed name that spells a hostname has the labels of that hostname. -/
theorem WellFormed.name {q h : Bytes} (hq : WellFormed q) (hh : IsHostname h) (hs : SpellsName q h) :
    ∃ labels, QName q labels ∧ dotted labels = h := by
  obtain ⟨labels, hname, hzero⟩ := hq
  by_cases hne : labels = []
  · subst hne
    cases hname
    exact absurd hs (not_spellsName_root hh)
  · exact ⟨labels, hname, (hname.spellsName hne hzero).unique hs⟩

theorem QName.wellFormed {q : Bytes} {labels : List Bytes} (hname : QName q labels)
    (hh : IsHostname (dotted labels)) : WellFormed q :=
  ⟨labels, hname, fun _ hl h0 => hh.zero_not_mem (mem_intercalate_of_mem hl h0)⟩

/-! ## The header -/

theorem byteAt_lt (data : Bytes) (i : ℕ) : byteAt data i < 256 := UInt8.toNat_lt _

/-- A mask of the high byte. -/
theorem and_highByte {a b m : ℕ} (hb : b < 256) : (a * 256 + b) &&& (m * 256) = (a &&& m) * 256 := by
  have hdiv : ((a * 256 + b) &&& (m * 256)) / 2 ^ 8 = a &&& m := by
    rw [← Nat.shiftRight_eq_div_pow, Nat.shiftRight_and_distrib, Nat.shiftRight_eq_div_pow,
      Nat.shiftRight_eq_div_pow]
    congr 1 <;> omega
  have hmod : ((a * 256 + b) &&& (m * 256)) % 2 ^ 8 = 0 := by
    rw [Nat.and_mod_two_pow, Nat.mul_mod_left, Nat.and_zero]
  omega

theorem flags_and_qrMask (data : Bytes) :
    flags data &&& qrMask = 0 ↔ byteAt data 2 / 128 = 0 := by
  have hall : ∀ a : Fin 256, (a.val &&& 0x80) = 0 ↔ a.val / 128 = 0 := by decide +kernel
  have hmask : qrMask = 0x80 * 256 := rfl
  rw [flags, hmask, and_highByte (byteAt_lt data 3), ← hall ⟨_, byteAt_lt data 2⟩]
  simp

theorem flags_and_opcodeMask (data : Bytes) :
    flags data &&& opcodeMask = 0 ↔ byteAt data 2 / 8 % 16 = 0 := by
  have hall : ∀ a : Fin 256, (a.val &&& 0x78) = 0 ↔ a.val / 8 % 16 = 0 := by
    decide +kernel
  have hmask : opcodeMask = 0x78 * 256 := rfl
  rw [flags, hmask, and_highByte (byteAt_lt data 3), ← hall ⟨_, byteAt_lt data 2⟩]
  simp

/-- The check passes the standard queries whose question spells a hostname. -/
theorem checkHostname_iff {hostnames : List Bytes} (hne : hostnames ≠ []) (data : Bytes) :
    checkHostname hostnames data = true ↔
      StandardQuery data ∧ (data.drop headerLength).length ≤ 255 ∧
        ∃ h ∈ hostnames, SpellsName (data.drop headerLength) h := by
  have hempty : ¬ hostnames.isEmpty = true := by simpa using hne
  unfold checkHostname
  rw [if_neg hempty, chunkSkip_eq]
  by_cases hlen : data.length < headerLength
  · rw [if_pos hlen]
    exact iff_of_false Bool.false_ne_true fun h => absurd h.1.header hlen.not_ge
  rw [if_neg hlen]
  by_cases hhead : flags data &&& qrMask = 0 ∧ flags data &&& opcodeMask = 0 ∧ qdcount data ≠ 0
  · have hstandard : StandardQuery data :=
      ⟨Nat.le_of_not_lt hlen, (flags_and_qrMask data).mp hhead.1,
        (flags_and_opcodeMask data).mp hhead.2.1, Nat.one_le_iff_ne_zero.mpr hhead.2.2⟩
    rw [if_pos hhead]
    rcases hx : extractHostname (data.drop headerLength) with _ | h
    · refine iff_of_false Bool.false_ne_true ?_
      rintro ⟨-, hshort, h, -, hspells⟩
      rw [extractHostname_eq_some_iff.mpr ⟨hshort, hspells⟩] at hx
      cases hx
    · obtain ⟨hshort, hspells⟩ := extractHostname_eq_some_iff.mp hx
      rw [List.contains_iff_mem]
      constructor
      · exact fun hmem => ⟨hstandard, hshort, h, hmem, hspells⟩
      · rintro ⟨-, -, h', hmem, hspells'⟩
        rwa [hspells.unique hspells']
  · rw [if_neg hhead]
    refine iff_of_false Bool.false_ne_true fun h => hhead ?_
    exact ⟨(flags_and_qrMask data).mpr h.1.qr, (flags_and_opcodeMask data).mpr h.1.opcode,
      Nat.one_le_iff_ne_zero.mp h.1.question⟩

/-- Only loosely read questions pass without being allowed. -/
theorem check_sound_iff {hostnames : List Bytes} (hne : hostnames ≠ [])
    (hvalid : ∀ h ∈ hostnames, IsHostname h) (data : Bytes) :
    (checkHostname hostnames data = true → AllowedQuery hostnames data) ↔
      ¬ LooselyRead hostnames data := by
  rw [checkHostname_iff hne]
  constructor
  · intro hsound hloose
    obtain ⟨labels, hname, hmem⟩ :=
      (hsound ⟨hloose.toStandardQuery, hloose.short, hloose.spells⟩).name
    exact hloose.malformed (hname.wellFormed (hvalid _ hmem))
  · rintro hloose ⟨hstandard, hshort, h, hmem, hspells⟩
    have hformed : WellFormed (data.drop headerLength) := by
      by_contra hmal
      exact hloose ⟨hstandard, hshort, ⟨h, hmem, hspells⟩, hmal⟩
    obtain ⟨labels, hname, rfl⟩ := hformed.name (hvalid h hmem) hspells
    exact ⟨hstandard, labels, hname, hmem⟩

/-! ## The proxy -/

section Proxy

variable {Host : Type} [DecidableEq Host]

/-- What `handle` reads of a packet; `payload` begins with the UDP header. -/
structure Packet (Host : Type) where
  nextHeader : UInt8
  source : Host
  port : ℕ
  payload : Bytes

/-- The sources that have a socket, and what was given to `sendto`. -/
structure Proxy (Host : Type) where
  sockets : List Host := []
  sent : List Bytes := []

/-- UDP to port 53. -/
def Packet.isDns (packet : Packet Host) : Bool := packet.nextHeader == 17 && packet.port == 53

/-- The payload without the UDP header. -/
def Packet.query (packet : Packet Host) : Bytes := chunkSkip packet.payload 8

inductive Event (Host : Type)
  /-- `handle`; `opened` says whether `create_socket` succeeds -/
  | handle (packet : Packet Host) (opened : Bool)
  /-- `handle_timeout` of a socket that was not used -/
  | timeout (source : Host)

variable (hostnames : List Bytes)

/-- The state after `handle`, and what it returns. -/
def Proxy.handle (p : Proxy Host) (packet : Packet Host) (opened : Bool) : Proxy Host × Bool :=
  if !packet.isDns then (p, false)
  else if !checkHostname hostnames packet.query then (p, false)
  else if p.sockets.contains packet.source then
    ({ p with sent := p.sent ++ [packet.query] }, true)
  else if opened then
    ({ p with sockets := packet.source :: p.sockets, sent := p.sent ++ [packet.query] }, true)
  else (p, false)

def Proxy.step (p : Proxy Host) : Event Host → Proxy Host
  | .handle packet opened => (p.handle hostnames packet opened).1
  | .timeout source => { p with sockets := p.sockets.filter (· ≠ source) }

/-- A DNS packet for which there is a socket is not read loosely. -/
def ReadExactly (p : Proxy Host) : Event Host → Prop
  | .handle packet opened => packet.isDns = true → (packet.source ∈ p.sockets ∨ opened = true) →
    ¬ LooselyRead hostnames packet.query
  | .timeout _ => True

variable {hostnames}

/-- What a step sends is allowed exactly if the packet is read exactly. -/
theorem emits_step (hne : hostnames ≠ []) (hvalid : ∀ h ∈ hostnames, IsHostname h) (p : Proxy Host)
    (e : Event Host) :
    Emits Proxy.sent (AllowedQuery hostnames) p (p.step hostnames e) (ReadExactly hostnames p e) := by
  cases e with
  | timeout source => exact .none rfl trivial
  | handle packet opened =>
    have hsound := check_sound_iff hne hvalid packet.query
    by_cases hdns : packet.isDns = true
    swap
    · refine .none ?_ fun h => absurd h hdns
      simp [Proxy.step, Proxy.handle, hdns]
    by_cases hcheck : checkHostname hostnames packet.query = true
    swap
    · refine .none ?_ fun _ _ => hsound.mp fun h => absurd h hcheck
      simp [Proxy.step, Proxy.handle, hdns, hcheck]
    by_cases hsocket : packet.source ∈ p.sockets ∨ opened = true
    · have hlog : (p.step hostnames (.handle packet opened)).sent = p.sent ++ [packet.query] := by
        rcases hsocket with h | h
        · simp [Proxy.step, Proxy.handle, hdns, hcheck, h]
        · by_cases hs : packet.source ∈ p.sockets <;>
            simp [Proxy.step, Proxy.handle, hdns, hcheck, h, hs]
      refine (Emits.single hlog).congr ?_
      simp only [ReadExactly, hdns, hsocket, forall_const, ← hsound, hcheck]
    · rw [not_or] at hsocket
      refine .none ?_ fun _ h => absurd h (not_or.mpr hsocket)
      simp [Proxy.step, Proxy.handle, hdns, hcheck, hsocket]

/-- **The bypass.**  A query that passes the check is allowed exactly if it is not read loosely, and
in every run all that leaves through the sockets is allowed exactly if no packet is read loosely. -/
theorem bypass_iff (hne : hostnames ≠ []) (hvalid : ∀ h ∈ hostnames, IsHostname h) :
    (∀ data, (checkHostname hostnames data = true → AllowedQuery hostnames data) ↔
        ¬ LooselyRead hostnames data) ∧
      ∀ events : List (Event Host),
        (∀ query ∈ (run (Proxy.step hostnames) {} events).sent, AllowedQuery hostnames query) ↔
          Along (Proxy.step hostnames) (ReadExactly hostnames) {} events := by
  refine ⟨check_sound_iff hne hvalid, fun events => ?_⟩
  rw [run_log_iff (emits_step hne hvalid) events {}]
  exact and_iff_right (by simp)

end Proxy

/-! ## A name with a zero byte in it -/

/-- The hostname `vpn`. -/
def vpn : Bytes := [0x76, 0x70, 0x6e]

theorem isHostname_vpn : ∀ h ∈ [vpn], IsHostname h := by
  intro h hh
  obtain rfl := List.mem_singleton.mp hh
  exact ⟨[vpn], by simp, by decide, rfl⟩

/-- A query with recursion and one question. -/
def query (question : Bytes) : Bytes := [0, 1, 1, 0, 0, 1, 0, 0, 0, 0, 0, 0] ++ question

theorem allowed_vpn : AllowedQuery [vpn] (query [3, 0x76, 0x70, 0x6e, 0, 0, 1, 0, 1]) := by
  have hname : QName [3, 0x76, 0x70, 0x6e, 0, 0, 1, 0, 1] [vpn] :=
    .label (l := vpn) (by decide) (.root [0, 1, 0, 1])
  exact ((@bypass_iff Unit _ _ (by simp) isHostname_vpn).1 _).mpr
    (fun h => h.malformed ⟨[vpn], hname, by decide⟩) (by decide)

/-- The first length byte is the length of the first label. -/
theorem QName.head_length {n : UInt8} {bytes : Bytes} {labels : List Bytes}
    (h : QName (n :: bytes) labels) (hn : n ≠ 0) : ∃ l ls, labels = l :: ls ∧ l.length = n.toNat := by
  generalize hq : n :: bytes = q at h
  cases h with
  | root rest => exact absurd (List.cons.inj hq).1 hn
  | @label l bs ls hl hbs =>
    exact ⟨l, ls, rfl, by rw [(List.cons.inj hq).1, toNat_labelLength hl.2]⟩

/-- The name with the one label `vpn\0x` passes as `vpn`. -/
theorem zero_byte_bypasses :
    checkHostname [vpn] (query [5, 0x76, 0x70, 0x6e, 0, 0x78, 0, 0, 1, 0, 1]) = true ∧
      ¬ AllowedQuery [vpn] (query [5, 0x76, 0x70, 0x6e, 0, 0x78, 0, 0, 1, 0, 1]) := by
  refine ⟨by decide, ?_⟩
  rintro ⟨-, labels, hname, hmem⟩
  obtain ⟨l, ls, rfl, hlen⟩ := QName.head_length (n := 5) hname (by decide)
  have hle : l.length ≤ (dotted (l :: ls)).length := by
    by_cases hls : ls = []
    · rw [hls, dotted, List.intercalate_singleton]
    · rw [dotted, intercalate_cons hls, List.length_append]
      omega
  rw [List.mem_singleton.mp hmem, hlen] at hle
  exact absurd hle (by decide)

end VpnCore.Dns
