import VpnCore.Config.Strings
import VpnCore.Lib.Numerals
import VpnCore.Lib.Pattern
import VpnCore.Log.Marshal

/-!
# VpnCore.Process.LogLine — OpenVPN's log lines, printed and read

With machine-readable output `x_msg_va` prints a message as `sec.usec flags message`, the flags in
hexadecimal.  `startOpenVPNThreadArgs` takes such a line apart with a regular expression, in which the
group of the flags is inside the repetition: it holds the last digit only.  The verbosity is in that
digit, the severity in the one before it.  Every message is therefore logged as information, and it is
logged correctly exactly when that is its severity (`logs_message_iff`).
-/

namespace VpnCore.Process

open Config Lib
open Log.Marshal (LogLevel)

/-! ## `error.c` -/

namespace Flags

def fatal : UInt32 := (1 : UInt32) <<< 4

def nonFatal : UInt32 := (1 : UInt32) <<< 5

def warn : UInt32 := (1 : UInt32) <<< 6

def debug : UInt32 := (1 : UInt32) <<< 7

def noIprefix : UInt32 := (1 : UInt32) <<< 17

end Flags

/-- A message that `x_msg_va` prints: the time, the flags, the prefix of the client and the formatted
text. -/
structure Message where
  tvSec : ℤ
  tvUsec : ℕ
  flags : UInt32
  msgGetPrefix : Option Text := none
  m1 : Text

/-- The prefix, its separator and the text. -/
def Message.text (m : Message) : Text :=
  let clientPrefix := if m.flags &&& Flags.noIprefix ≠ 0 then none else m.msgGetPrefix
  match clientPrefix with
  | none => m.m1
  | some p => p ++ ' ' :: m.m1

/-- `%06ld` -/
def padded (n : ℕ) : Text :=
  List.replicate (6 - (Nat.toDigits 10 n).length) '0' ++ Nat.toDigits 10 n

def Message.line (m : Message) : Text :=
  decimal m.tvSec ++ '.' :: (padded m.tvUsec ++ ' ' :: (Nat.toDigits 16 m.flags.toNat ++ ' ' :: m.text))

def Message.printed (m : Message) : Text := m.line ++ ['\n']

/-! ## `OpenVPNThread` -/

def dumpPathString : Text := "Dump path: ".toList

def brokenPieSupport : Text := "/data/data/com.blinkt.openvpn/cache/pievpn".toList

def brokenPieSupport2 : Text := "syntax error".toList

/-- A call of `VpnStatus`. -/
inductive Entry
  | openVpn (level : LogLevel) (ovpnlevel : Int32) (message : Text)
  | info (message : Text)
  | error (message : Text)
  deriving DecidableEq

/-- The line terminators, which `.` does not match. -/
def terminator (c : Char) : Bool :=
  c == '\n' || c == '\r' || c == '\u0085' || c == '\u2028' || c == '\u2029'

def hexDigit (c : Char) : Bool := isDigit c || ('a' ≤ c && c ≤ 'f')

/-- `(\d+).(\d+) ([0-9a-f])+ (.*)` -/
def pattern : List Piece :=
  [{ chars := isDigit, rep := .plus, capture := .rounds },
   { chars := fun c => !terminator c },
   { chars := isDigit, rep := .plus, capture := .rounds },
   { chars := fun c => c == ' ' },
   { chars := hexDigit, rep := .plus, capture := .lastRound },
   { chars := fun c => c == ' ' },
   { chars := fun c => !terminator c, rep := .star, capture := .rounds }]

/-- `Character.digit(c, 16)` -/
def hexValue (c : Char) : Option ℕ :=
  if isDigit c then some (c.toNat - '0'.toNat)
  else if 'a' ≤ c ∧ c ≤ 'f' then some (c.toNat - 'a'.toNat + 10)
  else if 'A' ≤ c ∧ c ≤ 'F' then some (c.toNat - 'A'.toNat + 10)
  else none

/-- `Integer.parseInt(s, 16)` -/
def parseInt16 (s : Text) : Except Thrown Int32 :=
  let (negative, digits) :=
    match s with
    | '-' :: rest => (true, rest)
    | '+' :: rest => (false, rest)
    | _ => (false, s)
  match digits.mapM hexValue with
  | none | some [] => .error numberFormatException
  | some values =>
    let n : ℤ := values.foldl (fun n d => n * 16 + d) (0 : ℕ)
    let n := if negative then -n else n
    if n < -2 ^ 31 ∨ 2 ^ 31 ≤ n then .error numberFormatException else .ok (Int32.ofInt n)

namespace OpenVPNThread

def M_FATAL : Int32 := (1 : Int32) <<< 4

def M_NONFATAL : Int32 := (1 : Int32) <<< 5

def M_WARN : Int32 := (1 : Int32) <<< 6

def M_DEBUG : Int32 := (1 : Int32) <<< 7

end OpenVPNThread

open OpenVPNThread in
def logStatus (flags : Int32) : LogLevel :=
  if flags &&& M_FATAL ≠ 0 then .error
  else if flags &&& M_NONFATAL ≠ 0 then .warning
  else if flags &&& M_WARN ≠ 0 then .warning
  else if flags &&& M_DEBUG ≠ 0 then .verbose
  else .info

/-- The verbosity, at least 4 for a management command. -/
def logLevel (flags : Int32) (msg : Text) : Int32 :=
  let level := flags &&& 0x0F
  if startsWith msg "MANAGEMENT: CMD".toList then max 4 level else level

/-- The hint that follows a message about a weak hash. -/
def weakHashHint (msg : Text) : List Entry :=
  if (endsWith msg "md too weak".toList && startsWith msg "OpenSSL: error".toList) ||
      contains msg "error:140AB18E".toList then
    [.error ("OpenSSL reported a certificate with a weak hash, " ++
      "please the in app FAQ about weak hashes").toList]
  else []

/-- What is logged for a line. -/
def logged (logline : Text) : Except Thrown (List Entry) :=
  match fullMatch pattern logline with
  | some [_, _, group3, msg] => do
    let flags ← parseInt16 group3
    return .openVpn (logStatus flags) (logLevel flags msg) msg :: weakHashHint msg
  | _ => return [.info ("P:".toList ++ logline)]

structure Thread where
  mDumpPath : Option Text := none
  mBrokenPie : Bool := false
  log : List Entry := []
  deriving DecidableEq

/-- The thread after a line for which the entries are logged. -/
def Thread.afterLine (s : Thread) (logline : Text) (entries : List Entry) : Thread where
  mDumpPath :=
    if startsWith logline dumpPathString then some (logline.drop dumpPathString.length)
    else s.mDumpPath
  mBrokenPie :=
    s.mBrokenPie || startsWith logline brokenPieSupport || contains logline brokenPieSupport2
  log := s.log ++ entries

/-- One round of the loop. -/
def Thread.readLine (s : Thread) (logline : Text) : Except Thrown Thread :=
  (logged logline).map (s.afterLine logline)

/-- The loop, on the output of the process. -/
def Thread.startOpenVPNThreadArgs (s : Thread) (output : Text) : Except Thrown Thread :=
  (readLines output).foldlM Thread.readLine s

/-! ## What the log should hold -/

/-- The severity that the flags say. -/
def severity (flags : UInt32) : LogLevel :=
  if flags &&& Flags.fatal ≠ 0 then .error
  else if flags &&& Flags.nonFatal ≠ 0 ∨ flags &&& Flags.warn ≠ 0 then .warning
  else if flags &&& Flags.debug ≠ 0 then .verbose
  else .info

def verbosity (flags : UInt32) (msg : Text) : Int32 :=
  let level := Int32.ofNat (flags &&& 0x0F).toNat
  if startsWith msg "MANAGEMENT: CMD".toList then max 4 level else level

def Message.entries (m : Message) : List Entry :=
  .openVpn (severity m.flags) (verbosity m.flags m.text) m.text :: weakHashHint m.text

/-- No flag of a severity is set. -/
def Plain (flags : UInt32) : Prop :=
  flags &&& (Flags.fatal ||| Flags.nonFatal ||| Flags.warn ||| Flags.debug) = 0
  deriving Decidable

theorem severity_eq_info {flags : UInt32} : severity flags = .info ↔ Plain flags := by
  have hor : ∀ a b c : UInt32, a &&& (b ||| c) = 0 ↔ a &&& b = 0 ∧ a &&& c = 0 := fun a b c => by
    simp [← UInt32.toBitVec_inj, BitVec.and_or_distrib_left]
  unfold severity Plain
  rw [hor, hor, hor]
  split_ifs with h1 h2 h3
  · exact iff_of_false (by decide) fun h => h1 h.1.1.1
  · exact iff_of_false (by decide) fun h => h2.elim (· h.1.1.2) (· h.1.2)
  · exact iff_of_false (by decide) fun h => h3 h.2
  · rw [not_or] at h2
    exact iff_of_true rfl ⟨⟨⟨not_not.mp h1, not_not.mp h2.1⟩, not_not.mp h2.2⟩, not_not.mp h3⟩

/-! ## Reading a line back -/

theorem hexDigit_digitChar : ∀ d < 16, hexDigit (Nat.digitChar d) = true := by decide

theorem parseInt16_digitChar : ∀ d < 16,
    parseInt16 [Nat.digitChar d] = .ok (Int32.ofNat d) ∧ logStatus (Int32.ofNat d) = .info ∧
      Int32.ofNat d &&& 0x0F = Int32.ofNat d := by
  decide

theorem digit_of_mem_padded {n : ℕ} {c : Char} (h : c ∈ padded n) : isDigit c = true := by
  rcases List.mem_append.1 h with h | h
  · rw [List.eq_of_mem_replicate h]
    rfl
  · exact isDigit_of_mem_toDigits h

theorem padded_ne_nil (n : ℕ) : padded n ≠ [] := fun h =>
  Nat.toDigits_ne_nil (List.append_eq_nil_iff.1 h).2

/-- The groups of a printed line: of the flags, the last digit. -/
theorem fullMatch_line {m : Message} (hsec : 0 ≤ m.tvSec) (htext : ∀ c ∈ m.text, terminator c = false) :
    fullMatch pattern m.line = some [decimal m.tvSec, padded m.tvUsec,
      [Nat.digitChar (m.flags.toNat % 16)], m.text] := by
  have hdecimal : decimal m.tvSec = Nat.toDigits 10 m.tvSec.natAbs := if_neg (by omega)
  have hhex : ∀ c ∈ Nat.toDigits 16 m.flags.toNat, hexDigit c = true := fun c hc => by
    obtain ⟨d, hd, rfl⟩ := exists_of_mem_toDigits (by omega) hc
    exact hexDigit_digitChar d hd
  have hdot : ∀ c ∈ m.text, (!terminator c) = true := fun c hc => by rw [htext c hc]; rfl
  have hspace : hexDigit ' ' = false ∧ isDigit ' ' = false ∧ isDigit '.' = false := by decide
  rw [Message.line, pattern]
  refine fullMatch_rounds (hdecimal ▸ Nat.toDigits_ne_nil) (fun c hc => ?_) (by simp [hspace]) <|
    fullMatch_one (by decide) <|
    fullMatch_rounds (padded_ne_nil _) (fun c => digit_of_mem_padded) (by simp [hspace]) <|
    fullMatch_one rfl <|
    fullMatch_lastRound (getLast?_toDigits (by omega) _) hhex (by simp [hspace]) <|
    fullMatch_one rfl <| fullMatch_end hdot
  exact isDigit_of_mem_toDigits (hdecimal ▸ hc)

/-- **A printed line is logged as information.** -/
theorem logged_line {m : Message} (hsec : 0 ≤ m.tvSec) (htext : ∀ c ∈ m.text, terminator c = false) :
    logged m.line =
      .ok (.openVpn .info (verbosity m.flags m.text) m.text :: weakHashHint m.text) := by
  have hdigit : m.flags.toNat % 16 < 16 := Nat.mod_lt _ (by omega)
  obtain ⟨hparse, hstatus, hlevel⟩ := parseInt16_digitChar _ hdigit
  have hverbosity : logLevel (Int32.ofNat (m.flags.toNat % 16)) m.text = verbosity m.flags m.text := by
    have hmod : (m.flags &&& 0x0F).toNat = m.flags.toNat % 16 := by
      rw [UInt32.toNat_and]
      exact Nat.and_two_pow_sub_one_eq_mod _ 4
    rw [logLevel, verbosity, hlevel, hmod]
  simp only [logged, fullMatch_line hsec htext, hparse, bind, Except.bind, pure, Except.pure, hstatus,
    hverbosity]

/-- A time before 1970 is not recognised. -/
theorem logged_negative {m : Message} (hsec : m.tvSec < 0) :
    logged m.line = .ok [.info ("P:".toList ++ m.line)] := by
  have hline : m.line = '-' :: m.line.tail := by
    rw [Message.line, decimal, if_pos hsec]
    rfl
  have hnone : fullMatch pattern m.line = none := by
    rw [hline]
    exact fullMatch_no_run rfl
  rw [logged, hnone]
  rfl

theorem terminator_of_mem_line {m : Message} (htext : ∀ c ∈ m.text, terminator c = false) {c : Char}
    (hc : c ∈ m.line) : terminator c = false := by
  have htoDigits : ∀ {b n : ℕ}, 1 < b → b ≤ 16 → c ∈ Nat.toDigits b n → terminator c = false := by
    intro b n hb hb' hc
    obtain ⟨d, hd, rfl⟩ := exists_of_mem_toDigits hb hc
    have hdigit : ∀ d < 16, terminator (Nat.digitChar d) = false := by decide
    exact hdigit d (by omega)
  simp only [Message.line, List.mem_append, List.mem_cons] at hc
  rcases hc with hc | rfl | hc | rfl | hc | rfl | hc
  · unfold decimal at hc
    split_ifs at hc
    · rcases List.mem_cons.1 hc with rfl | hc
      · rfl
      · exact htoDigits (by omega) (by omega) hc
    · exact htoDigits (by omega) (by omega) hc
  · rfl
  · rcases List.mem_append.1 hc with hc | hc
    · rw [List.eq_of_mem_replicate hc]
      rfl
    · exact htoDigits (by omega) (by omega) hc
  · rfl
  · exact htoDigits (by omega) (by omega) hc
  · rfl
  · exact htext c hc

theorem readLines_printed {m : Message} (htext : ∀ c ∈ m.text, terminator c = false) (rest : Text) :
    readLines (m.printed ++ rest) = m.line :: readLines rest := by
  have hnot : ∀ c, terminator c = true → c ∉ m.line := fun c hc hm => by
    rw [terminator_of_mem_line htext hm] at hc
    cases hc
  rw [Message.printed, List.append_assoc, List.singleton_append,
    readLines_line (hnot '\n' rfl) (hnot '\r' rfl)]

theorem start_printed {m : Message} (htext : ∀ c ∈ m.text, terminator c = false) {entries : List Entry}
    (h : logged m.line = .ok entries) (s : Thread) (rest : Text) :
    s.startOpenVPNThreadArgs (m.printed ++ rest) =
      (s.afterLine m.line entries).startOpenVPNThreadArgs rest := by
  rw [Thread.startOpenVPNThreadArgs, readLines_printed htext, List.foldlM_cons, Thread.readLine, h]
  rfl

/-- **The whole output.**  All messages are logged, in their order, as information. -/
theorem log_output : ∀ (messages : List Message) (s : Thread),
    (∀ m ∈ messages, 0 ≤ m.tvSec ∧ ∀ c ∈ m.text, terminator c = false) →
    (s.startOpenVPNThreadArgs (messages.flatMap Message.printed)).map Thread.log =
      .ok (s.log ++ messages.flatMap fun m =>
        .openVpn .info (verbosity m.flags m.text) m.text :: weakHashHint m.text)
  | [], s, _ => by
    rw [List.flatMap_nil, List.flatMap_nil, List.append_nil]
    rfl
  | m :: messages, s, h => by
    obtain ⟨hsec, htext⟩ := h m List.mem_cons_self
    rw [List.flatMap_cons, start_printed htext (logged_line hsec htext),
      log_output messages _ fun m hm => h m (List.mem_cons_of_mem _ hm), Thread.afterLine,
      List.flatMap_cons, List.append_assoc]

/-- **Printed and read.**  A message is logged with the level and the verbosity of its flags exactly
when its time is not before 1970 and no flag of a severity is set. -/
theorem logs_message_iff (s : Thread) (m : Message) (htext : ∀ c ∈ m.text, terminator c = false) :
    (s.startOpenVPNThreadArgs m.printed).map Thread.log = .ok (s.log ++ m.entries) ↔
      0 ≤ m.tvSec ∧ Plain m.flags := by
  have hrun : ∀ entries, logged m.line = .ok entries →
      (s.startOpenVPNThreadArgs m.printed).map Thread.log = .ok (s.log ++ entries) := by
    intro entries h
    rw [← List.append_nil m.printed, start_printed htext h]
    rfl
  by_cases hsec : 0 ≤ m.tvSec
  · rw [hrun _ (logged_line hsec htext), ← severity_eq_info]
    simp [Message.entries, hsec, eq_comm]
  · rw [hrun _ (logged_negative (by omega))]
    simp [Message.entries, hsec]

theorem plain_of_all {t : Text} (h : (t.all fun c => !terminator c) = true) :
    ∀ c ∈ t, terminator c = false := fun c hc => by
  simpa using List.all_eq_true.mp h c hc

/-- The line that the source gives as an example. -/
def proxyMessage : Message where
  tvSec := 1380308330
  tvUsec := 240114
  flags := 0x18000002
  m1 := "Send to HTTP proxy: 'X-Online-Host: bla.blabla.com'".toList

theorem logs_proxyMessage :
    (Thread.startOpenVPNThreadArgs {} proxyMessage.printed).map Thread.log = .ok proxyMessage.entries :=
  (logs_message_iff {} proxyMessage (plain_of_all (by decide))).2 ⟨by decide, by decide⟩

/-- A warning. -/
def warning : Message where
  tvSec := 1380308330
  tvUsec := 240114
  flags := Flags.warn
  m1 := "No server certificate verification method".toList

/-- It is logged as information. -/
theorem warning_logged_as_info :
    severity warning.flags = .warning ∧
      (Thread.startOpenVPNThreadArgs {} warning.printed).map Thread.log =
        .ok [.openVpn .info 0 warning.m1] := by
  refine ⟨by decide, ?_⟩
  have hplain : ∀ m ∈ [warning], 0 ≤ m.tvSec ∧ ∀ c ∈ m.text, terminator c = false := fun m hm =>
    List.mem_singleton.mp hm ▸ ⟨by decide, plain_of_all (by decide)⟩
  have hlog := log_output [warning] {} hplain
  rw [List.flatMap_singleton] at hlog
  exact hlog.trans (by decide)

end VpnCore.Process
