import VpnCore.Config.ReadBack

/-!
# VpnCore.Config.Password — escaped lines and the answers to password requests

`OpenVpnManagementThread.processPWCommand` answers a `>PASSWORD:` request with up to two commands
that carry an escaped user name or password; OpenVPN reads them with `parse_line`.
-/

namespace VpnCore.Config

open VpnCore.Lib Options

/-! ## The code -/

/-- What the answers are taken from: the profile and the proxy of the current connection. -/
structure Credentials where
  passwordPrivateKey : Option Text
  passwordAuth : Option Text
  username : Option Text
  /-- `mProxyAuthUser` and `mProxyAuthPassword` of `mCurrentProxyConnection` -/
  proxy : Option (Option Text × Option Text)

def Credentials.pw (cr : Credentials) (needed : Text) : Option Text :=
  if needed = "Private Key".toList then cr.passwordPrivateKey
  else if needed = "Auth".toList then cr.passwordAuth
  else if needed = "HTTP Proxy".toList then cr.proxy.bind Prod.snd
  else none

def Credentials.user (cr : Credentials) (needed : Text) : Option Text :=
  if needed = "Private Key".toList then none
  else if needed = "Auth".toList then cr.username
  else if needed = "HTTP Proxy".toList then cr.proxy.bind Prod.fst
  else none

inductive PwAnswer
  | ignored
  | couldNotParse
  | authFailed (needed args : Text)
  | commands (cmds : List Text)
  | requestInputFromUser (needed : Text)

/-- The text between the first two single quotes, and what stands behind them. -/
def betweenQuotes (argument : Text) : Option (Text × Text) :=
  match argument.dropWhile (· ≠ '\'') with
  | [] => none
  | _ :: rest =>
    match rest.dropWhile (· ≠ '\'') with
    | [] => none
    | _ :: after => some (rest.takeWhile (· ≠ '\''), after)

/-- `String.format("username '%s' %s\n", …)` without the newline. -/
def pwCommand (cmd needed value : Text) : Text :=
  cmd ++ " '".toList ++ needed ++ "' ".toList ++ openVpnEscape value

/-- The answer to a `>PASSWORD:` message. -/
def processPWCommand (cr : Credentials) (argument : Text) : PwAnswer :=
  if "Auth-Token:".toList <+: argument then .ignored
  else
    match betweenQuotes argument with
    | none => .couldNotParse
    | some (needed, after) =>
      if "Verification Failed".toList <+: argument then .authFailed needed after
      else
        match cr.pw needed with
        | none => .requestInputFromUser needed
        | some pw =>
          let password := pwCommand "password".toList needed pw ++ ['\n']
          match cr.user needed with
          | some username =>
            .commands [pwCommand "username".toList needed username ++ ['\n'], password]
          | none => .commands [password]

/-! ## Answers to password requests -/

theorem encode_pwCommand (cmd needed value : Text) :
    encode (pwCommand cmd needed value) ++ [0] =
      encode cmd ++ ' '.toUInt8 :: ('\''.toUInt8 :: (encode needed ++ '\''.toUInt8 ::
        (following [encode value] ++ [0]))) := by
  have h1 : encode " '".toList = [' '.toUInt8, '\''.toUInt8] := by decide
  have h2 : encode "' ".toList = ['\''.toUInt8, ' '.toUInt8] := by decide
  simp only [pwCommand, encode_append, h1, h2, encode_openVpnEscape, following, List.flatMap_cons,
    List.flatMap_nil, List.append_nil, List.append_assoc, List.cons_append, List.nil_append]

theorem parse_pwCommand_iff {cmd needed value : Text} (hcmd : plainWord (encode cmd) = true)
    (hcmdLen : (encode cmd).length ≤ optionParmSize)
    (hneeded : ∀ c ∈ encode needed, c ≠ 0 ∧ c ≠ '\''.toUInt8)
    (hneededLen : (encode needed).length ≤ optionParmSize) (hv : Holdable (encode value)) :
    parseLine maxParms (encode (pwCommand cmd needed value)) =
        .ok [encode cmd, encode needed, encode value] ↔ Survives value := by
  have hroom : [encode cmd].length < maxParms := (by decide : 1 < maxParms)
  have key := finish_following_iff (n := maxParms) [encode value] [encode cmd, encode needed]
    (by decide : 2 + 1 ≤ maxParms) (by simpa using hv)
  rw [parseLine, show ({} : Parse) = idle [] from rfl, encode_pwCommand,
    loop_word (by decide) rfl _ hcmd hcmdLen, List.nil_append, resume,
    if_neg (Nat.not_le.mpr hroom), loop_single hroom _ hneeded hneededLen]
  refine Iff.trans key ?_
  rw [List.forall_mem_singleton]
  exact readable_encode (nul_not_mem hv)

/-- The kinds of password OpenVPN asks for. -/
theorem needed_of_pw {cr : Credentials} {needed pw : Text} (h : cr.pw needed = some pw) :
    needed = "Private Key".toList ∨ needed = "Auth".toList ∨ needed = "HTTP Proxy".toList := by
  unfold Credentials.pw at h
  split_ifs at h with h1 h2 h3
  · exact .inl h1
  · exact .inr (.inl h2)
  · exact .inr (.inr h3)

theorem parse_answer_iff {cmd needed value : Text}
    (hcmd : cmd = "username".toList ∨ cmd = "password".toList)
    (hneeded : needed = "Private Key".toList ∨ needed = "Auth".toList ∨
      needed = "HTTP Proxy".toList) (hv : Holdable (encode value)) :
    parseLine maxParms (encode (pwCommand cmd needed value)) =
        .ok [encode cmd, encode needed, encode value] ↔ Survives value := by
  refine parse_pwCommand_iff ?_ ?_ ?_ ?_ hv
  · rcases hcmd with rfl | rfl <;> decide
  · rcases hcmd with rfl | rfl <;> decide
  · rcases hneeded with rfl | rfl | rfl <;> decide +kernel
  · rcases hneeded with rfl | rfl | rfl <;> decide

/-- What an answer line carries: the user name or the password for the request. -/
def Carries (cr : Credentials) (cmd needed value : Text) : Prop :=
  (cmd = "username".toList ∧ cr.user needed = some value) ∨
    (cmd = "password".toList ∧ cr.pw needed = some value)

theorem processPWCommand_commands {cr : Credentials} {argument : Text} {cmds : List Text}
    (h : processPWCommand cr argument = .commands cmds) :
    ∃ needed pw, cr.pw needed = some pw ∧ ∀ line ∈ cmds, ∃ cmd value,
      line = pwCommand cmd needed value ++ ['\n'] ∧ Carries cr cmd needed value := by
  unfold processPWCommand at h
  rcases hq : betweenQuotes argument with _ | ⟨needed, after⟩ <;> rw [hq] at h
  · split_ifs at h
  · dsimp only at h
    split_ifs at h
    cases hpw : cr.pw needed with
    | none => rw [hpw] at h; cases h
    | some pw =>
      rw [hpw] at h
      refine ⟨needed, pw, hpw, fun line hline => ?_⟩
      cases huser : cr.user needed with
      | none =>
        rw [huser] at h
        obtain rfl := PwAnswer.commands.inj h
        obtain rfl := List.mem_singleton.mp hline
        exact ⟨_, pw, rfl, .inr ⟨rfl, hpw⟩⟩
      | some username =>
        rw [huser] at h
        obtain rfl := PwAnswer.commands.inj h
        rcases List.mem_cons.mp hline with rfl | hline
        · exact ⟨_, username, rfl, .inl ⟨rfl, huser⟩⟩
        · obtain rfl := List.mem_singleton.mp hline
          exact ⟨_, pw, rfl, .inr ⟨rfl, hpw⟩⟩

/-- **Escaped strings are read back exactly if each of them survives**: a line of them, which is
always a single line, and every user name or password sent in answer to a request. -/
theorem read_back_iff (as : List Text) (hne : as ≠ []) (hlen : as.length ≤ maxParms)
    (h : ∀ a ∈ as, Holdable (encode a)) :
    '\n' ∉ escapedLine as ∧
    (parseLine maxParms (encode (escapedLine as)) = .ok (as.map encode) ↔ ∀ a ∈ as, Survives a) ∧
    (∀ cr argument cmds, processPWCommand cr argument = .commands cmds →
      ∀ line ∈ cmds, ∃ cmd needed value,
        line = pwCommand cmd needed value ++ ['\n'] ∧ Carries cr cmd needed value ∧
          (Holdable (encode value) →
            (parseLine maxParms (encode (pwCommand cmd needed value)) =
              .ok [encode cmd, encode needed, encode value] ↔ Survives value))) := by
  refine ⟨newline_not_mem_escapedLine as, parse_escapedLine_iff hne hlen h, ?_⟩
  intro cr argument cmds hcmds line hline
  obtain ⟨needed, pw, hpw, hlines⟩ := processPWCommand_commands hcmds
  obtain ⟨cmd, value, rfl, hcarries⟩ := hlines line hline
  refine ⟨cmd, needed, value, rfl, hcarries, fun hv => parse_answer_iff ?_ (needed_of_pw hpw) hv⟩
  rcases hcarries with ⟨hc, -⟩ | ⟨hc, -⟩
  · exact .inl hc
  · exact .inr hc

theorem read_back_sample :
    parseLine maxParms (encode (escapedLine ["it's".toList, "a \t\"b\\".toList, []])) =
      .ok [encode "it's".toList, encode "a \t\"b\\".toList, []] :=
  (read_back_iff ["it's".toList, "a \t\"b\\".toList, []] (by decide) (by decide)
    (by decide)).2.1.mpr (by decide)

/-- A tab is not quoted and splits the string, a newline is written as an illegal escape, and a
leading single quote opens a quotation. -/
theorem not_read_back :
    ¬ ∀ as : List Text, as ≠ [] → as.length ≤ maxParms → (∀ a ∈ as, Holdable (encode a)) →
      parseLine maxParms (encode (escapedLine as)) = .ok (as.map encode) := by
  intro h
  have := h ["a\tb".toList] (by decide) (by decide) (by decide)
  revert this
  decide

end VpnCore.Config
