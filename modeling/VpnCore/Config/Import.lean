import VpnCore.Config.Groups

/-!
# VpnCore.Config.Import — how an import ends

`parseConfig` throws nothing but `ConfigParseError`s and `convertProfile` reads the groups of options one
after the other, the connections last.  A `connection` block is a file of its own; its text is cut out
of the argument without a look at the argument's length.  `Escapes` collects on the lines of the file
what lets another exception out or does not end, and `import_iff` says that there is nothing else.
-/

namespace VpnCore.Config

open VpnCore.Lib Route

variable {o : OptionMap} {K : List String} {s : OptionMap}

/-! ## Connections -/

/-- The protocol is one that `isUdpProto` knows. -/
def KnownProto (proto : Text) : Prop := (isUdpProto proto).isOk = true

theorem isUdpProto_ends (proto : Text) :
    EndsIn (KnownProto proto) False (fun _ => True) (isUdpProto proto) := by
  rw [KnownProto, isUdpProto]
  split_ifs
  · exact .returns rfl id trivial
  · exact .returns rfl id trivial
  · exact .declared (by simp [Except.isOk, Except.toBool]) id trivial

/-- The port, the protocol and the timeout are read. -/
structure PortOk (o : OptionMap) : Prop where
  arities : Arities o [("port", 1, 1), ("rport", 1, 1), ("proto", 1, 1), ("connect-timeout", 1, 1)]
  proto : ∀ t, lastArg o "proto" 1 = some t → KnownProto t
  timeout : ∀ t, lastArg o "connect-timeout" 1 = some t → IsInteger t

theorem readPort_ends (c : Connection) (hs : LeftBy o K s)
    (hK : ∀ k ∈ ["port", "rport", "proto", "connect-timeout"], k ∉ K) :
    EndsIn (PortOk o) False
      (fun r => LeftBy o (["connect-timeout", "proto", "rport", "port"] ++ K) r.2)
      ((readPort c).run s) := by
  unfold readPort
  refine Ends.of_iff (p := Arity o "port" 1 1 ∧ Arity o "rport" 1 1 ∧ Arity o "proto" 1 1 ∧
    (∀ t, lastArg o "proto" 1 = some t → KnownProto t) ∧ Arity o "connect-timeout" 1 1 ∧
    ∀ t, lastArg o "connect-timeout" 1 = some t → IsInteger t) (e := False) ?_
    ⟨fun ⟨h1, h2, h3, h4, h5, h6⟩ => ⟨⟨h1, h2, h3, h5, trivial⟩, h4, h6⟩,
      fun ⟨⟨h1, h2, h3, h5, _⟩, h4, h6⟩ => ⟨h1, h2, h3, h4, h5, h6⟩⟩ Iff.rfl
  refine (getArgument_ends hs (hK "port" (by simp))).fine fun r _ hr => ?_
  refine (getArgument_ends hr.2 (by simpa using hK "rport" (by simp))).fine fun r _ hr => ?_
  refine (getArgument_ends hr.2 (by simpa using hK "proto" (by simp))).fine ?_
  rintro ⟨proto, s⟩ - ⟨hproto, hs⟩
  extract_lets jp
  dsimp only at hproto hs
  have hrest : ∀ b, EndsIn (Arity o "connect-timeout" 1 1 ∧
      ∀ t, lastArg o "connect-timeout" 1 = some t → IsInteger t) False
      (fun r => LeftBy o (["connect-timeout", "proto", "rport", "port"] ++ K) r.2)
      ((jp b).run s) := by
    intro b
    refine (getArgument_ends hs (by simpa using hK "connect-timeout" (by simp))).fine ?_
    rintro ⟨timeout, s⟩ - ⟨htimeout, hs⟩
    extract_lets jp'
    dsimp only at htimeout hs
    have hret : ∀ n, EndsIn True False
        (fun r => LeftBy o (["connect-timeout", "proto", "rport", "port"] ++ K) r.2)
        ((jp' n).run s) := fun n => ends_ok hs
    rw [← htimeout]
    cases timeout with
    | none => exact (hret c.mConnectTimeout).of_iff (by simp) Iff.rfl
    | some t =>
      exact (ends_lift (integerArgument_ends _ t) fun n _ _ => hret n).of_iff (by simp) (by simp)
  rw [← hproto]
  cases proto with
  | none => exact (hrest c.mUseUdp).of_iff (by simp) Iff.rfl
  | some t => exact (ends_lift (isUdpProto_ends t) fun b _ _ => hrest b).of_iff (by simp) (by simp)

/-- The proxy is read; `http-proxy` counts only without a `socks-proxy`. -/
structure ProxyOk (o : OptionMap) : Prop where
  socks : Arity o "socks-proxy" 1 2
  http : linesOf o "socks-proxy" = [] → Arity o "http-proxy" 2 2
  auth : Arity o "http-proxy-user-pass" 1 1

theorem readProxyOption_ends (hs : LeftBy o K s) (hK : ∀ k ∈ ["socks-proxy", "http-proxy"], k ∉ K) :
    EndsIn (Arity o "socks-proxy" 1 2 ∧ (linesOf o "socks-proxy" = [] → Arity o "http-proxy" 2 2))
      False
      (fun r => (∀ proxy ∈ r.1, wrongLength 1 2 proxy = false) ∧
        LeftBy o (["http-proxy", "socks-proxy"] ++ K) r.2) (readProxyOption.run s) := by
  refine (getOption_ends hs (hK "socks-proxy" (by simp))).fine ?_
  rintro ⟨line, s⟩ harity ⟨hline, hs⟩
  dsimp only at hline hs
  cases line with
  | some line =>
    have hmem := List.mem_of_getLast? hline.symm
    refine .returns (fun h => ?_) id ⟨?_, hs.mono fun k hk => List.mem_cons_of_mem _ hk⟩
    · rw [h] at hmem
      cases hmem
    · intro proxy hproxy
      exact Option.some.inj hproxy ▸ harity line hmem
  | none =>
    have hnil : linesOf o "socks-proxy" = [] := List.getLast?_eq_none_iff.mp hline.symm
    refine Ends.of_iff ((getOption_ends hs (by simpa using hK "http-proxy" (by simp))).weaken
      fun r harity hr => ⟨fun proxy hproxy => ?_, hr.2⟩) (by simp [hnil]) Iff.rfl
    rw [hr.1] at hproxy
    obtain ⟨a, b, c, rfl⟩ :=
      shape_of_wrongLength_two_two (harity proxy (List.mem_of_getLast? hproxy))
    rfl

theorem convertProxy_ends {proxy : OptionLine} (h : wrongLength 1 2 proxy = false)
    (c : Connection) : EndsIn True False (fun _ => True) (convertProxy c proxy) := by
  rcases shape_of_wrongLength_one_two h with ⟨a, b, rfl⟩ | ⟨a, b, d, rfl⟩
  · exact ends_ok trivial
  · exact ends_ok trivial

theorem readProxy_ends (c : Connection) (hs : LeftBy o K s)
    (hK : ∀ k ∈ ["socks-proxy", "http-proxy", "http-proxy-user-pass"], k ∉ K) :
    EndsIn (ProxyOk o) False
      (fun r => LeftBy o (["http-proxy-user-pass", "http-proxy", "socks-proxy"] ++ K) r.2)
      ((readProxy c).run s) := by
  unfold readProxy
  refine Ends.of_iff ((readProxyOption_ends hs fun k hk => hK k (by simp at hk ⊢; tauto)).fine
    (q := Arity o "http-proxy-user-pass" 1 1) ?_)
    ⟨fun ⟨⟨h1, h2⟩, h3⟩ => ⟨h1, h2, h3⟩, fun ⟨h1, h2, h3⟩ => ⟨⟨h1, h2⟩, h3⟩⟩ Iff.rfl
  rintro ⟨proxy, s⟩ - ⟨hproxy, hs⟩
  extract_lets jp
  dsimp only at hproxy hs
  have hrest : ∀ c, EndsIn (Arity o "http-proxy-user-pass" 1 1) False
      (fun r => LeftBy o (["http-proxy-user-pass", "http-proxy", "socks-proxy"] ++ K) r.2)
      ((jp c).run s) := by
    intro c
    refine Ends.of_iff ((getArgument_ends hs
      (by simpa using hK "http-proxy-user-pass" (by simp))).fine (q := True) ?_) (by simp) Iff.rfl
    rintro ⟨_ | auth, s⟩ - ⟨-, hs⟩
    · exact ends_ok hs
    · exact ends_ok hs
  cases proxy with
  | none => exact hrest c
  | some proxy =>
    exact (ends_lift (convertProxy_ends (hproxy proxy rfl) c) fun c _ _ => hrest c).of_iff
      (by simp) (by simp)

/-- The names of `connectionOptions`. -/
def connectionNames : List String := connectionOptions.map String.ofList

theorem readCustomOptions_ends (order : MapOrder) (inBlock : Bool) (c : Connection)
    (hs : LeftBy o K s) :
    EndsIn True False (fun r => inBlock = false → LeftBy o (connectionNames ++ K) r.2)
      ((readCustomOptions order inBlock c).run s) := by
  refine ends_ok ?_
  rintro rfl
  refine hs.filter connectionNames fun option hoption e _ he => ?_
  rw [takesOption, Bool.false_or, Bool.not_eq_true', List.contains_eq_mem, decide_eq_false_iff_not, he]
  exact fun hmem => hoption (List.mem_map.mpr ⟨_, hmem, String.ofList_toList⟩)

/-- The protocol of a `remote` line, if it has one. -/
def RemoteOk (remote : OptionLine) : Prop := ∀ proto, remote[3]? = some proto → KnownProto proto

theorem convertRemote_ends {line : OptionLine} (h : wrongLength 1 3 line = false) (c : Connection) :
    EndsIn (RemoteOk line) False (fun _ => True) (convertRemote c line) := by
  rw [wrongLength] at h
  rcases line with _ | ⟨_, _ | ⟨_, _ | ⟨_, _ | ⟨proto, _ | ⟨_, _⟩⟩⟩⟩⟩
  · simp at h
  · simp at h
  · exact .returns (by simp [RemoteOk]) id trivial
  · exact .returns (by simp [RemoteOk]) id trivial
  · exact ((isUdpProto_ends proto).fine fun _ _ _ => ends_ok trivial).of_iff (by simp [RemoteOk])
      Iff.rfl
  · simp at h

/-- The options of a connection are read. -/
structure ConnectionOk (o : OptionMap) : Prop where
  port : PortOk o
  proxy : ProxyOk o
  arity : Arity o "remote" 1 3
  remote : ∀ line ∈ linesOf o "remote", RemoteOk line

/-- The options that are read for a connection. -/
def connectionKeys : List String :=
  ["remote", "http-proxy-user-pass", "http-proxy", "socks-proxy", "connect-timeout", "proto", "rport",
    "port"]

theorem parseConnectionOptions_ends (order : MapOrder) (connDefault : Option Connection)
    (hs : LeftBy o K s) (hK : ∀ k ∈ connectionKeys, k ∉ K) :
    EndsIn (ConnectionOk o) False
      (fun r => r.1.2.length = (linesOf o "remote").length ∧
        (connDefault = none → LeftBy o (connectionNames ++ connectionKeys ++ K) r.2))
      ((parseConnectionOptions order connDefault).run s) := by
  unfold parseConnectionOptions
  refine Ends.of_iff (p := PortOk o ∧ ProxyOk o ∧ Arity o "remote" 1 3 ∧ True ∧
    ∀ line ∈ linesOf o "remote", RemoteOk line) (e := False) ?_
    ⟨fun ⟨h1, h2, h3, _, h4⟩ => ⟨h1, h2, h3, h4⟩, fun ⟨h1, h2, h3, h4⟩ => ⟨h1, h2, h3, trivial, h4⟩⟩
    Iff.rfl
  have hfresh : ∀ k ∈ connectionKeys, ∀ read : List String, k ∉ read → k ∉ read ++ K :=
    fun k hk read hread hmem => (List.mem_append.mp hmem).elim hread (hK k hk)
  refine (readPort_ends _ hs fun k hk => hK k (by revert k; decide)).fine fun r _ hs => ?_
  refine (readProxy_ends _ hs fun k hk => ?_).fine fun r _ hs => ?_
  · refine hfresh k ?_ _ ?_ <;> revert k <;> decide
  refine (getAllOption_ends hs (hfresh "remote" (by decide)
    (["http-proxy-user-pass", "http-proxy", "socks-proxy", "connect-timeout", "proto", "rport", "port"])
    (by decide))).fine ?_
  rintro ⟨remotes, s⟩ harity ⟨hremotes, hs⟩
  dsimp only at hremotes hs
  change EndsIn _ _ _ ((readCustomOptions order connDefault.isSome r.1 >>= _ : Convert _).run s)
  rw [StateT.run_bind]
  refine (readCustomOptions_ends order connDefault.isSome r.1 hs).fine ?_
  rintro ⟨conn, s⟩ - hs
  have hlines : linesOf o "remote" = remotes.getD [] := by rw [linesOf, hremotes]
  rw [hlines]
  refine Ends.of_iff (ends_lift (ends_mapM fun line hline => convertRemote_ends
    (harity line (hlines ▸ hline)) conn) (q := True) (d := False) fun connections _ hlen =>
      ends_ok ⟨hlen, fun hnone => ?_⟩) (by simp) (by simp [firstEscapes_false])
  exact hs (by rw [hnone]; rfl)

/-! ## The parser -/

theorem loop_badBackslash {e : Thrown} : ∀ (line : Text) (s : Line),
    loop Line.body s line = .failed e → e = badBackslashError
  | [], _, h => by cases h
  | c :: line, s, h => by
    rw [loop] at h
    cases hbody : s.body c with
    | running s' =>
      rw [hbody] at h
      exact loop_badBackslash line s' h
    | stopped s' =>
      rw [hbody] at h
      cases h
    | failed e' =>
      rw [hbody] at h
      obtain rfl := Loop.failed.inj h
      rw [Line.body] at hbody
      split_ifs at hbody
      split at hbody
      · cases hbody
      · dsimp only at hbody
        split_ifs at hbody
        exact (Loop.failed.inj hbody).symm

theorem parseline_error {line : Text} {e : Thrown} (h : parseline line = .error e) :
    e = badBackslashError := by
  rw [parseline] at h
  split_ifs at h
  split at h
  · cases h
  · cases h
  · next e' hloop =>
    obtain rfl := Except.error.inj h
    exact loop_badBackslash _ _ hloop

/-- An option in the map has a line. -/
def NoEmpty (o : OptionMap) : Prop := ∀ key, o.get key ≠ some []

theorem NoEmpty.add (h : NoEmpty o) (key : Text) (line : OptionLine) : NoEmpty (o.add key line) := by
  intro k
  rw [OptionMap.add, OptionMap.put, OptionMap.get]
  by_cases hk : k = key
  · subst hk
    rw [List.lookup_append]
    have hnone : (o.remove k).lookup k = none := by
      rw [List.lookup_eq_none_iff]
      intro e he
      exact bne_iff_ne.mpr (bne_iff_ne.mp (List.mem_filter.mp he).2).symm
    rw [hnone, Option.none_or, List.lookup_cons, beq_self_eq_true]
    simp
  · rw [lookup_append_of_ne hk, OptionMap.remove, lookup_filter]
    · exact h k
    · rintro e - rfl
      exact bne_iff_ne.mpr hk

/-- The parser throws nothing but `ConfigParseError`s, and no option is without a line. -/
abbrev Parses (x : Except Thrown Parser) : Prop :=
  Declares Thrown.IsDeclared (fun p => NoEmpty p.options) x

theorem optionLine_parses {p : Parser} (hp : NoEmpty p.options) (line : Text) :
    Parses (p.optionLine line) := by
  unfold Parser.optionLine
  split_ifs
  · exact hp
  · cases hline : parseline line with
    | error e =>
      obtain rfl := parseline_error hline
      exact trivial
    | ok args =>
      change Parses (if _ then _ else _)
      split_ifs
      · exact hp
      · split
        · exact hp
        · exact hp.add _ _

theorem line_parses {p : Parser} (hp : NoEmpty p.options) (line : Text) : Parses (p.line line) := by
  rw [Parser.line]
  cases p.inlined with
  | some inlined =>
    change NoEmpty (Parser.inlineLine p inlined.1 inlined.2 line).options
    unfold Parser.inlineLine
    by_cases hend : trim line = endtag inlined.1
    · rw [if_pos hend]
      exact hp.add _ _
    · rw [if_neg hend]
      exact hp
  | none =>
    have hstart : ∀ l, Parses ({ p with firstLine := false, inlined := none }.optionLine l) := by
      intro l
      refine optionLine_parses ?_ l
      exact hp
    change Parses (if _ then if _ then _ else _ else _)
    split_ifs
    · exact trivial
    · exact hstart _
    · exact hstart _
    · exact optionLine_parses hp line

theorem parseConfig_parses (text : Text) : Parses (parseConfig text) := by
  have hempty : NoEmpty ({} : Parser).options := fun key h => by cases h
  refine (declares_foldlM (fun p line hp => line_parses hp line) (readLines text) {} hempty).bind
    fun p hp => ?_
  cases p.inlined with
  | some inlined => exact trivial
  | none => exact hp

/-! ## Blocks -/

/-- A block with an argument that is long enough is a file with one connection. -/
structure BlockOk (connection : Text) : Prop where
  length : utf16Length inlineMark ≤ utf16Length connection
  connection : ∃ parser, parseConfig (substring (utf16Length inlineMark) connection) = .ok parser ∧
    ConnectionOk parser.options ∧ (linesOf parser.options "remote").length = 1

/-- The argument is shorter than the mark that is cut off. -/
def ShortBlock (connection : Text) : Prop := utf16Length connection < utf16Length inlineMark

theorem BlockOk.iff_of_ok {connection : Text} {parser : Parser}
    (hlen : utf16Length inlineMark ≤ utf16Length connection)
    (h : parseConfig (substring (utf16Length inlineMark) connection) = .ok parser) :
    BlockOk connection ↔
      ConnectionOk parser.options ∧ (linesOf parser.options "remote").length = 1 := by
  refine ⟨fun ⟨_, parser', h', hok⟩ => ?_, fun hok => ⟨hlen, parser, h, hok⟩⟩
  rw [h] at h'
  exact Except.ok.inj h' ▸ hok

theorem parseConnection_ends {parser : Parser} (order : MapOrder) (defaultValues : Connection)
    {connection : Text} (hlen : utf16Length inlineMark ≤ utf16Length connection)
    (hparse : parseConfig (substring (utf16Length inlineMark) connection) = .ok parser) :
    EndsIn (ConnectionOk parser.options) False
      (fun r => r.2.length = (linesOf parser.options "remote").length)
      (parseConnection order defaultValues connection) := by
  rw [parseConnection, if_neg (not_lt.mpr hlen), hparse]
  have hconn := parseConnectionOptions_ends order (some defaultValues) (leftBy_nil parser.options)
    (by simp)
  exact (hconn.fine fun r _ hr => ends_ok hr.1).of_iff (by simp) Iff.rfl

theorem convertBlock_ends (order : MapOrder) (defaultValues : Connection) {conn : OptionLine}
    (h : wrongLength 1 1 conn = false) :
    EndsIn (BlockOk (conn.getD 1 [])) (ShortBlock (conn.getD 1 [])) (fun _ => True)
      (convertBlock order defaultValues conn) := by
  obtain ⟨name, connection, rfl⟩ := shape_of_wrongLength_one_one h
  change EndsIn (BlockOk connection) (ShortBlock connection) _
    (parseConnection order defaultValues connection >>= _)
  by_cases hshort : utf16Length connection < utf16Length inlineMark
  · rw [parseConnection, if_pos hshort]
    exact .escapes (fun h => absurd h.length (not_le.mpr hshort)) hshort id
  · have hlen := not_lt.mp hshort
    have hparses := parseConfig_parses (substring (utf16Length inlineMark) connection)
    cases hparse : parseConfig (substring (utf16Length inlineMark) connection) with
    | error e =>
      rw [hparse] at hparses
      rw [parseConnection, if_neg hshort, hparse]
      refine .declared (fun hok => ?_) hshort hparses
      obtain ⟨_, parser, h, _⟩ := hok
      rw [hparse] at h
      cases h
    | ok parser =>
      refine Ends.of_iff ((parseConnection_ends order defaultValues hlen hparse).fine
        (q := (linesOf parser.options "remote").length = 1) ?_)
        (BlockOk.iff_of_ok hlen hparse).symm ⟨False.elim, fun h => hshort h⟩
      rintro ⟨conn, connections⟩ - hlength
      rw [← hlength]
      rcases connections with _ | ⟨c, _ | ⟨_, _⟩⟩
      · exact .declared (by simp) id trivial
      · exact .returns rfl id trivial
      · exact .declared (by simp) id trivial

/-- The connections are read: from `remote` lines or from blocks, not from both. -/
structure ConnectionsOk (o : OptionMap) : Prop where
  options : ConnectionOk o
  arity : Arity o "connection" 1 1
  blocks : linesOf o "connection" ≠ [] →
    linesOf o "remote" = [] ∧ ∀ line ∈ linesOf o "connection", BlockOk (line.getD 1 [])

/-- The first block that is not read is too short. -/
structure BlocksEscape (o : OptionMap) : Prop where
  options : ConnectionOk o
  arity : Arity o "connection" 1 1
  remote : linesOf o "remote" = []
  blocks : FirstEscapes (fun line : OptionLine => BlockOk (line.getD 1 []))
    (fun line => ShortBlock (line.getD 1 [])) (linesOf o "connection")

theorem readConnections_ends (order : MapOrder) (hne : o.get "connection".toList ≠ some [])
    (hs : LeftBy o K s) (hK : ∀ k ∈ "connection" :: connectionKeys, k ∉ K) :
    EndsIn (ConnectionsOk o) (BlocksEscape o)
      (fun r => LeftBy o ("connection" :: (connectionNames ++ connectionKeys ++ K)) r.2)
      ((readConnections order).run s) := by
  unfold readConnections
  have hfresh : "connection" ∉ connectionNames ++ connectionKeys ++ K := by
    rw [List.mem_append, not_or]
    exact ⟨by decide, hK "connection" List.mem_cons_self⟩
  refine Ends.of_iff ((parseConnectionOptions_ends order none hs
      fun k hk => hK k (List.mem_cons_of_mem _ hk)).andThen
    (q := Arity o "connection" 1 1 ∧ (linesOf o "connection" ≠ [] →
      linesOf o "remote" = [] ∧ ∀ line ∈ linesOf o "connection", BlockOk (line.getD 1 [])))
    (d := Arity o "connection" 1 1 ∧ linesOf o "remote" = [] ∧
      FirstEscapes (fun line : OptionLine => BlockOk (line.getD 1 []))
        (fun line => ShortBlock (line.getD 1 [])) (linesOf o "connection")) ?_)
    ⟨fun ⟨h1, h2, h3⟩ => ⟨h1, h2, h3⟩, fun ⟨h1, h2, h3⟩ => ⟨h1, h2, h3⟩⟩
    ⟨fun ⟨h1, h2, h3, h4⟩ => ⟨h1, h2, h3, h4⟩, fun ⟨h1, h2, h3, h4⟩ => ⟨h1, h2, h3, h4⟩⟩
  rintro ⟨⟨conn, connections⟩, s⟩ - ⟨hlen, hleft⟩
  refine (getAllOption_ends (hleft rfl) hfresh).andThen ?_
  rintro ⟨blocks, s⟩ harity ⟨hblocks, hs⟩
  dsimp only at hblocks hs hlen
  cases blocks with
  | none =>
    have hnil := linesOf_eq_nil hblocks.symm
    refine .returns ?_ ?_ hs
    · simp [hnil]
    · simp [hnil, FirstEscapes]
  | some blocks =>
    have hlines := linesOf_eq hblocks.symm
    have hcons : blocks ≠ [] := fun h => hne (by rw [← hblocks, h])
    rw [Arity, hlines] at harity
    rw [hlines]
    by_cases hnone : linesOf o "remote" = []
    · have hempty : connections = [] := by
        rw [← List.length_eq_zero_iff, hlen, hnone, List.length_nil]
      subst hempty
      refine Ends.of_iff (ends_liftM (ends_mapM fun line hline =>
        convertBlock_ends order conn (harity line hline)) fun _ _ => hs) ?_ ?_
      · simp [hcons, hnone]
      · simp [hnone]
    · have hne' : connections ≠ [] := by
        rintro rfl
        exact hnone (List.length_eq_zero_iff.mp hlen.symm)
      obtain ⟨c, rest, rfl⟩ := List.exists_cons_of_ne_nil hne'
      exact .declared (fun h => hnone (h hcons).1) (fun h => hnone h.1) trivial

/-! ## The profile -/

def settingTable : List (String × ℕ × ℕ) :=
  [("remote-random-hostname", 0, 0), ("float", 0, 0), ("comp-lzo", 0, 1), ("cipher", 1, 1),
    ("auth", 1, 1)]

def sessionTable : List (String × ℕ × ℕ) :=
  [("verb", 1, 1), ("nobind", 0, 0), ("persist-tun", 0, 0), ("push-peer-info", 0, 0)]

/-- The options before the addresses are read. -/
structure DeviceOk (o : OptionMap) : Prop where
  secret : Arity o "secret" 1 2
  routes : RoutesOk o
  keys : Arities o keyTable
  redirect : Arities o [("redirect-gateway", 0, 7), ("redirect-private", 0, 5)]
  dev : Arities o [("dev", 1, 1), ("dev-type", 1, 1)] ∧ TunOnly o
  mtu : MtuOk o
  mode : ModeOk o

/-- The options before `auth-retry` are read. -/
structure UserOk (o : OptionMap) : Prop where
  device : DeviceOk o
  addresses : AddressesOk o
  settings : Arities o settingTable
  files : Arities o fileTable
  peer : PeerOk o
  session : Arities o sessionTable
  retrying : Arities o [("connect-retry", 1, 2), ("connect-retry-max", 1, 1)]
  remoteCert : Arity o "remote-cert-tls" 1 1
  authUser : Arity o "auth-user-pass" 0 1

/-- Where the conversion leaves its declared ways: the lines that it reaches, and that all before
are read. -/
inductive Escapes (o : OptionMap) : Prop
  | route : Arity o "secret" 1 2 → RoutesEndless o → Escapes o
  | ifconfig : DeviceOk o → AddressesEscape o → Escapes o
  | authRetry : UserOk o → AuthRetryEscapes o → Escapes o
  | connection : UserOk o → AuthRetryOk o → Arity o "crl-verify" 1 2 → BlocksEscape o → Escapes o

theorem Escapes.secret (h : Escapes o) : Arity o "secret" 1 2 := by
  cases h with
  | route h _ => exact h
  | ifconfig h _ => exact h.secret
  | authRetry h _ => exact h.device.secret
  | connection h _ _ _ => exact h.device.secret

theorem Escapes.device (h : Escapes o) : RoutesEndless o ∨ DeviceOk o := by
  cases h with
  | route _ h => exact .inl h
  | ifconfig h _ => exact .inr h
  | authRetry h _ => exact .inr h.device
  | connection h _ _ _ => exact .inr h.device

theorem Escapes.user (h : Escapes o) :
    RoutesEndless o ∨ AddressesEscape o ∨ UserOk o := by
  cases h with
  | route _ h => exact .inl h
  | ifconfig _ h => exact .inr (.inl h)
  | authRetry h _ => exact .inr (.inr h)
  | connection h _ _ _ => exact .inr (.inr h)

theorem Escapes.connections (h : Escapes o) :
    RoutesEndless o ∨ AddressesEscape o ∨ AuthRetryEscapes o ∨
      AuthRetryOk o ∧ Arity o "crl-verify" 1 2 ∧ BlocksEscape o := by
  cases h with
  | route _ h => exact .inl h
  | ifconfig _ h => exact .inr (.inl h)
  | authRetry _ h => exact .inr (.inr (.inl h))
  | connection _ h1 h2 h3 => exact .inr (.inr (.inr ⟨h1, h2, h3⟩))

theorem disablesUdp_ends (proto : Text) :
    EndsIn ((disablesUdp proto).isOk = true) False (fun _ => True) (disablesUdp proto) := by
  rw [disablesUdp]
  split_ifs
  · exact .returns rfl id trivial
  · exact .returns rfl id trivial
  · exact .declared (by simp [Except.isOk, Except.toBool]) id trivial

theorem readProtoForce_ends (conns : List Connection) (hs : LeftBy o K s) (hK : "proto-force" ∉ K) :
    EndsIn (Arity o "proto-force" 1 1 ∧
        ∀ t, lastArg o "proto-force" 1 = some t → (disablesUdp t).isOk = true) False
      (fun _ => True) ((readProtoForce conns).run s) := by
  refine (getArgument_ends hs hK).fine ?_
  rintro ⟨proto, s⟩ - ⟨hproto, hs⟩
  dsimp only at hproto
  rw [← hproto]
  cases proto with
  | none => exact .returns (by simp) id trivial
  | some proto =>
    exact (ends_lift (q := True) (d := False) (disablesUdp_ends proto)
      fun _ _ _ => ends_ok trivial).of_iff (by simp) (by simp)

/-- The proof follows the order of the reading; `hout` says how far the options are read if something
escapes. -/
theorem readProfile_ends (order : MapOrder) (np : VpnProfile) (ho : NoEmpty o) :
    EndsUnless Thrown.IsDeclared (Escapes o) ((readProfile order np).run o) := by
  unfold readProfile
  refine .andThen (readPull_ends (leftBy_nil o)) (fun _ => trivial) fun r _ hs => ?_
  refine .andThen (readSecret_ends hs (by decide)) Escapes.secret fun r hsecret hs => ?_
  refine .bind (readRoutes_ends _ hs (by decide)) (.route hsecret)
    (fun h => h.device.imp_right DeviceOk.routes) fun r hroutes hends hs => ?_
  have hout : Escapes o → DeviceOk o := fun h => h.device.resolve_left hends
  refine .andThen (readTlsAuth_ends _ hs (by decide)) (fun h => (hout h).keys) fun r hkeys hs => ?_
  refine .andThen (readRedirect_ends _ hs (by decide)) (fun h => (hout h).redirect)
    fun r hredirect hs => ?_
  refine .andThen (readDev_ends hs (by decide)) (fun h => (hout h).dev) fun r hdev hs => ?_
  refine .andThen (readMtu_ends _ hs (by decide)) (fun h => (hout h).mtu) fun r hmtu hs => ?_
  refine .andThen (readMode_ends hs (by decide)) (fun h => (hout h).mode) fun r hmode hs => ?_
  have hdevice : DeviceOk o := ⟨hsecret, hroutes, hkeys, hredirect, hdev, hmtu, hmode⟩
  refine .bind (readAddresses_ends _ hs (by decide)) (.ifconfig hdevice)
    (fun h => (h.user.resolve_left hends).imp_right UserOk.addresses)
    fun r haddresses hmask hs => ?_
  have hout : Escapes o → UserOk o := fun h => (h.user.resolve_left hends).resolve_left hmask
  refine .andThen (getFlag_ends hs (by decide)) (fun h => (hout h).settings.1) fun r h1 hs => ?_
  refine .andThen (getFlag_ends hs.2 (by decide)) (fun h => (hout h).settings.2.1) fun r h2 hs => ?_
  refine .andThen (getFlag_ends hs.2 (by decide)) (fun h => (hout h).settings.2.2.1)
    fun r h3 hs => ?_
  refine .andThen (getArgument_ends hs.2 (by decide)) (fun h => (hout h).settings.2.2.2.1)
    fun r h4 hs => ?_
  refine .andThen (getArgument_ends hs.2 (by decide)) (fun h => (hout h).settings.2.2.2.2.1)
    fun r h5 hs => ?_
  have hsettings : Arities o settingTable := ⟨h1, h2, h3, h4, h5, trivial⟩
  refine .andThen (readFiles_ends _ _ hs.2 (by decide)) (fun h => (hout h).files)
    fun r hfiles hs => ?_
  refine .andThen (readPeerName_ends _ hs (by decide)) (fun h => (hout h).peer)
    fun r hpeer hs => ?_
  refine .andThen (getArgument_ends hs (by decide)) (fun h => (hout h).session.1) fun r h1 hs => ?_
  refine .andThen (getFlag_ends hs.2 (by decide)) (fun h => (hout h).session.2.1) fun r h2 hs => ?_
  refine .andThen (getFlag_ends hs.2 (by decide)) (fun h => (hout h).session.2.2.1)
    fun r h3 hs => ?_
  refine .andThen (getFlag_ends hs.2 (by decide)) (fun h => (hout h).session.2.2.2.1)
    fun r h4 hs => ?_
  have hsession : Arities o sessionTable := ⟨h1, h2, h3, h4, trivial⟩
  refine .andThen (readRetrying_ends _ hs.2 (by decide)) (fun h => (hout h).retrying)
    fun r hretrying hs => ?_
  refine .andThen (readRemoteCertTls_ends (ho _) hs (by decide)) (fun h => (hout h).remoteCert)
    fun r hcert hs => ?_
  refine .andThen (readAuthUser_ends _ _ hs (by decide)) (fun h => (hout h).authUser)
    fun r hauth hs => ?_
  have huser : UserOk o :=
    ⟨hdevice, haddresses, hsettings, hfiles, hpeer, hsession, hretrying, hcert, hauth⟩
  refine .bind (readAuthRetry_ends _ hs (by decide)) (.authRetry huser)
    (fun h => ((h.connections.resolve_left hends).resolve_left hmask).imp_right And.left)
    fun r hretry hmode hs => ?_
  have hout : Escapes o → Arity o "crl-verify" 1 2 ∧ BlocksEscape o := fun h =>
    (((h.connections.resolve_left hends).resolve_left hmask).resolve_left hmode).2
  refine .andThen (readCrl_ends hs (by decide)) (fun h => (hout h).1) fun r hcrl hs => ?_
  refine .bind (readConnections_ends order (ho _) hs (by decide)) (.connection huser hretry hcrl)
    (fun h => .inl (hout h).2) fun r _ hblocks hs => ?_
  have hout : ¬ Escapes o := fun h => hblocks (hout h).2
  refine .andThen (getFlag_ends hs (by decide)) (fun h => absurd h hout) fun r _ hs => ?_
  refine .andThen (readProtoForce_ends _ hs.2 (by decide)) (fun h => absurd h hout) fun r _ hs => ?_
  exact .returns hout

theorem checkIgnoreAndInvalidOptions_declares (order : MapOrder) (options : OptionMap)
    (np : VpnProfile) :
    Declares Thrown.IsDeclared (fun _ => True) (checkIgnoreAndInvalidOptions order options np) := by
  rw [checkIgnoreAndInvalidOptions]
  split
  · trivial
  · dsimp only
    split_ifs
    · trivial
    · trivial

theorem convertProfile_ends (order : MapOrder) {parser : Parser} (h : NoEmpty parser.options) :
    EndsUnless Thrown.IsDeclared (Escapes parser.options) (convertProfile order parser) :=
  (readProfile_ends order _ h).finish fun _ =>
    (checkIgnoreAndInvalidOptions_declares order _ _).bind fun _ _ => trivial

def MapOrder.asListed : MapOrder := ⟨id, fun o => List.Perm.refl o⟩

end VpnCore.Config
