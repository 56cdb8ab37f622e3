import VpnCore.Config.Strings

/-!
# VpnCore.Config.ParseConfig — `ConfigParser.parseConfig`

The options of a file are collected in a map from their names to the lines that give them, in the
order of the file.  The map is a list of entries; `get` returns the value of a key and `remove`
deletes it.
-/

namespace VpnCore.Config

/-- `Vector<String>`: the name of an option and its arguments. -/
abbrev OptionLine := List Text

/-- `HashMap<String, Vector<Vector<String>>>` -/
abbrev OptionMap := List (Text × List OptionLine)

namespace OptionMap

def get (o : OptionMap) (key : Text) : Option (List OptionLine) := o.lookup key

def containsKey (o : OptionMap) (key : Text) : Bool := (o.get key).isSome

def remove (o : OptionMap) (key : Text) : OptionMap := o.filter fun e => e.1 != key

def put (o : OptionMap) (key : Text) (lines : List OptionLine) : OptionMap :=
  o.remove key ++ [(key, lines)]

/-- A line more for an option, which is new or has some already. -/
def add (o : OptionMap) (key : Text) (line : OptionLine) : OptionMap :=
  o.put key ((o.get key).getD [] ++ [line])

end OptionMap

/-- `VpnProfile.INLINE_TAG` -/
def inlineMark : Text := "[[INLINE]]".toList

/-- A `ConfigParser` and the variables of `parseConfig`; `inlined` are those of `checkinlinefile`,
as long as it reads the lines of an inline file.  The field `meta` is called `metadata`. -/
structure Parser where
  options : OptionMap := []
  metadata : List (Text × List Text) := []
  firstLine : Bool := true
  inlined : Option (Text × Text) := none
  deriving DecidableEq, Repr

def zipArchiveError : Thrown :=
  .configParseError ("Input looks like a ZIP Archive. Import is only possible for OpenVPN " ++
    "config files (.ovpn/.conf)").toList

/-- In `"PK\007\008"` the second escape is `\00`. -/
def looksLikeZip (line : Text) : Bool :=
  startsWith line ['P', 'K', '\x03', '\x04'] || startsWith line ['P', 'K', '\x07', '\x00', '8']

def accessServerMark : Text := "# OVPN_ACCESS_SERVER_".toList

/-- `parsemeta`: a name and, after the first `=`, a value. -/
def parsemeta (line : Text) : List Text :=
  let text := line.drop accessServerMark.length
  match textAfter ['='] text with
  | none => [text]
  | some value => [text.takeWhile (· != '='), value]

def optionAlias (optionname : Text) : Text :=
  if optionname = "server-poll-timeout".toList then "timeout-connect".toList else optionname

/-- The end of an iteration: the line is added under its name. -/
def Parser.addLine (s : Parser) (args : OptionLine) : Parser :=
  { s with options := s.options.add (optionAlias (args.headD [])) args, inlined := none }

/-- The test of `checkinlinefile`: the name of an inline file. -/
def inlineName (args : OptionLine) : Option Text :=
  let arg0 := trim (args.headD [])
  if startsWith arg0 ['<'] && endsWith arg0 ['>'] then some arg0.tail.dropLast else none

def endtag (argname : Text) : Text := "</".toList ++ argname ++ ['>']

/-- A line inside of an inline file. -/
def Parser.inlineLine (s : Parser) (argname inlinefile line : Text) : Parser :=
  if trim line = endtag argname then
    let content := if endsWith inlinefile ['\n'] then inlinefile.dropLast else inlinefile
    s.addLine [argname, content]
  else { s with inlined := some (argname, inlinefile ++ line ++ ['\n']) }

def stripDashes (args : OptionLine) : OptionLine :=
  match args with
  | [] => []
  | name :: rest => if startsWith name "--".toList then name.drop 2 :: rest else name :: rest

/-- An iteration of the loop in `parseConfig` with the line after the checks of the first one. -/
def Parser.optionLine (s : Parser) (line : Text) : Except Thrown Parser := do
  if startsWith line accessServerMark then
    let metaarg := parsemeta line
    return { s with
      metadata := s.metadata.filter (fun e => e.1 != metaarg.headD []) ++
        [(metaarg.headD [], metaarg)] }
  let args ← parseline line
  if args.isEmpty then return s
  let args := stripDashes args
  match inlineName args with
  | some argname => return { s with inlined := some (argname, inlineMark) }
  | none => return s.addLine args

/-- One line of the file. -/
def Parser.line (s : Parser) (line : Text) : Except Thrown Parser :=
  match s.inlined with
  | some (argname, inlinefile) => .ok (s.inlineLine argname inlinefile line)
  | none =>
    if s.firstLine then
      if looksLikeZip line then .error zipArchiveError
      else { s with firstLine := false }.optionLine (if startsWith line ['\ufeff'] then line.tail else line)
    else s.optionLine line

def noEndtagError (argname : Text) : Thrown :=
  .configParseError ("No endtag </".toList ++ argname ++ "> for starttag <".toList ++ argname ++
    "> found".toList)

/-- `ConfigParser.parseConfig`. -/
def parseConfig (text : Text) : Except Thrown Parser := do
  let s ← (readLines text).foldlM Parser.line {}
  match s.inlined with
  | some (argname, _) => throw (noEndtagError argname)
  | none => return s

end VpnCore.Config
