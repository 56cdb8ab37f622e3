import VpnCore.Options.Tokens

/-!
# VpnCore.Options.ReadConfig — `read_config_file` of OpenVPN's `options.c`

The file is read byte by byte into the buffer of the current `fgets`; a chunk is complete at a
newline or when the buffer is full.  `seen` records in order what is handed to `add_option` and
where a message is printed.
-/

namespace VpnCore.Options

/-- What `read_config_file` does with what it reads. -/
inductive Seen
  | option (p : List Bytes)
  | msg
  deriving DecidableEq, Repr

/-! ## The code -/

def newline : UInt8 := '\n'.toUInt8

def doubledash : Bytes := ['-'.toUInt8, '-'.toUInt8]

def bypassDoubledash (p : Bytes) : Bytes :=
  if 3 ≤ p.length ∧ doubledash <+: p then p.drop 2 else p

/-- `check_inline_file`: the name in a line that is nothing but `<name>`. -/
def inlineTag : List Bytes → Option Bytes
  | [arg] =>
    if arg.head? = some '<'.toUInt8 ∧ arg.getLast? = some '>'.toUInt8 then some arg.tail.dropLast
    else none
  | _ => none

/-- `INLINE_FILE_TAG` -/
def inlineFileTag : Bytes := "[[INLINE]]".toList.map Char.toUInt8

def closeTag (tag : Bytes) : Bytes := ['<'.toUInt8, '/'.toUInt8] ++ tag ++ ['>'.toUInt8]

/-- What one line of the file is. -/
inductive Entry
  | nothing
  | error
  | option (p : List Bytes)
  | opens (tag : Bytes)
  deriving DecidableEq, Repr

def entry (line : Bytes) : Entry :=
  match parseLine maxParms line with
  | .error _ => .error
  | .ok [] => .nothing
  | .ok (name :: args) =>
    let p := bypassDoubledash name :: args
    match inlineTag p with
    | some tag => .opens tag
    | none => .option p

def Entry.seen : Entry → List Seen
  | .nothing => []
  | .error => [.msg]
  | .option p => [.option p]
  | .opens _ => []

/-- An inline file that is being read. -/
structure Block where
  tag : Bytes
  content : Bytes := []
  deriving DecidableEq, Repr

def Entry.block : Entry → Option Block
  | .opens tag => some { tag := tag }
  | _ => none

/-- Where `read_config_string` is. -/
structure Reader where
  seen : List Seen := []
  firstLine : Bool := true
  line : Bytes := []
  block : Option Block := none
  deriving DecidableEq, Repr

/-- The number of bytes that `fgets` stores at most. -/
def Reader.room (r : Reader) : ℕ :=
  match r.block with
  | none => optionLineSize
  | some _ => optionLineSize - 1

/-- The C string in a buffer. -/
def cstring (line : Bytes) : Bytes := line.takeWhile (· != 0)

def byteOrderMark : Bytes := [0xef, 0xbb, 0xbf]

/-- The body of the loop of `read_config_file`. -/
def Reader.readLine (r : Reader) (line : Bytes) : Reader :=
  let long := if line.length = optionLineSize then [Seen.msg] else []
  let e := entry (if r.firstLine && byteOrderMark.isPrefixOf line then line.drop 3 else line)
  { seen := r.seen ++ long ++ e.seen, firstLine := false, line := [], block := e.block }

/-- The test of `read_inline_file` for the end of the file. -/
def closes (tag line : Bytes) : Bool := (closeTag tag).isPrefixOf (line.dropWhile isspace)

/-- The body of the loop of `read_inline_file`. -/
def Reader.readInline (r : Reader) (b : Block) (line : Bytes) : Reader :=
  if closes b.tag line then
    { r with
      seen := r.seen ++ [.option [b.tag, inlineFileTag, b.content]], line := [], block := none }
  else { r with line := [], block := some { b with content := b.content ++ line } }

def Reader.take (r : Reader) : Reader :=
  match r.block with
  | none => r.readLine (cstring r.line)
  | some b => r.readInline b (cstring r.line)

/-- The next byte in the buffer of `fgets`. -/
def Reader.store (r : Reader) (c : UInt8) : Reader := { r with line := r.line ++ [c] }

def Reader.step (r : Reader) (c : UInt8) : Reader :=
  if c = newline ∨ (r.line ++ [c]).length = r.room then (r.store c).take else r.store c

def Reader.after (r : Reader) (bs : Bytes) : Reader := bs.foldl Reader.step r

end VpnCore.Options
