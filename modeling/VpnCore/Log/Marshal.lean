import VpnCore.Config.Strings
import VpnCore.Lib.Codec
import VpnCore.Lib.Decode

/-!
# VpnCore.Log.Marshal — a `LogItem` as bytes

`getMarschaledBytes` writes an item into a buffer of 16384 bytes, and the constructor with a byte
array reads it back.  An empty message is written like one that is `null`.  It is read back as `null`,
and since the item has no resource id either, `verify` refuses it: an item with an empty message is
written but not restored.  Every other item is (`restorable_iff`).

`float` and `double` values are their bits.
-/

namespace VpnCore.Log.Marshal

open Config (Text decimal)
open Lib

/-! ## The code -/

inductive LogLevel
  | info
  | error
  | warning
  | verbose
  | debug
  deriving DecidableEq, Repr

def LogLevel.getInt : LogLevel → Int32
  | .info => 2
  | .error => -2
  | .warning => 1
  | .verbose => 3
  | .debug => 4

def LogLevel.getEnumByValue (value : Int32) : Option LogLevel :=
  if value = 2 then some .info
  else if value = -2 then some .error
  else if value = 1 then some .warning
  else if value = 3 then some .verbose
  else if value = 4 then some .debug
  else none

/-- An element of `mArgs`. -/
inductive Arg
  | string (o : Text)
  | integer (o : Int32)
  | float (bits : UInt32)
  | double (bits : UInt64)
  | long (o : Int64)
  | null
  /-- an object of another class, by its `toString()` -/
  | other (text : Text)
  deriving DecidableEq, Repr

/-- An entry of the log. -/
structure LogItem where
  args : Option (List Arg) := none
  message : Option Text := none
  ressourceId : Int32 := 0
  level : Option LogLevel := some .info
  logtime : Int64
  verbosityLevel : Int32 := -1
  deriving DecidableEq, Repr

inductive ExceptionClass
  | bufferOverflow
  | bufferUnderflow
  | indexOutOfBounds
  | negativeArraySize
  | nullPointer
  | unsupportedEncoding
  deriving DecidableEq, Repr

structure Exception where
  cls : ExceptionClass
  message : Text := []
  deriving DecidableEq, Repr

abbrev Bytes := List UInt8

/-- The operations on the `ByteBuffer`. -/
abbrev Buffer := StateT Bytes (Except Exception)

/-- `ByteBuffer.allocate(16384)` -/
def capacity : ℕ := 16384

def put (bs : Bytes) : Buffer Unit := putBytes capacity { cls := .bufferOverflow } bs

def putInt (n : Int32) : Buffer Unit := put (numberBytes 4 n.toUInt32.toNat)

def putLong (n : Int64) : Buffer Unit := put (numberBytes 8 n.toUInt64.toNat)

def putChar (c : Char) : Buffer Unit := put (numberBytes 2 c.toNat)

def putFloat (bits : UInt32) : Buffer Unit := put (numberBytes 4 bits.toNat)

def putDouble (bits : UInt64) : Buffer Unit := put (numberBytes 8 bits.toNat)

def marschalString (str : Text) : Buffer Unit := do
  putInt (Int32.ofNat (encode str).length)
  put (encode str)

def putLevel : Option LogLevel → Buffer Unit
  | none => throw { cls := .nullPointer }
  | some level => putInt level.getInt

def putMessage : Option Text → Buffer Unit
  | none => putInt 0
  | some [] => putInt 0
  | some message => marschalString message

def putArg : Arg → Buffer Unit
  | .string o => do putChar 's'; marschalString o
  | .integer o => do putChar 'i'; putInt o
  | .float bits => do putChar 'f'; putFloat bits
  | .double bits => do putChar 'd'; putDouble bits
  | .long o => do putChar 'l'; putLong o
  | .null => putChar '0'
  | .other text => do putChar 's'; marschalString text

def putArgs : Option (List Arg) → Buffer Unit
  | none => putInt 0
  | some [] => putInt 0
  | some args => do
    putInt (Int32.ofNat args.length)
    args.forM putArg

/-- `LogItem.getMarschaledBytes` on the buffer. -/
def marschal (item : LogItem) : Buffer Unit := do
  -- version
  put [0]
  putLong item.logtime
  putInt item.verbosityLevel
  putLevel item.level
  putInt item.ressourceId
  putMessage item.message
  putArgs item.args

def LogItem.getMarschaledBytes (item : LogItem) : Except Exception Bytes :=
  Prod.snd <$> (marschal item).run []

def get (n : ℕ) : Buffer Bytes := getBytes { cls := .bufferUnderflow } n

def getNumber (w : ℕ) : Buffer ℕ := Lib.getNumber { cls := .bufferUnderflow } w

def getInt : Buffer Int32 := (fun n => (UInt32.ofNat n).toInt32) <$> getNumber 4

def getLong : Buffer Int64 := (fun n => (UInt64.ofNat n).toInt64) <$> getNumber 8

def getChar : Buffer Char := Char.ofNat <$> getNumber 2

def getFloat : Buffer UInt32 := UInt32.ofNat <$> getNumber 4

def getDouble : Buffer UInt64 := UInt64.ofNat <$> getNumber 8

/-- `bb.remaining()` -/
def remaining : Buffer ℕ := List.length <$> StateT.get

/-- `new byte[len]`, `bb.get(utf8bytes)` and `new String(utf8bytes, "UTF-8")` -/
def getUtf8 (len : Int32) : Buffer Text :=
  if len.toInt < 0 then throw { cls := .negativeArraySize } else decode <$> get len.toInt.toNat

def unmarschalString : Buffer Text := do
  let len ← getInt
  getUtf8 len

def stringTooLong (len : Int32) (remaining : ℕ) : Exception where
  cls := .indexOutOfBounds
  message := ["String length ".toList, decimal len.toInt, " is bigger than remaining bytes ".toList,
    decimal remaining].flatten

def unmarschalMessage : Buffer (Option Text) := do
  let len ← getInt
  let left ← remaining
  if len.toInt = 0 then pure none
  else if (left : ℤ) < len.toInt then throw (stringTooLong len left)
  else some <$> getUtf8 len

def unknownFormatType (type : Char) : Exception where
  cls := .unsupportedEncoding
  message := "Unknown format type: ".toList ++ [type]

def unmarschalArg : Buffer Arg := do
  let type ← getChar
  match type with
  | 's' => Arg.string <$> unmarschalString
  | 'i' => Arg.integer <$> getInt
  | 'd' => Arg.double <$> getDouble
  | 'f' => Arg.float <$> getFloat
  | 'l' => Arg.long <$> getLong
  | '0' => pure Arg.null
  | type => throw (unknownFormatType type)

/-- The loop over the arguments. -/
def unmarschalLoop : ℕ → Buffer (List Arg)
  | 0 => pure []
  | n + 1 => do
    let arg ← unmarschalArg
    let args ← unmarschalLoop n
    pure (arg :: args)

def tooManyArguments : Exception where
  cls := .indexOutOfBounds
  message := "Too many arguments for Logitem to unmarschal".toList

def unmarschalArgs : Buffer (Option (List Arg)) := do
  let numArgs ← getInt
  if 30 < numArgs.toInt then
    throw tooManyArguments
  else if numArgs.toInt = 0 then pure none
  else if numArgs.toInt < 0 then throw { cls := .negativeArraySize }
  else some <$> unmarschalLoop numArgs.toInt.toNat

/-- `LogItem(byte[], int)` on the buffer. -/
def unmarschal : Buffer LogItem := do
  let _ ← get 1
  let logtime ← getLong
  let verbosityLevel ← getInt
  let level ← getInt
  let ressourceId ← getInt
  let message ← unmarschalMessage
  let args ← unmarschalArgs
  pure { args := args, message := message, ressourceId := ressourceId,
         level := LogLevel.getEnumByValue level, logtime := logtime,
         verbosityLevel := verbosityLevel }

def bytesLeft (n : ℕ) : Exception where
  cls := .unsupportedEncoding
  message := decimal n ++ " bytes left after unmarshaling everything".toList

/-- `new LogItem(in, length)` -/
def LogItem.ofBytes (bytes : Bytes) (length : ℤ) : Except Exception LogItem :=
  if length < 0 ∨ bytes.length < length then .error { cls := .indexOutOfBounds }
  else do
    let (item, left) ← unmarschal.run (bytes.take length.toNat)
    if left.isEmpty then pure item
    else throw (bytesLeft left.length)

def LogItem.verify (item : LogItem) : Bool :=
  if item.level.isNone then false
  else if item.message.isNone ∧ item.ressourceId = 0 then false
  else true

/-! ### The constructors that are used for logging -/

section Constructors

variable (logtime : Int64) (level : LogLevel)

/-- `LogItem(level, verblevel, message)` -/
def LogItem.ofVerbose (verblevel : Int32) (message : Text) : LogItem :=
  { message := some message, level := some level, verbosityLevel := verblevel, logtime := logtime }

/-- `LogItem(loglevel, msg)` -/
def LogItem.ofMessage (msg : Text) : LogItem :=
  { level := some level, message := some msg, logtime := logtime }

/-- `LogItem(loglevel, ressourceId, args)` -/
def LogItem.ofRessourceArgs (ressourceId : Int32) (args : Option (List Arg)) : LogItem :=
  { ressourceId := ressourceId, args := args, level := some level, logtime := logtime }

/-- `LogItem(loglevel, ressourceId)` -/
def LogItem.ofRessource (ressourceId : Int32) : LogItem :=
  { ressourceId := ressourceId, level := some level, logtime := logtime }

end Constructors

/-! ## What is written -/

def intBytes (n : Int32) : Bytes := numberBytes 4 n.toUInt32.toNat

def stringBytes (str : Text) : Bytes := intBytes (Int32.ofNat (encode str).length) ++ encode str

def levelBytes : Option LogLevel → Bytes
  | none => []
  | some level => intBytes level.getInt

def messageBytes : Option Text → Bytes
  | none => intBytes 0
  | some [] => intBytes 0
  | some message => stringBytes message

def argBytes : Arg → Bytes
  | .string o => numberBytes 2 's'.toNat ++ stringBytes o
  | .integer o => numberBytes 2 'i'.toNat ++ intBytes o
  | .float bits => numberBytes 2 'f'.toNat ++ numberBytes 4 bits.toNat
  | .double bits => numberBytes 2 'd'.toNat ++ numberBytes 8 bits.toNat
  | .long o => numberBytes 2 'l'.toNat ++ numberBytes 8 o.toUInt64.toNat
  | .null => numberBytes 2 '0'.toNat
  | .other text => numberBytes 2 's'.toNat ++ stringBytes text

def argsBytes : Option (List Arg) → Bytes
  | none => intBytes 0
  | some [] => intBytes 0
  | some args => intBytes (Int32.ofNat args.length) ++ args.flatMap argBytes

def LogItem.bytes (item : LogItem) : Bytes :=
  [0] ++ (numberBytes 8 item.logtime.toUInt64.toNat ++ (intBytes item.verbosityLevel ++
    (levelBytes item.level ++ (intBytes item.ressourceId ++ (messageBytes item.message ++
      argsBytes item.args)))))

theorem writes_put (bs : Bytes) : Writes capacity (put bs) bs := writes_putBytes _ bs

theorem writes_marschalString (str : Text) : Writes capacity (marschalString str) (stringBytes str) :=
  (writes_put _).bind (writes_put _)

theorem writes_putLevel (level : Option LogLevel) :
    Writes capacity (putLevel level) (levelBytes level) := by
  cases level with
  | none => exact writes_throw _ _
  | some level => exact writes_put _

theorem writes_putMessage (message : Option Text) :
    Writes capacity (putMessage message) (messageBytes message) := by
  match message with
  | none => exact writes_put _
  | some [] => exact writes_put _
  | some (c :: message) => exact writes_marschalString _

theorem writes_putArg (arg : Arg) : Writes capacity (putArg arg) (argBytes arg) := by
  cases arg with
  | string o => exact (writes_put _).bind (writes_marschalString o)
  | other text => exact (writes_put _).bind (writes_marschalString text)
  | integer o => exact (writes_put _).bind (writes_put _)
  | float bits => exact (writes_put _).bind (writes_put _)
  | double bits => exact (writes_put _).bind (writes_put _)
  | long o => exact (writes_put _).bind (writes_put _)
  | null => exact writes_put _

theorem writes_putArgs (args : Option (List Arg)) :
    Writes capacity (putArgs args) (argsBytes args) := by
  match args with
  | none => exact writes_put _
  | some [] => exact writes_put _
  | some (arg :: args) => exact (writes_put _).bind (writes_forM writes_putArg _)

/-- **What `getMarschaledBytes` returns.** -/
theorem bytes_of_getMarschaledBytes {item : LogItem} {b : Bytes}
    (h : item.getMarschaledBytes = .ok b) : b = item.bytes ∧ b.length ≤ capacity := by
  have hwrites : Writes capacity (marschal item) item.bytes :=
    (writes_put _).bind ((writes_put _).bind ((writes_put _).bind ((writes_putLevel _).bind
      ((writes_put _).bind ((writes_putMessage _).bind (writes_putArgs _))))))
  unfold LogItem.getMarschaledBytes at h
  rcases hrun : (marschal item).run [] with e | r <;> rw [hrun] at h
  · cases h
  · obtain ⟨rfl, hlen⟩ := hwrites [] r (Nat.zero_le _) hrun
    obtain rfl := Except.ok.inj h
    exact ⟨rfl, hlen⟩

/-! ## How it is read -/

theorem reads_getInt (n : Int32) : Reads getInt (intBytes n) n := by
  have hread := (reads_getNumber (w := 4) ({ cls := .bufferUnderflow } : Exception)
    n.toUInt32.toNat_lt).map fun n => (UInt32.ofNat n).toInt32
  rwa [UInt32.ofNat_toNat, Int32.toInt32_toUInt32] at hread

theorem reads_getLong (n : Int64) : Reads getLong (numberBytes 8 n.toUInt64.toNat) n := by
  have hread := (reads_getNumber (w := 8) ({ cls := .bufferUnderflow } : Exception)
    n.toUInt64.toNat_lt).map fun n => (UInt64.ofNat n).toInt64
  rwa [UInt64.ofNat_toNat, Int64.toInt64_toUInt64] at hread

theorem reads_getFloat (bits : UInt32) : Reads getFloat (numberBytes 4 bits.toNat) bits := by
  have hread := (reads_getNumber (w := 4) ({ cls := .bufferUnderflow } : Exception)
    bits.toNat_lt).map UInt32.ofNat
  rwa [UInt32.ofNat_toNat] at hread

theorem reads_getDouble (bits : UInt64) : Reads getDouble (numberBytes 8 bits.toNat) bits := by
  have hread := (reads_getNumber (w := 8) ({ cls := .bufferUnderflow } : Exception)
    bits.toNat_lt).map UInt64.ofNat
  rwa [UInt64.ofNat_toNat] at hread

theorem reads_getChar {c : Char} (h : c.toNat < 65536) :
    Reads getChar (numberBytes 2 c.toNat) c := by
  have hread := (reads_getNumber (w := 2) ({ cls := .bufferUnderflow } : Exception) h).map Char.ofNat
  rwa [Char.ofNat_toNat] at hread

/-- A length that fits into the buffer. -/
theorem toInt_ofNat_length {n : ℕ} (h : n ≤ capacity) : (Int32.ofNat n).toInt = n :=
  Int32.toInt_ofNat_of_lt (by unfold capacity at h; omega)

theorem reads_getUtf8 {str : Text} (h : (encode str).length ≤ capacity) :
    Reads (getUtf8 (Int32.ofNat (encode str).length)) (encode str) str := by
  have hread := (reads_getBytes ({ cls := .bufferUnderflow } : Exception) (encode str)).map decode
  rw [decode_encode] at hread
  unfold getUtf8
  rw [toInt_ofNat_length h, if_neg (by omega), Int.toNat_natCast]
  exact hread

theorem reads_unmarschalString {str : Text} (h : (encode str).length ≤ capacity) :
    Reads unmarschalString (stringBytes str) str :=
  (reads_getInt _).bind (reads_getUtf8 h)

/-- What is read for a message. -/
def messageRead : Option Text → Option Text
  | some [] => none
  | message => message

/-- What is left in the buffer is at least what is read next. -/
theorem reads_remaining {γ : Type} {f : ℕ → Buffer γ} {bs : Bytes} {c : γ}
    (h : ∀ left, bs.length ≤ left → Reads (f left) bs c) : Reads (remaining >>= f) bs c := by
  intro rest
  exact h _ (by rw [List.length_append]; omega) rest

theorem reads_unmarschalMessage {message : Option Text}
    (h : (messageBytes message).length ≤ capacity) :
    Reads unmarschalMessage (messageBytes message) (messageRead message) := by
  have hnull : Reads unmarschalMessage (intBytes 0) none := by
    rw [← List.append_nil (intBytes 0)]
    exact (reads_getInt 0).bind (reads_remaining fun left _ => reads_pure none)
  match message with
  | none => exact hnull
  | some [] => exact hnull
  | some (c :: cs) =>
    have hlen : (encode (c :: cs)).length ≤ capacity := by
      change (intBytes _ ++ _).length ≤ _ at h
      rw [List.length_append] at h
      omega
    have hpos : (encode (c :: cs)).length ≠ 0 := by
      rw [Ne, List.length_eq_zero_iff, encode_eq_nil]
      exact List.cons_ne_nil c cs
    refine (reads_getInt _).bind (reads_remaining fun left hleft => ?_)
    rw [toInt_ofNat_length hlen, if_neg (by omega), if_neg (by omega)]
    exact (reads_getUtf8 hlen).map some

/-- The arguments that are read back as they were: those of the classes that are written apart. -/
def Arg.Plain : Arg → Prop
  | .other _ => False
  | _ => True

theorem reads_unmarschalArg {arg : Arg} (hplain : arg.Plain) (h : (argBytes arg).length ≤ capacity) :
    Reads unmarschalArg (argBytes arg) arg := by
  cases arg with
  | string o =>
    have hlen : (encode o).length ≤ capacity := by
      simp only [argBytes, stringBytes, List.length_append] at h
      omega
    exact (reads_getChar (by decide)).bind ((reads_unmarschalString hlen).map Arg.string)
  | integer o => exact (reads_getChar (by decide)).bind ((reads_getInt o).map Arg.integer)
  | float bits => exact (reads_getChar (by decide)).bind ((reads_getFloat bits).map Arg.float)
  | double bits => exact (reads_getChar (by decide)).bind ((reads_getDouble bits).map Arg.double)
  | long o => exact (reads_getChar (by decide)).bind ((reads_getLong o).map Arg.long)
  | null => exact (reads_getChar (by decide)).bind (reads_pure Arg.null)
  | other text => exact absurd hplain id

theorem reads_unmarschalLoop : ∀ {args : List Arg}, (∀ arg ∈ args, arg.Plain) →
    (args.flatMap argBytes).length ≤ capacity →
    Reads (unmarschalLoop args.length) (args.flatMap argBytes) args
  | [], _, _ => reads_pure []
  | arg :: args, hplain, h => by
    rw [List.flatMap_cons, List.length_append] at h
    rw [List.flatMap_cons, ← List.append_nil (args.flatMap argBytes)]
    exact (reads_unmarschalArg (hplain arg List.mem_cons_self) (by omega)).bind
      ((reads_unmarschalLoop (fun a ha => hplain a (List.mem_cons_of_mem arg ha)) (by omega)).bind
        (reads_pure (arg :: args)))

/-- What is read for the arguments. -/
def argsRead : Option (List Arg) → Option (List Arg)
  | some [] => none
  | args => args

theorem reads_unmarschalArgs {args : Option (List Arg)}
    (hplain : ∀ l, args = some l → l.length ≤ 30 ∧ ∀ arg ∈ l, arg.Plain)
    (h : (argsBytes args).length ≤ capacity) :
    Reads unmarschalArgs (argsBytes args) (argsRead args) := by
  have hnull : Reads unmarschalArgs (intBytes 0) none := by
    rw [← List.append_nil (intBytes 0)]
    exact (reads_getInt 0).bind (reads_pure none)
  match args with
  | none => exact hnull
  | some [] => exact hnull
  | some (arg :: args) =>
    obtain ⟨hmax, hplain⟩ := hplain _ rfl
    have hlen : ((arg :: args).flatMap argBytes).length ≤ capacity := by
      change (intBytes _ ++ _).length ≤ _ at h
      rw [List.length_append] at h
      omega
    have hpos : (arg :: args).length ≠ 0 := Nat.succ_ne_zero _
    refine (reads_getInt _).bind ?_
    rw [toInt_ofNat_length (hmax.trans (by decide)), if_neg (by omega), if_neg (by omega),
      if_neg (by omega), Int.toNat_natCast]
    exact (reads_unmarschalLoop hplain hlen).map some

@[simp] theorem getEnumByValue_getInt (level : LogLevel) :
    LogLevel.getEnumByValue level.getInt = some level := by
  cases level <;> decide

/-! ## The result -/

/-- The items that are made by the constructors for logging: with a message, or with a resource id
and at most 30 arguments. -/
inductive Logged : LogItem → Prop
  | verbose (logtime : Int64) (level : LogLevel) (verblevel : Int32) (message : Text) :
    Logged (.ofVerbose logtime level verblevel message)
  | message (logtime : Int64) (level : LogLevel) (msg : Text) : Logged (.ofMessage logtime level msg)
  | ressource (logtime : Int64) (level : LogLevel) {ressourceId : Int32} :
    ressourceId ≠ 0 → Logged (.ofRessource logtime level ressourceId)
  | ressourceArgs (logtime : Int64) (level : LogLevel) {ressourceId : Int32}
    {args : Option (List Arg)} : ressourceId ≠ 0 →
    (∀ l, args = some l → l.length ≤ 30 ∧ ∀ arg ∈ l, arg.Plain) →
    Logged (.ofRessourceArgs logtime level ressourceId args)

/-- The same item, if an empty message counts as none and an empty list of arguments too. -/
def LogItem.Same (a b : LogItem) : Prop :=
  a.level = b.level ∧ a.verbosityLevel = b.verbosityLevel ∧ a.logtime = b.logtime ∧
    a.ressourceId = b.ressourceId ∧ a.message.getD [] = b.message.getD [] ∧
      a.args.getD [] = b.args.getD []

/-- The bytes are read as a valid item that is the same. -/
def Restorable (item : LogItem) (b : Bytes) : Prop :=
  ∃ restored, LogItem.ofBytes b b.length = .ok restored ∧ restored.verify = true ∧ restored.Same item

/-- What is read of an item. -/
def LogItem.read (item : LogItem) : LogItem :=
  { item with message := messageRead item.message, args := argsRead item.args }

theorem LogItem.read_same (item : LogItem) : item.read.Same item := by
  refine ⟨rfl, rfl, rfl, rfl, ?_, ?_⟩
  · match h : item.message with
    | none => simp [LogItem.read, messageRead, h]
    | some [] => simp [LogItem.read, messageRead, h]
    | some (c :: cs) => simp [LogItem.read, messageRead, h]
  · match h : item.args with
    | none => simp [LogItem.read, argsRead, h]
    | some [] => simp [LogItem.read, argsRead, h]
    | some (a :: l) => simp [LogItem.read, argsRead, h]

theorem reads_unmarschal {item : LogItem} {level : LogLevel} (hlevel : item.level = some level)
    (hplain : ∀ l, item.args = some l → l.length ≤ 30 ∧ ∀ arg ∈ l, arg.Plain)
    (h : item.bytes.length ≤ capacity) : Reads unmarschal item.bytes item.read := by
  simp only [LogItem.bytes, List.length_append] at h
  rw [LogItem.bytes, hlevel, ← List.append_nil (argsBytes item.args)]
  refine (reads_getBytes _ [0]).bind ((reads_getLong _).bind ((reads_getInt _).bind
    ((reads_getInt _).bind ((reads_getInt _).bind ((reads_unmarschalMessage (by omega)).bind
      ((reads_unmarschalArgs hplain (by omega)).bind ?_))))))
  rw [getEnumByValue_getInt, ← hlevel]
  exact reads_pure item.read

theorem Logged.level_eq {item : LogItem} (h : Logged item) : ∃ level, item.level = some level := by
  cases h <;> exact ⟨_, rfl⟩

theorem Logged.plain {item : LogItem} (h : Logged item) :
    ∀ l, item.args = some l → l.length ≤ 30 ∧ ∀ arg ∈ l, arg.Plain := by
  cases h with
  | ressourceArgs logtime level hid hargs => exact hargs
  | _ => exact fun l hl => absurd hl (by simp [LogItem.ofVerbose, LogItem.ofMessage,
      LogItem.ofRessource])

theorem ofBytes_getMarschaledBytes {item : LogItem} (hlogged : Logged item) {b : Bytes}
    (h : item.getMarschaledBytes = .ok b) : LogItem.ofBytes b b.length = .ok item.read := by
  obtain ⟨rfl, hlen⟩ := bytes_of_getMarschaledBytes h
  obtain ⟨level, hlevel⟩ := hlogged.level_eq
  have hrun := reads_unmarschal hlevel hlogged.plain hlen []
  rw [List.append_nil] at hrun
  unfold LogItem.ofBytes
  rw [if_neg (by omega), Int.toNat_natCast, List.take_length, hrun]
  rfl

/-- Only an empty message makes an item that is read invalid. -/
theorem Logged.verify_read {item : LogItem} (h : Logged item) :
    item.read.verify = true ↔ item.message ≠ some [] := by
  cases h with
  | verbose logtime level verblevel message =>
    cases message <;> simp [LogItem.verify, LogItem.read, LogItem.ofVerbose, messageRead]
  | message logtime level msg =>
    cases msg <;> simp [LogItem.verify, LogItem.read, LogItem.ofMessage, messageRead]
  | ressource logtime level hid =>
    simp [LogItem.verify, LogItem.read, LogItem.ofRessource, messageRead, hid]
  | ressourceArgs logtime level hid hargs =>
    simp [LogItem.verify, LogItem.read, LogItem.ofRessourceArgs, messageRead, hid]

/-- **An item is restored exactly if its message is not empty.** -/
theorem restorable_iff {item : LogItem} (hlogged : Logged item) {b : Bytes}
    (h : item.getMarschaledBytes = .ok b) : Restorable item b ↔ item.message ≠ some [] := by
  rw [← hlogged.verify_read]
  have hread := ofBytes_getMarschaledBytes hlogged h
  constructor
  · rintro ⟨restored, hrestored, hverify, -⟩
    rw [hread] at hrestored
    obtain rfl := Except.ok.inj hrestored
    exact hverify
  · exact fun hverify => ⟨item.read, hread, hverify, item.read_same⟩

theorem restorable_message :
    Restorable (.ofMessage 1 .error "é".toList)
      [0, 0, 0, 0, 0, 0, 0, 0, 1, 255, 255, 255, 255, 255, 255, 255, 254, 0, 0, 0, 0,
        0, 0, 0, 2, 0xc3, 0xa9, 0, 0, 0, 0] :=
  (restorable_iff (.message 1 .error "é".toList) (by decide)).2 (by decide)

/-- An empty message is written and not restored. -/
theorem empty_not_restorable :
    ∃ b, (LogItem.ofMessage 1 .error []).getMarschaledBytes = .ok b ∧
      ¬ Restorable (.ofMessage 1 .error []) b := by
  refine ⟨(LogItem.ofMessage 1 .error []).bytes, by decide, ?_⟩
  rintro ⟨restored, hrestored, hverify, -⟩
  have hread : LogItem.ofBytes (LogItem.ofMessage 1 .error []).bytes
      (LogItem.ofMessage 1 .error []).bytes.length = .ok (LogItem.ofMessage 1 .error []).read := by
    decide
  rw [hread] at hrestored
  obtain rfl := Except.ok.inj hrestored
  exact absurd hverify (by decide)

end VpnCore.Log.Marshal
