import VpnCore.Data.Store
import VpnCore.Lib.Decode

/-!
# VpnCore.Data.Encrypted — `DataStore` with an encryptor

With the encryptor of `DefaultDataEncryptor` nothing is encrypted and `DataStore` is the store of
`VpnCore.Data.Store` (`Encrypted.put_default`, `Encrypted.get_default`).  With another one two mistakes
show.  `getNumericalData` encrypts what it has read a second time instead of decrypting it, and
`getString` returns its default if that is the ciphertext.  Which values come back for every default is
`Encrypted.returns_iff`: every set, a string that the encryptor maps to itself, and a number that the
encryptor, applied twice to its text, maps to a numeral of the same number.
-/

namespace VpnCore.Data

open Config (Text Thrown decimal Numeral)

/-- `IDataEncryptor` -/
structure IDataEncryptor where
  encode : List UInt8 → List UInt8 → List UInt8
  decode : List UInt8 → List UInt8 → List UInt8

/-- An encryptor that can be undone, and whose ciphertexts are UTF-8 texts that are not empty. -/
structure TextEncryptor extends IDataEncryptor where
  decode_encode : ∀ inData key, decode (encode inData key) key = inData
  encode_text : ∀ inData key, ∃ t : Text, t ≠ [] ∧ encode inData key = Lib.encode t

/-- `DefaultDataEncryptor`, on bytes. -/
def defaultDataEncryptor : IDataEncryptor where
  encode inData _ := inData
  decode inData _ := inData

variable {F : Type}

namespace Encrypted

/-! ## The code -/

section Code

variable (mEncryptor : IDataEncryptor) (mEncryptorKey : List UInt8)

/-- The UTF-8 bytes of the text, through `encode`, as a text again. -/
def encodeText (str : Text) : Text := Lib.decode (mEncryptor.encode (Lib.encode str) mEncryptorKey)

/-- The same through `decode`. -/
def decodeText (str : Text) : Text := Lib.decode (mEncryptor.decode (Lib.encode str) mEncryptorKey)

def putString (m : DefaultDataStore) (key data : Text) : DefaultDataStore × Bool :=
  m.putString key (encodeText mEncryptor mEncryptorKey data)

def getString (m : DefaultDataStore) (key : Text) (defaultValue : Option Text) : Option Text :=
  if m.contains key then
    let str := m.getString key defaultValue
    if defaultValue ≠ str then
      match str with
      | some str => some (decodeText mEncryptor mEncryptorKey str)
      -- the `NullPointerException` is caught
      | none => defaultValue
    else defaultValue
  else defaultValue

/-- `str` is the text of the number. -/
def putData (m : DefaultDataStore) (key str : Text) : DefaultDataStore × Bool :=
  if !str.isEmpty then putString mEncryptor mEncryptorKey m key str else (m, false)

/-- The source calls `encode`, not `decode`, on what it has read. -/
def getNumericalData {T : Type} (m : DefaultDataStore) (key : Text) (parse : Text → Except Thrown T)
    (defaultValue : T) : T :=
  match m.getString key none with
  | some str =>
    if !str.isEmpty then
      match parse (encodeText mEncryptor mEncryptorKey str) with
      | .ok value => value
      | .error _ => defaultValue
    else defaultValue
  | none => defaultValue

def putStringSet (P : Platform F) (m : DefaultDataStore) (key : Text) (strings : Finset Text) :
    DefaultDataStore × Bool :=
  if strings.card > 0 then
    let str := stringSetLineTag.intercalate (P.toArray strings)
    putString mEncryptor mEncryptorKey m (assembleInternalKey key Kind.set.dataType) str
  else (m, false)

def getStringSet (m : DefaultDataStore) (key : Text) (defaultValue : Finset Text) : Finset Text :=
  let key := assembleInternalKey key Kind.set.dataType
  if m.contains key then
    match getString mEncryptor mEncryptorKey m key none with
    | some str =>
      if !str.isEmpty then
        let strings := splitLines str
        if strings.length > 0 then strings.toFinset else defaultValue
      else defaultValue
    | none => defaultValue
  else defaultValue

/-- `putX` for the type `X` of the value. -/
def put (P : Platform F) (m : DefaultDataStore) (key : Text) : Value F → DefaultDataStore × Bool
  | .int data => putData mEncryptor mEncryptorKey m (Kind.int.key key) (decimal data.toInt)
  | .long data => putData mEncryptor mEncryptorKey m (Kind.long.key key) (decimal data.toInt)
  | .float data => putData mEncryptor mEncryptorKey m (Kind.float.key key) (P.valueOf data)
  | .boolean data =>
    putData mEncryptor mEncryptorKey m (Kind.boolean.key key) (decimal (DataStore.bit data).toInt)
  | .string data => putString mEncryptor mEncryptorKey m key data
  | .set strings => putStringSet mEncryptor mEncryptorKey P m key strings

/-- `getX` for the type `X` of the default value. -/
def get (P : Platform F) (m : DefaultDataStore) (key : Text) : Value F → Value F
  | .int d =>
    .int (getNumericalData mEncryptor mEncryptorKey m (Kind.int.key key) DataStore.parseInt32 d)
  | .long d =>
    .long (getNumericalData mEncryptor mEncryptorKey m (Kind.long.key key) DataStore.parseInt64 d)
  | .float d => .float (getNumericalData mEncryptor mEncryptorKey m (Kind.float.key key) P.parseFloat d)
  | .boolean d =>
    .boolean (getNumericalData mEncryptor mEncryptorKey m (Kind.boolean.key key) DataStore.parseInt32
      (DataStore.bit d) == 1)
  | .string d => .string ((getString mEncryptor mEncryptorKey m key (some d)).getD d)
  | .set d => .set (getStringSet mEncryptor mEncryptorKey m key d)

end Code

/-! ## The default encryptor -/

section Default

variable (mEncryptorKey : List UInt8) (P : Platform F) (m : DefaultDataStore) (key : Text) (v : Value F)

theorem encodeText_default (str : Text) : encodeText defaultDataEncryptor mEncryptorKey str = str :=
  Lib.decode_encode str

theorem decodeText_default (str : Text) : decodeText defaultDataEncryptor mEncryptorKey str = str :=
  Lib.decode_encode str

/-- **Without encryption** the setters are those of `DataStore`. -/
theorem put_default : put defaultDataEncryptor mEncryptorKey P m key v = DataStore.put P m key v := by
  have hput : putString defaultDataEncryptor mEncryptorKey = DataStore.putString := by
    funext m key data
    rw [putString, encodeText_default, DataStore.putString, DefaultDataEncryptor.encode]
  have hdata : putData defaultDataEncryptor mEncryptorKey = DataStore.putData := by
    funext m key str
    rw [putData, hput, DataStore.putData]
  cases v <;> simp only [put, hput, hdata, putStringSet] <;> rfl

/-- The getters too. -/
theorem get_default : get defaultDataEncryptor mEncryptorKey P m key v = DataStore.get P m key v := by
  have hget : getString defaultDataEncryptor mEncryptorKey = DataStore.getString := by
    funext m key d
    have hdecode : decodeText defaultDataEncryptor mEncryptorKey = DefaultDataEncryptor.decode :=
      funext (decodeText_default mEncryptorKey)
    unfold getString DataStore.getString
    exact hdecode ▸ rfl
  have hdata : ∀ {T : Type}, getNumericalData (T := T) defaultDataEncryptor mEncryptorKey =
      DataStore.getNumericalData := by
    intro T
    funext m key parse d
    have hencode : encodeText defaultDataEncryptor mEncryptorKey = DefaultDataEncryptor.encode :=
      funext (encodeText_default mEncryptorKey)
    unfold getNumericalData DataStore.getNumericalData
    exact hencode ▸ rfl
  cases v <;> simp only [get, hget, hdata, getStringSet] <;> rfl

end Default

/-! ## An encryptor that can be undone -/

section Lawful

variable (E : TextEncryptor) (mEncryptorKey : List UInt8)

theorem encode_encodeText (str : Text) :
    Lib.encode (encodeText E.toIDataEncryptor mEncryptorKey str) =
        E.encode (Lib.encode str) mEncryptorKey ∧
      encodeText E.toIDataEncryptor mEncryptorKey str ≠ [] := by
  obtain ⟨t, hne, ht⟩ := E.encode_text (Lib.encode str) mEncryptorKey
  rw [encodeText, ht, Lib.decode_encode]
  exact ⟨rfl, hne⟩

theorem decodeText_encodeText (str : Text) :
    decodeText E.toIDataEncryptor mEncryptorKey (encodeText E.toIDataEncryptor mEncryptorKey str) =
      str := by
  rw [decodeText, (encode_encodeText E mEncryptorKey str).1, E.decode_encode, Lib.decode_encode]

variable (P : Platform F) (m : DefaultDataStore) (key : Text)

/-- The ciphertext of a value. -/
def cipher (v : Value F) : Text := encodeText E.toIDataEncryptor mEncryptorKey (v.stored P)

/-- A setter writes the ciphertext. -/
theorem put_eq {v : Value F} (hv : v.Valid) :
    put E.toIDataEncryptor mEncryptorKey P m key v =
      (Function.update m (v.kind.key key) (some (cipher E mEncryptorKey P v)), true) := by
  have hdata : ∀ (k : Text) {str : Text}, str ≠ [] →
      putData E.toIDataEncryptor mEncryptorKey m k str =
        (Function.update m k (some (encodeText E.toIDataEncryptor mEncryptorKey str)), true) := by
    intro k str hstr
    rw [putData, if_pos (by simpa using hstr)]
    rfl
  cases v with
  | int n => exact hdata _ (decimal_ne_nil _)
  | long n => exact hdata _ (decimal_ne_nil _)
  | float x => exact hdata _ (P.valueOf_ne_nil x)
  | boolean b => exact hdata _ (decimal_ne_nil _)
  | string t =>
    have hkey : Kind.string.key key = key := List.append_nil key
    rw [Value.kind, hkey]
    rfl
  | set s =>
    have hcard : s.card > 0 := Finset.card_pos.2 (Finset.nonempty_iff_ne_empty.2 hv.1)
    rw [put, putStringSet, if_pos hcard]
    rfl

/-- What a getter of numbers makes of a ciphertext: it encrypts it once more. -/
theorem getNumericalData_eq {T : Type} {m : DefaultDataStore} {k str : Text}
    (hm : m k = some (encodeText E.toIDataEncryptor mEncryptorKey str))
    (parse : Text → Except Thrown T) (d : T) :
    getNumericalData E.toIDataEncryptor mEncryptorKey m k parse d =
      ((parse (encodeText E.toIDataEncryptor mEncryptorKey
        (encodeText E.toIDataEncryptor mEncryptorKey str))).toOption).getD d := by
  have hne : (!(encodeText E.toIDataEncryptor mEncryptorKey str).isEmpty) = true := by
    simpa using (encode_encodeText E mEncryptorKey str).2
  simp only [getNumericalData, DefaultDataStore.getString, hm, Option.some_or, if_pos hne]
  cases parse _ <;> rfl

/-- It returns a number for every default exactly if it reads that number. -/
theorem getNumericalData_forall_iff {T : Type} [Nontrivial T] {m : DefaultDataStore} {k str : Text}
    (hm : m k = some (encodeText E.toIDataEncryptor mEncryptorKey str))
    (parse : Text → Except Thrown T) (x : T) :
    (∀ d, getNumericalData E.toIDataEncryptor mEncryptorKey m k parse d = x) ↔
      parse (encodeText E.toIDataEncryptor mEncryptorKey
        (encodeText E.toIDataEncryptor mEncryptorKey str)) = .ok x := by
  simp only [getNumericalData_eq E mEncryptorKey hm]
  cases parse _ with
  | ok y => exact ⟨fun h => congrArg Except.ok (h y), fun h _ => Except.ok.inj h⟩
  | error e =>
    obtain ⟨y, hy⟩ := exists_ne x
    exact ⟨fun h => absurd (h y) hy, fun h => by cases h⟩

theorem getString_eq {m : DefaultDataStore} {k str : Text}
    (hm : m k = some (encodeText E.toIDataEncryptor mEncryptorKey str)) (d : Option Text) :
    getString E.toIDataEncryptor mEncryptorKey m k d =
      if d = some (encodeText E.toIDataEncryptor mEncryptorKey str) then d else some str := by
  by_cases hd : d = some (encodeText E.toIDataEncryptor mEncryptorKey str)
  · simp [getString, DefaultDataStore.contains, DefaultDataStore.getString, hm, hd]
  · simp [getString, DefaultDataStore.contains, DefaultDataStore.getString, hm, hd,
      decodeText_encodeText]

/-- The encryptor, applied twice to the text, gives `t`. -/
def EncodesTwice (text t : Text) : Prop :=
  E.encode (E.encode (Lib.encode text) mEncryptorKey) mEncryptorKey = Lib.encode t

/-- **The encryptors that hide the mistakes.**  For a number the two encryptions end in a numeral of the same
number, in any script; for a boolean in a numeral that is 1 or not, as the value is true or false.  A string
is its own ciphertext. -/
def Kept : Value F → Prop
  | .int data => ∃ t, EncodesTwice E mEncryptorKey (decimal data.toInt) t ∧ Numeral t data.toInt
  | .long data => ∃ t, EncodesTwice E mEncryptorKey (decimal data.toInt) t ∧ Numeral t data.toInt
  | .float data => ∃ t, EncodesTwice E mEncryptorKey (P.valueOf data) t ∧ P.parseFloat t = .ok data
  | .boolean data => ∃ t, EncodesTwice E mEncryptorKey (decimal (DataStore.bit data).toInt) t ∧
      ∃ n : Int32, Numeral t n.toInt ∧ (n = 1 ↔ data = true)
  | .string data => E.encode (Lib.encode data) mEncryptorKey = Lib.encode data
  | .set _ => True

/-- The text that is parsed is the one that the two encryptions end in. -/
theorem exists_encodesTwice {Q : Text → Prop} (text : Text) :
    (∃ t, EncodesTwice E mEncryptorKey text t ∧ Q t) ↔ Q (encodeText E.toIDataEncryptor mEncryptorKey
      (encodeText E.toIDataEncryptor mEncryptorKey text)) := by
  have htwice : EncodesTwice E mEncryptorKey text (encodeText E.toIDataEncryptor mEncryptorKey
      (encodeText E.toIDataEncryptor mEncryptorKey text)) := by
    rw [EncodesTwice, (encode_encodeText E mEncryptorKey _).1, (encode_encodeText E mEncryptorKey text).1]
  refine ⟨?_, fun h => ⟨_, htwice, h⟩⟩
  rintro ⟨t, ht, hQ⟩
  have heq := congrArg Lib.decode (ht.symm.trans htwice)
  rw [Lib.decode_encode, Lib.decode_encode] at heq
  exact heq ▸ hQ

variable {m key}

theorem getBoolean_forall_iff {str : Text} (b : Bool)
    (hm : m (Kind.boolean.key key) = some (encodeText E.toIDataEncryptor mEncryptorKey str)) :
    (∀ d, (getNumericalData E.toIDataEncryptor mEncryptorKey m (Kind.boolean.key key)
        DataStore.parseInt32 (DataStore.bit d) == 1) = b) ↔
      ∃ n, DataStore.parseInt32 (encodeText E.toIDataEncryptor mEncryptorKey
        (encodeText E.toIDataEncryptor mEncryptorKey str)) = .ok n ∧ (n = 1 ↔ b = true) := by
  simp only [getNumericalData_eq E mEncryptorKey hm]
  cases DataStore.parseInt32 _ with
  | ok n =>
    have hn : (n == 1) = b ↔ (n = 1 ↔ b = true) := by rw [Bool.eq_iff_iff, beq_iff_eq]
    exact ⟨fun h => ⟨n, rfl, hn.mp (h true)⟩, by rintro ⟨_, ⟨⟩, h⟩ _; exact hn.mpr h⟩
  | error e =>
    refine ⟨fun h => absurd (h !b) ?_, by rintro ⟨_, ⟨⟩, _⟩⟩
    show ¬ (DataStore.bit (!b) == 1) = b
    cases b <;> decide

theorem getString_forall_iff {str : Text}
    (hm : m key = some (encodeText E.toIDataEncryptor mEncryptorKey str)) :
    (∀ d, (getString E.toIDataEncryptor mEncryptorKey m key (some d)).getD d = str) ↔
      E.encode (Lib.encode str) mEncryptorKey = Lib.encode str := by
  have hself : E.encode (Lib.encode str) mEncryptorKey = Lib.encode str ↔
      encodeText E.toIDataEncryptor mEncryptorKey str = str := by
    constructor
    · intro h
      rw [encodeText, h, Lib.decode_encode]
    · intro h
      rw [← (encode_encodeText E mEncryptorKey str).1, h]
  simp only [getString_eq E mEncryptorKey hm, hself]
  constructor
  · intro h
    simpa using h (encodeText E.toIDataEncryptor mEncryptorKey str)
  · intro h d
    split_ifs with hd
    · exact (Option.some.inj hd).trans h
    · rfl

theorem getStringSet_eq {s : Finset Text} (hv : (Value.set s : Value F).Valid)
    (hm : m (Kind.set.key key) = some (cipher E mEncryptorKey P (.set s))) (d : Finset Text) :
    getStringSet E.toIDataEncryptor mEncryptorKey m key d = s := by
  have hm' : m (assembleInternalKey key Kind.set.dataType) =
      some (encodeText E.toIDataEncryptor mEncryptorKey (stringSetLineTag.intercalate (P.toArray s))) :=
    hm
  have hstr : (!(stringSetLineTag.intercalate (P.toArray s)).isEmpty) = true := by
    simpa [Value.stored] using Value.stored_ne_nil P hv (fun h => by cases h)
  have hlen : (P.toArray s).length > 0 := List.length_pos_iff.2 (toArray_ne_nil P hv.1)
  have hget := getString_eq E mEncryptorKey hm' none
  rw [if_neg (by simp)] at hget
  simp only [getStringSet, DefaultDataStore.contains, hm', Option.isSome_some, if_true, hget, hstr,
    splitLines_toArray P hv, hlen, P.toArray_toFinset]

/-- The values of one type that a default can have. -/
theorem forall_kind_iff {Q : Value F → Prop} (t : Kind) : (∀ d : Value F, d.kind = t → Q d) ↔
    match t with
    | .int => ∀ d, Q (.int d)
    | .long => ∀ d, Q (.long d)
    | .float => ∀ d, Q (.float d)
    | .boolean => ∀ d, Q (.boolean d)
    | .string => ∀ d, Q (.string d)
    | .set => ∀ d, Q (.set d) := by
  cases t <;>
    exact ⟨fun h d => h _ rfl, fun h d hd => by cases d <;> first | exact h _ | cases hd⟩

/-- **Values and defaults.**  A value that a setter has written is returned by the getter of its type
for every default exactly when the mistakes do not hit it. -/
theorem returns_iff [Nontrivial F] (v : Value F) (hv : v.Valid) :
    ((put E.toIDataEncryptor mEncryptorKey P m key v).2 = true →
      ∀ d : Value F, d.kind = v.kind →
        get E.toIDataEncryptor mEncryptorKey P
          (put E.toIDataEncryptor mEncryptorKey P m key v).1 key d = v) ↔
      Kept E mEncryptorKey P v := by
  rw [put_eq E mEncryptorKey P m key hv, forall_kind_iff]
  have hm : Function.update m (v.kind.key key) (some (cipher E mEncryptorKey P v)) (v.kind.key key) =
      some (cipher E mEncryptorKey P v) := Function.update_self ..
  generalize Function.update m (v.kind.key key) (some (cipher E mEncryptorKey P v)) = m' at hm
  simp only [forall_const]
  cases v with
  | int n =>
    have : Nontrivial Int32 := ⟨0, 1, by decide⟩
    simp only [Value.kind, get, Value.int.injEq, Kept, exists_encodesTwice, ← parseInt32_eq_ok]
    exact getNumericalData_forall_iff E mEncryptorKey hm DataStore.parseInt32 n
  | long n =>
    have : Nontrivial Int64 := ⟨0, 1, by decide⟩
    simp only [Value.kind, get, Value.long.injEq, Kept, exists_encodesTwice, ← parseInt64_eq_ok]
    exact getNumericalData_forall_iff E mEncryptorKey hm DataStore.parseInt64 n
  | float x =>
    simp only [Value.kind, get, Value.float.injEq, Kept, exists_encodesTwice]
    exact getNumericalData_forall_iff E mEncryptorKey hm P.parseFloat x
  | boolean b =>
    simp only [Value.kind, get, Value.boolean.injEq, Kept, exists_encodesTwice, ← parseInt32_eq_ok]
    exact getBoolean_forall_iff E mEncryptorKey b hm
  | string t =>
    have hkey : Kind.string.key key = key := List.append_nil key
    simp only [Value.kind, get, Value.string.injEq]
    exact getString_forall_iff E mEncryptorKey (hkey ▸ hm)
  | set s =>
    simp only [Value.kind, get, Value.set.injEq]
    exact iff_of_true (getStringSet_eq E mEncryptorKey P hv hm) trivial

end Lawful

/-! ## An example -/

/-- The two halves of a byte. -/
def halves (b : UInt8) : Text := [Char.ofNat (0x40 + b.toNat / 16), Char.ofNat (0x40 + b.toNat % 16)]

def joinHalves : Text → List UInt8
  | high :: low :: rest =>
    UInt8.ofNat ((high.toNat - 0x40) * 16 + (low.toNat - 0x40)) :: joinHalves rest
  | _ => []

theorem joinHalves_halves (b : UInt8) (rest : Text) :
    joinHalves (halves b ++ rest) = b :: joinHalves rest := by
  have hall : ∀ b : UInt8, UInt8.ofNat (((Char.ofNat (0x40 + b.toNat / 16)).toNat - 0x40) * 16 +
      ((Char.ofNat (0x40 + b.toNat % 16)).toNat - 0x40)) = b :=
    Lib.byte_induction (by decide +kernel)
  exact congrArg (· :: joinHalves rest) (hall b)

theorem joinHalves_flatMap (bytes : List UInt8) : joinHalves (bytes.flatMap halves) = bytes := by
  induction bytes with
  | nil => rfl
  | cons b bytes ih => rw [List.flatMap_cons, joinHalves_halves, ih]

/-- An encryptor that writes the halves of the bytes as letters. -/
def halvesEncryptor : TextEncryptor where
  encode inData _ := Lib.encode ('#' :: inData.flatMap halves)
  decode inData _ := joinHalves (Lib.decode inData).tail
  decode_encode inData _ := by rw [Lib.decode_encode, List.tail_cons, joinHalves_flatMap]
  encode_text inData _ := ⟨_, List.cons_ne_nil _ _, rfl⟩

/-- A platform with two `float` values. -/
def twoPlatform : Platform Bool where
  valueOf x := if x then "1.0".toList else "0.0".toList
  parseFloat t := .ok (t == "1.0".toList)
  parseFloat_valueOf x := by cases x <;> rfl
  valueOf_ne_nil x := by cases x <;> decide
  toArray := onePlatform.toArray
  toArray_toFinset := onePlatform.toArray_toFinset

/-- An encryptor that maps 5 to a letter and the letter to the Arabic digit 5, and other texts to halves. -/
def arabicEncryptor : TextEncryptor where
  encode inData key :=
    if inData = Lib.encode ['5'] then Lib.encode ['a']
    else if inData = Lib.encode ['a'] then Lib.encode ['٥']
    else halvesEncryptor.encode inData key
  decode inData key :=
    if inData = Lib.encode ['a'] then Lib.encode ['5']
    else if inData = Lib.encode ['٥'] then Lib.encode ['a']
    else halvesEncryptor.decode inData key
  decode_encode inData key := by
    have hmark : ∀ c : Char, c ≠ '#' → halvesEncryptor.encode inData key ≠ Lib.encode [c] := by
      intro c hc heq
      have htext := congrArg Lib.decode heq
      rw [halvesEncryptor, Lib.decode_encode, Lib.decode_encode] at htext
      exact hc (List.cons.inj htext).1.symm
    have hdigit : Lib.encode ['٥'] ≠ Lib.encode ['a'] := by decide
    by_cases h5 : inData = Lib.encode ['5']
    · rw [if_pos h5, if_pos rfl, h5]
    by_cases ha : inData = Lib.encode ['a']
    · rw [if_neg h5, if_pos ha, if_neg hdigit, if_pos rfl, ha]
    rw [if_neg h5, if_neg ha, if_neg (hmark 'a' (by decide)), if_neg (hmark '٥' (by decide)),
      halvesEncryptor.decode_encode]
  encode_text inData key := by
    split_ifs
    · exact ⟨_, List.cons_ne_nil _ _, rfl⟩
    · exact ⟨_, List.cons_ne_nil _ _, rfl⟩
    · exact halvesEncryptor.encode_text inData key

theorem returns_set_five :
    get halvesEncryptor.toIDataEncryptor [] twoPlatform
      (put halvesEncryptor.toIDataEncryptor [] twoPlatform .empty "apps".toList
        (.set {"a".toList})).1 "apps".toList (.set ∅) = .set {"a".toList} ∧
    get arabicEncryptor.toIDataEncryptor [] twoPlatform
      (put arabicEncryptor.toIDataEncryptor [] twoPlatform .empty "n".toList (.int 5)).1
      "n".toList (.int 0) = .int 5 := by
  have hfive : Kept arabicEncryptor [] twoPlatform (.int 5) := by
    have htwice : EncodesTwice arabicEncryptor [] ['5'] ['٥'] := by
      unfold EncodesTwice
      decide
    exact ⟨['٥'], htwice, ['٥'], [5], .cons (by decide) .nil, by decide, .inl ⟨.inl rfl, by decide⟩⟩
  constructor
  · exact (returns_iff halvesEncryptor [] twoPlatform (.set {"a".toList})
      ⟨by decide, by decide⟩).2 trivial rfl (.set ∅) rfl
  · exact (returns_iff arabicEncryptor [] twoPlatform (.int 5) trivial).2 hfive rfl (.int 0) rfl

/-- The number 5 is written, and the default is read. -/
theorem five_not_returned :
    (put halvesEncryptor.toIDataEncryptor [] twoPlatform .empty "n".toList (.int 5)).2 = true ∧
      get halvesEncryptor.toIDataEncryptor [] twoPlatform
        (put halvesEncryptor.toIDataEncryptor [] twoPlatform .empty "n".toList (.int 5)).1
        "n".toList (.int 0) = .int 0 := by
  decide +kernel

end Encrypted

end VpnCore.Data
