import Mathlib.Data.Char
import Mathlib.Data.Fintype.Defs
import Mathlib.Data.List.Lex
import Mathlib.Data.List.Sort
import VpnCore.Config.Strings
import VpnCore.Lib.Separated

/-!
# VpnCore.Data.Store — `DataStore` over `DefaultDataStore`

`DataStore` keeps values of six types in one store of strings.  The type of a value is written behind
its key (`_int`, `_long`, `_float`, `_boolean`, `_set`; nothing for a string), and numbers and sets
are written as text.

`SharedPreferences` is a plain map whose `commit` returns `true`, the encryptor is the identity of
`DefaultDataEncryptor`, and texts are sequences of Unicode characters, so that the way through UTF-8
and back is the identity too.  A setter returns the new state with the value the source returns.
-/

namespace VpnCore.Data

open Config (Text Thrown parseInt parseLong decimal)
open Lib (splitBy)

/-! ## `DefaultDataStore` and `DefaultDataEncryptor` -/

/-- The strings in the preferences file. -/
abbrev DefaultDataStore := Text → Option Text

namespace DefaultDataStore

def empty : DefaultDataStore := fun _ => none

def putString (m : DefaultDataStore) (key data : Text) : DefaultDataStore × Bool :=
  (Function.update m key (some data), true)

def getString (m : DefaultDataStore) (key : Text) (defaultValue : Option Text) : Option Text :=
  (m key).or defaultValue

def contains (m : DefaultDataStore) (key : Text) : Bool := (m key).isSome

def remove (m : DefaultDataStore) (key : Text) : DefaultDataStore × Bool :=
  (Function.update m key none, true)

def clear (_ : DefaultDataStore) : DefaultDataStore × Bool := (empty, true)

end DefaultDataStore

namespace DefaultDataEncryptor

def encode (data : Text) : Text := data

def decode (data : Text) : Text := data

end DefaultDataEncryptor

/-! ## Values -/

/-- What the Java platform adds: the texts of `float` values, and the order in which a set of strings
is iterated. -/
structure Platform (F : Type) where
  valueOf : F → Text
  parseFloat : Text → Except Thrown F
  /-- the text of a `float` is read back as the same `float` -/
  parseFloat_valueOf : ∀ x, parseFloat (valueOf x) = .ok x
  valueOf_ne_nil : ∀ x, valueOf x ≠ []
  toArray : Finset Text → List Text
  toArray_toFinset : ∀ s, (toArray s).toFinset = s

/-- The elements of a set in their order. -/
def sortedArray (s : Finset Text) : List Text :=
  Quot.liftOn s.val (List.insertionSort (· ≤ ·)) fun l l' h =>
    List.Perm.eq_of_pairwise (fun _ _ _ _ => le_antisymm) (List.pairwise_insertionSort (· ≤ ·) l)
      (List.pairwise_insertionSort (· ≤ ·) l')
      ((List.perm_insertionSort _ l).trans (h.trans (List.perm_insertionSort _ l').symm))

theorem mem_sortedArray {s : Finset Text} {x : Text} : x ∈ sortedArray s ↔ x ∈ s := by
  obtain ⟨l, hl⟩ := s
  induction l using Quot.ind with
  | mk l => exact (List.perm_insertionSort (· ≤ ·) l).mem_iff

/-- A platform with one `float`, for runs on fixed values. -/
def onePlatform : Platform Unit where
  valueOf _ := "0.0".toList
  parseFloat _ := .ok ()
  parseFloat_valueOf _ := rfl
  valueOf_ne_nil _ := by decide
  toArray := sortedArray
  toArray_toFinset s := by
    ext x
    rw [List.mem_toFinset, mem_sortedArray]

/-- The types of values. -/
inductive Kind
  | int
  | long
  | float
  | boolean
  | string
  | set
  deriving DecidableEq

instance : Fintype Kind :=
  ⟨{.int, .long, .float, .boolean, .string, .set}, fun t => by cases t <;> decide⟩

/-- A value of one of the stored types. -/
inductive Value (F : Type)
  | int (data : Int32)
  | long (data : Int64)
  | float (data : F)
  | boolean (data : Bool)
  | string (data : Text)
  | set (strings : Finset Text)
  deriving DecidableEq

variable {F : Type}

def Value.kind : Value F → Kind
  | .int _ => .int
  | .long _ => .long
  | .float _ => .float
  | .boolean _ => .boolean
  | .string _ => .string
  | .set _ => .set

/-- `DATA_TYPE_INT` and so on; strings are kept under the key itself. -/
def Kind.dataType : Kind → Text
  | .int => "_int".toList
  | .long => "_long".toList
  | .float => "_float".toList
  | .boolean => "_boolean".toList
  | .string => []
  | .set => "_set".toList

/-- `STRING_SET_LINE_TAG` -/
def stringSetLineTag : Text := "<line>\n".toList

/-- `str.split(STRING_SET_LINE_TAG)`: trailing empty parts are removed, unless the tag does not
occur. -/
def splitLines (str : Text) : List Text :=
  let parts := splitBy stringSetLineTag str
  if parts.length ≤ 1 then parts else parts.rdropWhile List.isEmpty

/-- The key under which a value is stored. -/
def assembleInternalKey (originKey type : Text) : Text := originKey ++ type

/-- The keys that `contains` and `remove` look at one after the other. -/
def typeKeys (originKey : Text) : List Text :=
  [assembleInternalKey originKey Kind.int.dataType,
   assembleInternalKey originKey Kind.long.dataType,
   assembleInternalKey originKey Kind.float.dataType,
   assembleInternalKey originKey Kind.boolean.dataType,
   assembleInternalKey originKey Kind.set.dataType]

/-! ## `DataStore` -/

namespace DataStore

def putString (m : DefaultDataStore) (key data : Text) : DefaultDataStore × Bool :=
  m.putString key (DefaultDataEncryptor.encode data)

def getString (m : DefaultDataStore) (key : Text) (defaultValue : Option Text) : Option Text :=
  if m.contains key then
    let str := m.getString key defaultValue
    if defaultValue ≠ str then
      match str with
      | some str => some (DefaultDataEncryptor.decode str)
      -- the `NullPointerException` is caught
      | none => defaultValue
    else defaultValue
  else defaultValue

/-- `str` is the text of the number. -/
def putData (m : DefaultDataStore) (key str : Text) : DefaultDataStore × Bool :=
  if !str.isEmpty then putString m key str else (m, false)

/-- `parse` belongs to the class of the default value; what it throws is caught.  The source calls
`encode`, not `decode`, on what it has read. -/
def getNumericalData {T : Type} (m : DefaultDataStore) (key : Text) (parse : Text → Except Thrown T)
    (defaultValue : T) : T :=
  match m.getString key none with
  | some str =>
    if !str.isEmpty then
      match parse (DefaultDataEncryptor.encode str) with
      | .ok value => value
      | .error _ => defaultValue
    else defaultValue
  | none => defaultValue

def parseInt32 (str : Text) : Except Thrown Int32 := (parseInt str).map Int32.ofInt

def parseInt64 (str : Text) : Except Thrown Int64 := (parseLong str).map Int64.ofInt

def putInt (m : DefaultDataStore) (key : Text) (data : Int32) : DefaultDataStore × Bool :=
  putData m (assembleInternalKey key Kind.int.dataType) (decimal data.toInt)

def putLong (m : DefaultDataStore) (key : Text) (data : Int64) : DefaultDataStore × Bool :=
  putData m (assembleInternalKey key Kind.long.dataType) (decimal data.toInt)

def putFloat (P : Platform F) (m : DefaultDataStore) (key : Text) (data : F) :
    DefaultDataStore × Bool :=
  putData m (assembleInternalKey key Kind.float.dataType) (P.valueOf data)

/-- `data ? 1 : 0` -/
def bit (data : Bool) : Int32 := if data then 1 else 0

def putBoolean (m : DefaultDataStore) (key : Text) (data : Bool) : DefaultDataStore × Bool :=
  putData m (assembleInternalKey key Kind.boolean.dataType) (decimal (bit data).toInt)

def getInt (m : DefaultDataStore) (key : Text) (defaultValue : Int32) : Int32 :=
  getNumericalData m (assembleInternalKey key Kind.int.dataType) parseInt32 defaultValue

def getLong (m : DefaultDataStore) (key : Text) (defaultValue : Int64) : Int64 :=
  getNumericalData m (assembleInternalKey key Kind.long.dataType) parseInt64 defaultValue

def getFloat (P : Platform F) (m : DefaultDataStore) (key : Text) (defaultValue : F) : F :=
  getNumericalData m (assembleInternalKey key Kind.float.dataType) P.parseFloat defaultValue

def getBoolean (m : DefaultDataStore) (key : Text) (defaultValue : Bool) : Bool :=
  getNumericalData m (assembleInternalKey key Kind.boolean.dataType) parseInt32 (bit defaultValue)
    == 1

/-- An empty set is not written. -/
def putStringSet (P : Platform F) (m : DefaultDataStore) (key : Text) (strings : Finset Text) :
    DefaultDataStore × Bool :=
  if strings.card > 0 then
    let str := stringSetLineTag.intercalate (P.toArray strings)
    putString m (assembleInternalKey key Kind.set.dataType) str
  else (m, false)

def getStringSet (m : DefaultDataStore) (key : Text) (defaultValue : Finset Text) : Finset Text :=
  let key := assembleInternalKey key Kind.set.dataType
  if m.contains key then
    match getString m key none with
    | some str =>
      if !str.isEmpty then
        let strings := splitLines str
        if strings.length > 0 then strings.toFinset else defaultValue
      else defaultValue
    | none => defaultValue
  else defaultValue

/-- The last line of the source calls `remove`. -/
def contains (m : DefaultDataStore) (originKey : Text) : DefaultDataStore × Bool :=
  match (typeKeys originKey).find? m.contains with
  | some _ => (m, true)
  | none => m.remove originKey

def remove (m : DefaultDataStore) (originKey : Text) : DefaultDataStore × Bool :=
  match (typeKeys originKey).find? m.contains with
  | some key => m.remove key
  | none => m.remove originKey

def clear (m : DefaultDataStore) : DefaultDataStore × Bool := m.clear

/-- `putX` for the type `X` of the value. -/
def put (P : Platform F) (m : DefaultDataStore) (key : Text) : Value F → DefaultDataStore × Bool
  | .int data => putInt m key data
  | .long data => putLong m key data
  | .float data => putFloat P m key data
  | .boolean data => putBoolean m key data
  | .string data => putString m key data
  | .set strings => putStringSet P m key strings

/-- `getX` for the type `X` of the default value. -/
def get (P : Platform F) (m : DefaultDataStore) (key : Text) : Value F → Value F
  | .int d => .int (getInt m key d)
  | .long d => .long (getLong m key d)
  | .float d => .float (getFloat P m key d)
  | .boolean d => .boolean (getBoolean m key d)
  | .string d => .string ((getString m key (some d)).getD d)
  | .set d => .set (getStringSet m key d)

end DataStore

/-! ## What is written and how it is read -/

/-- The text under which a value is written. -/
def Value.stored (P : Platform F) : Value F → Text
  | .int data => decimal data.toInt
  | .long data => decimal data.toInt
  | .float data => P.valueOf data
  | .boolean data => decimal (DataStore.bit data).toInt
  | .string data => data
  | .set strings => stringSetLineTag.intercalate (P.toArray strings)

/-- The values that callers may put: a set has elements, and its elements are neither empty nor
contain the tag between them. -/
def Value.Valid : Value F → Prop
  | .set strings => strings ≠ ∅ ∧ ∀ s ∈ strings, s ≠ [] ∧ ¬ stringSetLineTag <:+: s
  | _ => True

/-- The key of the preferences file for a key and a type. -/
def Kind.key (t : Kind) (k : Text) : Text := assembleInternalKey k t.dataType

theorem decimal_ne_nil (n : ℤ) : decimal n ≠ [] := by
  unfold decimal
  split
  · exact List.cons_ne_nil _ _
  · exact Nat.toDigits_ne_nil

/-- The texts that are read as an `int`. -/
theorem parseInt32_eq_ok {str : Text} {n : Int32} :
    DataStore.parseInt32 str = .ok n ↔ Config.Numeral str n.toInt := by
  have hread : DataStore.parseInt32 str = .ok n ↔ parseInt str = .ok n.toInt := by
    rw [DataStore.parseInt32]
    cases h : parseInt str with
    | error e => simp [Except.map]
    | ok z =>
      obtain ⟨-, hlo, hhi⟩ := Config.parseNumber_eq_ok.mp h
      simp only [Except.map, Except.ok.injEq]
      constructor
      · rintro rfl
        exact (Int32.toInt_ofInt_of_le hlo hhi).symm
      · rintro rfl
        exact n.ofInt_toInt
  rw [hread]
  exact Config.parseNumber_eq_ok.trans (and_iff_left ⟨n.le_toInt, n.toInt_lt⟩)

/-- The texts that are read as a `long`. -/
theorem parseInt64_eq_ok {str : Text} {n : Int64} :
    DataStore.parseInt64 str = .ok n ↔ Config.Numeral str n.toInt := by
  have hread : DataStore.parseInt64 str = .ok n ↔ parseLong str = .ok n.toInt := by
    rw [DataStore.parseInt64]
    cases h : parseLong str with
    | error e => simp [Except.map]
    | ok z =>
      obtain ⟨-, hlo, hhi⟩ := Config.parseNumber_eq_ok.mp h
      simp only [Except.map, Except.ok.injEq]
      constructor
      · rintro rfl
        exact (Int64.toInt_ofInt_of_le hlo hhi).symm
      · rintro rfl
        exact n.ofInt_toInt
  rw [hread]
  exact Config.parseNumber_eq_ok.trans (and_iff_left ⟨n.le_toInt, n.toInt_lt⟩)

theorem parseInt32_decimal (n : Int32) : DataStore.parseInt32 (decimal n.toInt) = .ok n :=
  parseInt32_eq_ok.mpr (Config.numeral_decimal n.toInt)

theorem parseInt64_decimal (n : Int64) : DataStore.parseInt64 (decimal n.toInt) = .ok n :=
  parseInt64_eq_ok.mpr (Config.numeral_decimal n.toInt)

theorem stringSetLineTag_unbordered : Lib.Unbordered stringSetLineTag := by
  intro t hne hpre hsuf
  have hmem : t ∈ stringSetLineTag.inits := List.mem_inits t _ |>.2 hpre
  have hinits : ∀ u ∈ stringSetLineTag.inits, u ≠ [] → u.isSuffixOf stringSetLineTag = true →
      u = stringSetLineTag := by decide
  exact hinits t hmem hne (List.isSuffixOf_iff_suffix.2 hsuf)

section Sets

variable (P : Platform F) {s : Finset Text}

theorem mem_toArray {x : Text} : x ∈ P.toArray s ↔ x ∈ s := by
  rw [← List.mem_toFinset, P.toArray_toFinset]

theorem toArray_ne_nil (hne : s ≠ ∅) : P.toArray s ≠ [] := by
  intro h
  have := P.toArray_toFinset s
  rw [h, List.toFinset_nil] at this
  exact hne this.symm

/-- The elements of a set are read back. -/
theorem splitLines_toArray (h : (Value.set s : Value F).Valid) :
    splitLines (stringSetLineTag.intercalate (P.toArray s)) = P.toArray s := by
  obtain ⟨hne, hs⟩ := h
  have hsplit : splitBy stringSetLineTag (stringSetLineTag.intercalate (P.toArray s)) = P.toArray s :=
    Lib.splitBy_intercalate (by decide) stringSetLineTag_unbordered (toArray_ne_nil P hne)
      fun x hx => (hs x ((mem_toArray P).1 hx)).2
  have hdrop : (P.toArray s).rdropWhile List.isEmpty = P.toArray s := by
    rw [List.rdropWhile_eq_self_iff]
    intro hl hempty
    have hlast := (mem_toArray P).1 (List.getLast_mem hl)
    exact (hs _ hlast).1 (List.isEmpty_iff.1 hempty)
  simp only [splitLines, hsplit, hdrop, ite_self]

end Sets

theorem Value.stored_ne_nil (P : Platform F) {v : Value F} (hv : v.Valid) (ht : v.kind ≠ .string) :
    v.stored P ≠ [] := by
  cases v with
  | int n => exact decimal_ne_nil _
  | long n => exact decimal_ne_nil _
  | float x => exact P.valueOf_ne_nil x
  | boolean b => exact decimal_ne_nil _
  | string t => exact absurd rfl ht
  | set s =>
    intro h
    have hparts := splitLines_toArray P hv
    have hempty : P.toArray s = [[]] := by
      rw [← hparts, show stringSetLineTag.intercalate (P.toArray s) = [] from h]
      decide
    have hmem : ([] : Text) ∈ s := (mem_toArray P).1 (hempty ▸ List.mem_singleton_self _)
    exact (hv.2 [] hmem).1 rfl

theorem putData_eq (m : DefaultDataStore) (key : Text) {str : Text} (hstr : str ≠ []) :
    DataStore.putData m key str = (Function.update m key (some str), true) := by
  have : (!str.isEmpty) = true := by simpa using hstr
  rw [DataStore.putData, if_pos this]
  rfl

/-- A setter writes one string, under the key of the key and the type. -/
theorem put_eq (P : Platform F) (m : DefaultDataStore) (k : Text) {v : Value F} (hv : v.Valid) :
    DataStore.put P m k v = (Function.update m (v.kind.key k) (some (v.stored P)), true) := by
  cases v with
  | int n => exact putData_eq m _ (decimal_ne_nil _)
  | long n => exact putData_eq m _ (decimal_ne_nil _)
  | float x => exact putData_eq m _ (P.valueOf_ne_nil x)
  | boolean b => exact putData_eq m _ (decimal_ne_nil _)
  | string t =>
    show (Function.update m k (some t), true) = (Function.update m (k ++ []) (some t), true)
    rw [List.append_nil]
  | set s =>
    have hcard : s.card > 0 := Finset.card_pos.2 (Finset.nonempty_iff_ne_empty.2 hv.1)
    show DataStore.putStringSet P m k s = _
    rw [DataStore.putStringSet, if_pos hcard]
    rfl

theorem getNumericalData_some {T : Type} {m : DefaultDataStore} {key str : Text} (hm : m key = some str)
    (hstr : str ≠ []) {parse : Text → Except Thrown T} {x : T} (hx : parse str = .ok x) (d : T) :
    DataStore.getNumericalData m key parse d = x := by
  have : (!str.isEmpty) = true := by simpa using hstr
  simp [DataStore.getNumericalData, DefaultDataStore.getString, hm, this, hx,
    DefaultDataEncryptor.encode]

theorem getNumericalData_none {T : Type} {m : DefaultDataStore} {key : Text} (hm : m key = none)
    (parse : Text → Except Thrown T) (d : T) : DataStore.getNumericalData m key parse d = d := by
  simp [DataStore.getNumericalData, DefaultDataStore.getString, hm]

theorem getString_some {m : DefaultDataStore} {key str : Text} (hm : m key = some str)
    (d : Option Text) : DataStore.getString m key d = some str := by
  by_cases hd : d = some str
  · simp [DataStore.getString, DefaultDataStore.contains, DefaultDataStore.getString, hm, hd]
  · simp [DataStore.getString, DefaultDataStore.contains, DefaultDataStore.getString, hm, hd,
      DefaultDataEncryptor.decode]

theorem getString_none {m : DefaultDataStore} {key : Text} (hm : m key = none) (d : Option Text) :
    DataStore.getString m key d = d := by
  simp [DataStore.getString, DefaultDataStore.contains, hm]

/-- A getter returns the value whose text is there. -/
theorem get_some (P : Platform F) {m : DefaultDataStore} {k : Text} {v : Value F} (hv : v.Valid)
    (hm : m (v.kind.key k) = some (v.stored P)) {d : Value F} (hd : d.kind = v.kind) :
    DataStore.get P m k d = v := by
  cases v with
  | int n =>
    cases d with
    | int d => exact congrArg Value.int (getNumericalData_some hm (decimal_ne_nil _)
        (parseInt32_decimal n) d)
    | _ => cases hd
  | long n =>
    cases d with
    | long d => exact congrArg Value.long (getNumericalData_some hm (decimal_ne_nil _)
        (parseInt64_decimal n) d)
    | _ => cases hd
  | float x =>
    cases d with
    | float d => exact congrArg Value.float (getNumericalData_some hm (P.valueOf_ne_nil x)
        (P.parseFloat_valueOf x) d)
    | _ => cases hd
  | boolean b =>
    cases d with
    | boolean d =>
      have h := getNumericalData_some hm (decimal_ne_nil _) (parseInt32_decimal (DataStore.bit b))
        (DataStore.bit d)
      refine congrArg Value.boolean ?_
      show (_ == (1 : Int32)) = b
      rw [show DataStore.getNumericalData m (assembleInternalKey k Kind.boolean.dataType)
        DataStore.parseInt32 (DataStore.bit d) = DataStore.bit b from h]
      cases b <;> rfl
    | _ => cases hd
  | string t =>
    cases d with
    | string d =>
      have hm' : m k = some t := by
        have : m (k ++ []) = some t := hm
        rwa [List.append_nil] at this
      refine congrArg Value.string ?_
      rw [getString_some hm', Option.getD_some]
    | _ => cases hd
  | set s =>
    cases d with
    | set d =>
      have hstr : (!(stringSetLineTag.intercalate (P.toArray s)).isEmpty) = true := by
        simpa [Value.stored] using Value.stored_ne_nil P hv (fun h => by cases h)
      have hlen : (P.toArray s).length > 0 := List.length_pos_iff.2 (toArray_ne_nil P hv.1)
      have hm' : m (assembleInternalKey k Kind.set.dataType)
          = some (stringSetLineTag.intercalate (P.toArray s)) := hm
      refine congrArg Value.set ?_
      simp only [DataStore.getStringSet, DefaultDataStore.contains, hm', Option.isSome_some, if_true,
        getString_some hm', hstr, splitLines_toArray P hv, hlen, P.toArray_toFinset]
    | _ => cases hd

/-- A set is read from one entry. -/
theorem getStringSet_congr {m m' : DefaultDataStore} {k : Text}
    (h : m (Kind.set.key k) = m' (Kind.set.key k)) (d : Finset Text) :
    DataStore.getStringSet m k d = DataStore.getStringSet m' k d := by
  have h' : m (assembleInternalKey k Kind.set.dataType) = m' (assembleInternalKey k Kind.set.dataType) :=
    h
  cases hs : m' (assembleInternalKey k Kind.set.dataType) with
  | none =>
    rw [hs] at h'
    simp [DataStore.getStringSet, DefaultDataStore.contains, h', hs]
  | some str =>
    rw [hs] at h'
    simp only [DataStore.getStringSet, DefaultDataStore.contains, h', hs, getString_some h',
      getString_some hs]

/-- A getter returns its default where nothing is written. -/
theorem get_none (P : Platform F) {m : DefaultDataStore} {k : Text} {d : Value F}
    (hm : m (d.kind.key k) = none) : DataStore.get P m k d = d := by
  cases d with
  | int d => exact congrArg Value.int (getNumericalData_none hm _ d)
  | long d => exact congrArg Value.long (getNumericalData_none hm _ d)
  | float d => exact congrArg Value.float (getNumericalData_none hm _ d)
  | boolean d =>
    refine congrArg Value.boolean ?_
    show (_ == (1 : Int32)) = d
    rw [show DataStore.getNumericalData m (assembleInternalKey k Kind.boolean.dataType)
      DataStore.parseInt32 (DataStore.bit d) = DataStore.bit d from getNumericalData_none hm _ _]
    cases d <;> rfl
  | string d =>
    have hm' : m k = none := by
      have : m (k ++ []) = none := hm
      rwa [List.append_nil] at this
    refine congrArg Value.string ?_
    rw [getString_none hm', Option.getD_some]
  | set d =>
    have hm' : m (assembleInternalKey k Kind.set.dataType) = none := hm
    refine congrArg Value.set ?_
    simp [DataStore.getStringSet, DefaultDataStore.contains, hm']

/-! ## Sets beside a counter

Two callers write a set and then count a number up. -/

theorem getStringSet_putInt (m : DefaultDataStore) (k k' : Text) (n : Int32) (d : Finset Text) :
    DataStore.getStringSet (DataStore.putInt m k' n).1 k d = DataStore.getStringSet m k d := by
  have hkey : Kind.set.key k ≠ Kind.int.key k' := by
    intro h
    have hlen : Kind.set.dataType.length = Kind.int.dataType.length := by decide
    have hne : Kind.set.dataType ≠ Kind.int.dataType := by decide
    exact hne (List.append_inj' h hlen).2
  refine getStringSet_congr ?_ d
  rw [DataStore.putInt, putData_eq m _ (decimal_ne_nil _)]
  exact Function.update_of_ne hkey (some (decimal n.toInt)) m

/-- An empty set is not written. -/
theorem getStringSet_putStringSet (P : Platform F) (m : DefaultDataStore) (k : Text)
    {s : Finset Text} (hok : ∀ x ∈ s, x ≠ [] ∧ ¬ stringSetLineTag <:+: x) (d : Finset Text) :
    DataStore.getStringSet (DataStore.putStringSet P m k s).1 k d =
      if s = ∅ then DataStore.getStringSet m k d else s := by
  by_cases hs : s = ∅
  · rw [if_pos hs, hs]
    rfl
  · have hv : (Value.set s : Value F).Valid := ⟨hs, hok⟩
    have hput := put_eq P m k hv
    have hget := get_some P (k := k) (d := .set d) hv
      (Function.update_self (Kind.set.key k) (some ((Value.set s : Value F).stored P)) m) rfl
    rw [if_neg hs, show DataStore.putStringSet P m k s = _ from hput]
    exact Value.set.inj hget

end VpnCore.Data
