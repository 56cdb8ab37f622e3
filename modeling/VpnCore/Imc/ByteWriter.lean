import VpnCore.Config.Strings
import VpnCore.Lib.Codec

/-!
# VpnCore.Imc.ByteWriter — a writer with a buffer that grows

`BufferedByteWriter` writes through a `ByteBuffer` that wraps its array.  If there is not enough room,
`ensureCapacity` copies the array into a larger one and wraps that at the old position.  The arrays
of the program are numbered, so that it can be said which of them a call changes: the buffer and new
ones, but none that was returned before.

A method appends its bytes (`Appends`) if what it writes after `ensureCapacity` fits into the room it asked for
(`Fills`).  `toByteArray_eq` puts the calls together.
-/

namespace VpnCore.Imc

open Config (wrap)
open Lib

abbrev Bytes := List UInt8

inductive Exception
  | bufferOverflow
  | negativeArraySize
  | indexOutOfBounds
  deriving DecidableEq, Repr

/-! ## The code -/

/-- The writer and the arrays that it has used. -/
structure BufferedByteWriter where
  /-- the byte arrays, by their reference -/
  arrays : List Bytes
  mBuffer : ℕ
  /-- the array that `mWriter` wraps -/
  hb : ℕ
  /-- `mWriter.position()` -/
  position : ℕ

abbrev Method := StateT BufferedByteWriter (Except Exception)

namespace BufferedByteWriter

def array (w : BufferedByteWriter) (ref : ℕ) : Bytes := w.arrays.getD ref []

/-- `mWriter.remaining()` -/
def remaining (w : BufferedByteWriter) : ℤ := (w.array w.hb).length - w.position

/-- The constructor, where other arrays exist. -/
def new (arrays : List Bytes) (capacity : Int32) : BufferedByteWriter :=
  let capacity := if capacity > 4 then capacity.toInt.toNat else 32
  ⟨arrays ++ [List.replicate capacity 0], arrays.length, arrays.length, 0⟩

def ensureCapacity (required : ℤ) : Method Unit := fun w =>
  if w.remaining ≥ required then .ok ((), w)
  else
    let size := wrap 32 (((w.array w.mBuffer).length + required) * 2)
    if size < 0 then .error .negativeArraySize
    else if (w.array w.mBuffer).length < w.position ∨ size < w.position then .error .indexOutOfBounds
    else
      let buffer := (w.array w.mBuffer).take w.position ++ List.replicate (size.toNat - w.position) 0
      .ok ((), ⟨w.arrays ++ [buffer], w.arrays.length, w.arrays.length, w.position⟩)

/-- The relative `put` of `mWriter`. -/
def write (bs : Bytes) : Method Unit := fun w =>
  if w.remaining < bs.length then .error .bufferOverflow
  else
    let overwrite (a : Bytes) := a.take w.position ++ bs ++ a.drop (w.position + bs.length)
    .ok ((), { w with arrays := w.arrays.modify w.hb overwrite, position := w.position + bs.length })

def writeShort (value : Int16) : Method Unit := write (numberBytes 2 value.toUInt16.toNat)

def writeInt (value : Int32) : Method Unit := write (numberBytes 4 value.toUInt32.toNat)

def writeLong (value : Int64) : Method Unit := write (numberBytes 8 value.toUInt64.toNat)

def put (value : Bytes) : Method Unit := do
  ensureCapacity value.length
  write value

def putByte (value : Int8) : Method Unit := do
  ensureCapacity 1
  write [value.toUInt8]

def putLen8 (value : Bytes) : Method Unit := do
  ensureCapacity (wrap 32 (1 + value.length))
  write [UInt8.ofNat value.length]
  write value

def putLen16 (value : Bytes) : Method Unit := do
  ensureCapacity (wrap 32 (2 + value.length))
  writeShort (Int16.ofNat value.length)
  write value

def put16 (value : Int16) : Method Unit := do
  ensureCapacity 2
  writeShort value

/-- `put16(byte)` -/
def put16Byte (value : Int8) : Method Unit := put16 (value.toInt32 &&& 0xFF).toInt16

/-- `put24(byte)` -/
def put24Byte (value : Int8) : Method Unit := do
  ensureCapacity 3
  writeShort 0
  write [value.toUInt8]

/-- `put24(short)` -/
def put24Short (value : Int16) : Method Unit := do
  ensureCapacity 3
  write [0]
  writeShort value

def put24 (value : Int32) : Method Unit := do
  ensureCapacity 3
  write [(value >>> 16).toInt8.toUInt8]
  writeShort value.toInt16

def put32 (value : Int32) : Method Unit := do
  ensureCapacity 4
  writeInt value

/-- `put32(byte)` -/
def put32Byte (value : Int8) : Method Unit := put32 (value.toInt32 &&& 0xFF)

/-- `put32(short)` -/
def put32Short (value : Int16) : Method Unit := put32 (value.toInt32 &&& 0xFFFF)

def put64 (value : Int64) : Method Unit := do
  ensureCapacity 8
  writeLong value

/-- `put64(byte)` -/
def put64Byte (value : Int8) : Method Unit := put64 (value.toInt64 &&& 0xFF)

/-- `put64(short)` -/
def put64Short (value : Int16) : Method Unit := put64 (value.toInt64 &&& 0xFFFF)

/-- `put64(int)` -/
def put64Int (value : Int32) : Method Unit := put64 (value.toInt64 &&& 0xFFFFFFFF)

/-- The reference of the new array. -/
def toByteArray : Method ℕ := fun w =>
  if (w.array w.mBuffer).length < w.position then .error .indexOutOfBounds
  else .ok (w.arrays.length, { w with arrays := w.arrays ++ [(w.array w.mBuffer).take w.position] })

end BufferedByteWriter

/-- A call of the interface. -/
inductive Call
  | put (value : Bytes)
  | putByte (value : Int8)
  | putLen8 (value : Bytes)
  | putLen16 (value : Bytes)
  | put16Byte (value : Int8)
  | put16 (value : Int16)
  | put24Byte (value : Int8)
  | put24Short (value : Int16)
  | put24 (value : Int32)
  | put32Byte (value : Int8)
  | put32Short (value : Int16)
  | put32 (value : Int32)
  | put64Byte (value : Int8)
  | put64Short (value : Int16)
  | put64Int (value : Int32)
  | put64 (value : Int64)
  | toByteArray

namespace Call

open BufferedByteWriter in
/-- The call, and the arrays that it returns. -/
def run : Call → Method (List ℕ)
  | put value => (fun _ => []) <$> BufferedByteWriter.put value
  | putByte value => (fun _ => []) <$> BufferedByteWriter.putByte value
  | putLen8 value => (fun _ => []) <$> BufferedByteWriter.putLen8 value
  | putLen16 value => (fun _ => []) <$> BufferedByteWriter.putLen16 value
  | put16Byte value => (fun _ => []) <$> BufferedByteWriter.put16Byte value
  | put16 value => (fun _ => []) <$> BufferedByteWriter.put16 value
  | put24Byte value => (fun _ => []) <$> BufferedByteWriter.put24Byte value
  | put24Short value => (fun _ => []) <$> BufferedByteWriter.put24Short value
  | put24 value => (fun _ => []) <$> BufferedByteWriter.put24 value
  | put32Byte value => (fun _ => []) <$> BufferedByteWriter.put32Byte value
  | put32Short value => (fun _ => []) <$> BufferedByteWriter.put32Short value
  | put32 value => (fun _ => []) <$> BufferedByteWriter.put32 value
  | put64Byte value => (fun _ => []) <$> BufferedByteWriter.put64Byte value
  | put64Short value => (fun _ => []) <$> BufferedByteWriter.put64Short value
  | put64Int value => (fun _ => []) <$> BufferedByteWriter.put64Int value
  | put64 value => (fun _ => []) <$> BufferedByteWriter.put64 value
  | toByteArray => (fun ref => [ref]) <$> BufferedByteWriter.toByteArray

/-- What the interface promises: the value without sign in the width of the method, the most
significant byte first. -/
def encoding : Call → Bytes
  | put value => value
  | putByte value => numberBytes 1 value.toUInt8.toNat
  | putLen8 value => numberBytes 1 value.length ++ value
  | putLen16 value => numberBytes 2 value.length ++ value
  | put16Byte value => numberBytes 2 value.toUInt8.toNat
  | put16 value => numberBytes 2 value.toUInt16.toNat
  | put24Byte value => numberBytes 3 value.toUInt8.toNat
  | put24Short value => numberBytes 3 value.toUInt16.toNat
  | put24 value => numberBytes 3 (value.toUInt32.toNat % 2 ^ 24)
  | put32Byte value => numberBytes 4 value.toUInt8.toNat
  | put32Short value => numberBytes 4 value.toUInt16.toNat
  | put32 value => numberBytes 4 value.toUInt32.toNat
  | put64Byte value => numberBytes 8 value.toUInt8.toNat
  | put64Short value => numberBytes 8 value.toUInt16.toNat
  | put64Int value => numberBytes 8 value.toUInt32.toNat
  | put64 value => numberBytes 8 value.toUInt64.toNat
  | toByteArray => []

/-- The calls one after the other, with all arrays that they return. -/
def runAll : List Call → Method (List ℕ)
  | [] => pure []
  | call :: calls => do
    let refs ← call.run
    let more ← runAll calls
    return refs ++ more

/-- The concatenations at the calls of `toByteArray`, after `out`. -/
def outputs (out : Bytes) : List Call → List Bytes
  | [] => []
  | toByteArray :: calls => out :: outputs out calls
  | call :: calls => outputs (out ++ call.encoding) calls

end Call

/-! ## What the methods keep -/

namespace BufferedByteWriter

/-- `out` has been written. -/
structure Holds (w : BufferedByteWriter) (out : Bytes) : Prop where
  wraps : w.hb = w.mBuffer
  allocated : w.mBuffer < w.arrays.length
  begins : out <+: w.array w.mBuffer
  position : w.position = out.length

/-- From `w` to `w'` no array has changed but the buffer, and the new buffer is a new array. -/
structure Keeps (w w' : BufferedByteWriter) : Prop where
  length : w.arrays.length ≤ w'.arrays.length
  buffer : w'.mBuffer = w.mBuffer ∨ w.arrays.length ≤ w'.mBuffer
  same : ∀ i < w.arrays.length, i ≠ w.mBuffer → w'.array i = w.array i

variable {w w' w'' : BufferedByteWriter} {out bs bs' : Bytes} {m m' : Method Unit} {n : ℕ}

theorem Keeps.refl (w : BufferedByteWriter) : Keeps w w := ⟨le_rfl, .inl rfl, fun _ _ _ => rfl⟩

theorem Keeps.trans (h : Keeps w w') (h' : Keeps w' w'') : Keeps w w'' where
  length := h.length.trans h'.length
  buffer := by
    have := h.length
    rcases h'.buffer with heq | hle
    · exact heq ▸ h.buffer
    · exact .inr (this.trans hle)
  same i hi hne := by
    have hne' : i ≠ w'.mBuffer := by
      rcases h.buffer with heq | hle
      · exact heq ▸ hne
      · omega
    exact (h'.same i (hi.trans_le h.length) hne').trans (h.same i hi hne)

theorem array_append_left {i : ℕ} (h : i < w.arrays.length) (a : Bytes) :
    (w.arrays ++ [a]).getD i [] = w.array i := by
  rw [array, List.getD_eq_getElem?_getD, List.getElem?_append_left h, List.getD_eq_getElem?_getD]

theorem array_append_right (l : List Bytes) (a : Bytes) : (l ++ [a]).getD l.length [] = a := by
  simp

/-- `mBuffer.length` -/
def capacity (w : BufferedByteWriter) : ℕ := (w.array w.mBuffer).length

/-- There is room for `n` more bytes, or the size of a new buffer does not overflow. -/
def HasRoom (capacity position n : ℕ) : Prop := position + n ≤ capacity ∨ 2 * (capacity + n) < 2 ^ 31

instance (capacity position n : ℕ) : Decidable (HasRoom capacity position n) :=
  inferInstanceAs (Decidable (_ ∨ _))

/-- The capacity after `ensureCapacity`. -/
def grown (capacity position n : ℕ) : ℕ :=
  if position + n ≤ capacity then capacity else 2 * (capacity + n)

theorem Holds.remaining_eq (h : w.Holds out) : w.remaining = (w.capacity : ℤ) - out.length := by
  rw [remaining, h.wraps, h.position, capacity]

/-- **There is room** after `ensureCapacity`, if the size does not overflow. -/
theorem ensureCapacity_grown (h : w.Holds out) (hroom : HasRoom w.capacity out.length n) :
    ∃ w', (ensureCapacity n).run w = .ok ((), w') ∧ w'.Holds out ∧ w.Keeps w' ∧ n ≤ w'.remaining ∧
      w'.capacity = grown w.capacity out.length n := by
  have hremaining := h.remaining_eq
  obtain ⟨hwraps, hallocated, hbegins, hposition⟩ := h
  have hlen : out.length ≤ w.capacity := hbegins.length_le
  by_cases hfits : out.length + n ≤ w.capacity
  · have hn : w.remaining ≥ n := by omega
    exact ⟨w, if_pos hn, ⟨hwraps, hallocated, hbegins, hposition⟩, .refl w, hn, (if_pos hfits).symm⟩
  · have hless := hroom.resolve_left hfits
    have hsize : wrap 32 (((w.array w.mBuffer).length + (n : ℤ)) * 2) = (w.capacity + n) * 2 := by
      rw [wrap, ← capacity, Int.bmod_eq_of_le] <;> omega
    have hnat : ((w.capacity + (n : ℤ)) * 2).toNat = 2 * (w.capacity + n) := by omega
    have htake : (w.array w.mBuffer).take w.position = out := by
      rw [hposition]
      exact (List.prefix_iff_eq_take.mp hbegins).symm
    have hrun : (ensureCapacity n).run w = .ok ((),
        ⟨w.arrays ++ [out ++ List.replicate (2 * (w.capacity + n) - out.length) 0],
          w.arrays.length, w.arrays.length, w.position⟩) := by
      change ensureCapacity n w = _
      rw [ensureCapacity, if_neg (by omega)]
      dsimp only
      rw [hsize, if_neg (by omega), ← capacity, if_neg (by omega), htake, hposition, hnat]
    refine ⟨_, hrun, ⟨rfl, by simp, ?_, hposition⟩, ⟨by simp, .inr le_rfl, fun i hi _ => ?_⟩, ?_, ?_⟩
    · rw [array]
      dsimp only
      rw [array_append_right]
      exact List.prefix_append _ _
    · exact array_append_left hi _
    · rw [remaining, array]
      dsimp only
      rw [array_append_right, hposition, List.length_append, List.length_replicate]
      omega
    · rw [grown, if_neg hfits, capacity, array]
      dsimp only
      rw [array_append_right, List.length_append, List.length_replicate]
      omega

/-- Otherwise the size is negative, or too small for what has been written. -/
theorem ensureCapacity_overflows (h : w.Holds out) (hroom : ¬ HasRoom w.capacity out.length n)
    (hcapacity : w.capacity < 2 ^ 31) (hn : n < 2 ^ 28) : ∃ e, (ensureCapacity n).run w = .error e := by
  have hremaining := h.remaining_eq
  have hposition := h.position
  rw [HasRoom, not_or] at hroom
  change ∃ e, ensureCapacity n w = .error e
  rw [ensureCapacity, if_neg (by omega)]
  dsimp only
  rw [← capacity]
  split_ifs with hneg hsmall
  · exact ⟨_, rfl⟩
  · exact ⟨_, rfl⟩
  · rw [wrap, Int.bmod_def] at hneg hsmall
    omega

theorem ensureCapacity_spec (h : w.Holds out) (hn : out.length + n < 2 ^ 28) :
    ∃ w', (ensureCapacity n).run w = .ok ((), w') ∧ w'.Holds out ∧ w.Keeps w' ∧ n ≤ w'.remaining := by
  have hroom : HasRoom w.capacity out.length n := by
    unfold HasRoom
    omega
  obtain ⟨w', hrun, hholds, hkeeps, hleft, -⟩ := ensureCapacity_grown h hroom
  exact ⟨w', hrun, hholds, hkeeps, hleft⟩

/-- The method writes `bs` if there is room for them. -/
def Fills (m : Method Unit) (bs : Bytes) : Prop :=
  ∀ w out, Holds w out → bs.length ≤ w.remaining →
    ∃ w', m.run w = .ok ((), w') ∧ w'.Holds (out ++ bs) ∧ w.Keeps w' ∧
      w'.remaining = w.remaining - bs.length

theorem fills_write (bs : Bytes) : Fills (write bs) bs := by
  intro w out ⟨hwraps, hallocated, hbegins, hposition⟩ hroom
  obtain ⟨rest, hrest⟩ := hbegins
  have hlen : (w.array w.mBuffer).length = out.length + rest.length := by rw [← hrest, List.length_append]
  have hfits : bs.length ≤ rest.length := by
    rw [remaining, hwraps, hlen, hposition] at hroom
    omega
  have hbuffer : (w.arrays.modify w.hb fun a =>
      a.take w.position ++ bs ++ a.drop (w.position + bs.length)).getD w.mBuffer [] =
        out ++ bs ++ rest.drop bs.length := by
    have hget : w.arrays[w.mBuffer]? = some (out ++ rest) := by
      rw [hrest, array, List.getD_eq_getElem?_getD, List.getElem?_eq_getElem hallocated, Option.getD_some]
    rw [List.getD_eq_getElem?_getD, hwraps, List.getElem?_modify_eq, hget, hposition]
    simp [List.drop_append]
  refine ⟨_, if_neg (not_lt.mpr hroom), ⟨hwraps, ?_, ?_, ?_⟩, ⟨?_, .inl rfl, fun i _ hi => ?_⟩, ?_⟩
  · rw [List.length_modify]
    exact hallocated
  · rw [array, hbuffer]
    exact List.prefix_append _ _
  · rw [List.length_append, hposition]
  · rw [List.length_modify]
  · rw [array, array, List.getD_eq_getElem?_getD, List.getElem?_modify_ne _ _ (by rw [hwraps]; exact hi.symm),
      ← List.getD_eq_getElem?_getD]
  · rw [remaining, remaining, array]
    dsimp only
    rw [hwraps] at hbuffer ⊢
    rw [hbuffer, hlen, List.length_append, List.length_append, List.length_drop]
    omega

theorem Fills.bind (h : Fills m bs) (h' : Fills m' bs') : Fills (m >>= fun _ => m') (bs ++ bs') := by
  intro w out hw hroom
  rw [List.length_append] at hroom
  obtain ⟨w₁, hrun, hholds, hkeeps, hleft⟩ := h w out hw (by omega)
  obtain ⟨w₂, hrun', hholds', hkeeps', hleft'⟩ := h' w₁ _ hholds (by omega)
  refine ⟨w₂, ?_, by rwa [← List.append_assoc], hkeeps.trans hkeeps', ?_⟩
  · rw [StateT.run_bind, hrun]
    exact hrun'
  · rw [List.length_append, hleft', hleft]
    omega

/-- The method appends `bs`. -/
def Appends (m : Method Unit) (bs : Bytes) : Prop :=
  ∀ w out, Holds w out → out.length + bs.length < 2 ^ 28 →
    ∃ w', m.run w = .ok ((), w') ∧ w'.Holds (out ++ bs) ∧ w.Keeps w'

/-- A method that makes room for what it writes. -/
theorem Fills.appends {required : ℤ} (h : Fills m bs) (hr : bs.length < 2 ^ 28 → required = bs.length) :
    Appends (ensureCapacity required >>= fun _ => m) bs := by
  intro w out hw hsmall
  rw [hr (by omega)]
  obtain ⟨w₁, hrun, hholds, hkeeps, hroom⟩ := ensureCapacity_spec hw hsmall
  obtain ⟨w₂, hrun', hholds', hkeeps', -⟩ := h w₁ out hholds hroom
  refine ⟨w₂, ?_, hholds', hkeeps.trans hkeeps'⟩
  rw [StateT.run_bind, hrun]
  exact hrun'

theorem Appends.bind (h : Appends m bs) (h' : Appends m' bs') :
    Appends (m >>= fun _ => m') (bs ++ bs') := by
  intro w out hw hsmall
  rw [List.length_append] at hsmall
  obtain ⟨w₁, hrun, hholds, hkeeps⟩ := h w out hw (by omega)
  obtain ⟨w₂, hrun', hholds', hkeeps'⟩ := h' w₁ _ hholds (by rw [List.length_append]; omega)
  refine ⟨w₂, ?_, by rwa [← List.append_assoc], hkeeps.trans hkeeps'⟩
  rw [StateT.run_bind, hrun]
  exact hrun'

theorem appends_pure : Appends (pure ()) [] :=
  fun w out hw _ => ⟨w, rfl, by rwa [List.append_nil], .refl w⟩

theorem appends_forM {α : Type} {f : α → Method Unit} {g : α → Bytes} (h : ∀ x, Appends (f x) (g x)) :
    ∀ l : List α, Appends (l.forM f) (l.flatMap g)
  | [] => appends_pure
  | x :: l => (h x).bind (appends_forM h l)

/-! ## How the buffer grows -/

/-- The capacity after the method has put `sizes` bytes one after the other, if no size overflows. -/
def growth (capacity position : ℕ) : List ℕ → Option ℕ
  | [] => some capacity
  | n :: sizes =>
    if HasRoom capacity position n then growth (grown capacity position n) (position + n) sizes else none

theorem growth_append {c p : ℕ} {a b : List ℕ} :
    growth c p (a ++ b) = (growth c p a).bind fun c' => growth c' (p + a.sum) b := by
  induction a generalizing c p with
  | nil => rfl
  | cons n a ih =>
    rw [List.cons_append, growth, growth]
    split_ifs
    · rw [ih, List.sum_cons, Nat.add_assoc]
    · rfl

theorem growth_lt {c p c' : ℕ} {sizes : List ℕ} (hc : c < 2 ^ 31) (h : growth c p sizes = some c') :
    c' < 2 ^ 31 := by
  induction sizes generalizing c p with
  | nil => exact Option.some.inj h ▸ hc
  | cons n sizes ih =>
    rw [growth] at h
    split_ifs at h with hroom
    refine ih ?_ h
    unfold grown
    split_ifs with hfits
    · exact hc
    · exact hroom.resolve_left hfits

/-- Whatever fits is not larger than the capacity in the end. -/
theorem sum_le_growth {c p c' : ℕ} {sizes : List ℕ} (hp : p ≤ c) (h : growth c p sizes = some c') :
    p + sizes.sum ≤ c' := by
  induction sizes generalizing c p with
  | nil => exact Option.some.inj h ▸ hp
  | cons n sizes ih =>
    rw [growth] at h
    split_ifs at h with hroom
    rw [List.sum_cons, ← Nat.add_assoc]
    refine ih ?_ h
    unfold grown
    split_ifs with hfits
    · exact hfits
    · omega

/-- The method puts the pieces, or throws if the size of a buffer overflows. -/
structure Puts (m : Method Unit) (pieces : List Bytes) : Prop where
  fits : ∀ {w out c}, Holds w out → w.capacity < 2 ^ 31 →
    growth w.capacity out.length (pieces.map List.length) = some c →
      ∃ w', m.run w = .ok ((), w') ∧ w'.Holds (out ++ pieces.flatten) ∧ w'.capacity = c
  overflows : ∀ {w out}, Holds w out → w.capacity < 2 ^ 31 →
    growth w.capacity out.length (pieces.map List.length) = none → ∃ e, m.run w = .error e

/-- A method that makes room for what it writes. -/
theorem Fills.puts {required : ℤ} (h : Fills m bs) (hr : required = bs.length) (hsmall : bs.length < 2 ^ 28) :
    Puts (ensureCapacity required >>= fun _ => m) [bs] := by
  rw [hr]
  constructor
  · intro w out c hw hcapacity hgrowth
    rw [List.map_singleton, growth] at hgrowth
    split_ifs at hgrowth with hroom
    obtain ⟨w₁, hrun, hholds, -, hleft, hgrown⟩ := ensureCapacity_grown hw hroom
    obtain ⟨w₂, hrun', hholds', -, hleft'⟩ := h w₁ out hholds hleft
    refine ⟨w₂, ?_, by simpa using hholds', ?_⟩
    · rw [StateT.run_bind, hrun]
      exact hrun'
    · rw [← Option.some.inj hgrowth, ← hgrown]
      rw [hholds'.remaining_eq, hholds.remaining_eq, List.length_append] at hleft'
      omega
  · intro w out hw hcapacity hgrowth
    rw [List.map_singleton, growth] at hgrowth
    split_ifs at hgrowth with hroom
    · cases hgrowth
    obtain ⟨e, herror⟩ := ensureCapacity_overflows hw hroom hcapacity hsmall
    refine ⟨e, ?_⟩
    rw [StateT.run_bind, herror]
    rfl

theorem Puts.bind {a b : List Bytes} (h : Puts m a) (h' : Puts m' b) :
    Puts (m >>= fun _ => m') (a ++ b) := by
  -- after the first method the second one starts from the capacity that has been reached
  have hthen : ∀ {w w₁}, m.run w = .ok ((), w₁) → (m >>= fun _ => m').run w = m'.run w₁ := by
    intro w w₁ hrun
    rw [StateT.run_bind, hrun]
    rfl
  constructor
  · intro w out c hw hcapacity hgrowth
    rw [List.map_append, growth_append, Option.bind_eq_some_iff] at hgrowth
    obtain ⟨c₁, hfirst, hsecond⟩ := hgrowth
    obtain ⟨w₁, hrun, hholds, rfl⟩ := h.fits hw hcapacity hfirst
    rw [← List.length_flatten, ← List.length_append] at hsecond
    rw [hthen hrun, List.flatten_append, ← List.append_assoc]
    exact h'.fits hholds (growth_lt hcapacity hfirst) hsecond
  · intro w out hw hcapacity hgrowth
    rw [List.map_append, growth_append] at hgrowth
    cases hfirst : growth w.capacity out.length (a.map List.length) with
    | none =>
      obtain ⟨e, herror⟩ := h.overflows hw hcapacity hfirst
      refine ⟨e, ?_⟩
      rw [StateT.run_bind, herror]
      rfl
    | some c₁ =>
      obtain ⟨w₁, hrun, hholds, rfl⟩ := h.fits hw hcapacity hfirst
      rw [hfirst, Option.bind_some, ← List.length_flatten, ← List.length_append] at hgrowth
      rw [hthen hrun]
      exact h'.overflows hholds (growth_lt hcapacity hfirst) hgrowth

theorem puts_pure : Puts (pure ()) [] where
  fits hw _ hgrowth := ⟨_, rfl, by simpa using hw, Option.some.inj hgrowth⟩
  overflows _ _ hgrowth := by cases hgrowth

theorem puts_forM {α : Type} {f : α → Method Unit} {g : α → List Bytes} :
    ∀ {l : List α}, (∀ x ∈ l, Puts (f x) (g x)) → Puts (l.forM f) (l.flatMap g)
  | [], _ => puts_pure
  | x :: l, h => by
    rw [List.forall_mem_cons] at h
    exact h.1.bind (puts_forM h.2)

/-! ## The methods -/

theorem appends_put (value : Bytes) : Appends (put value) value := (fills_write value).appends fun _ => rfl

theorem appends_putByte (value : Int8) : Appends (putByte value) (numberBytes 1 value.toUInt8.toNat) := by
  rw [numberBytes_one, UInt8.ofNat_toNat]
  exact (fills_write _).appends fun _ => rfl

theorem appends_putLen8 (value : Bytes) : Appends (putLen8 value) (numberBytes 1 value.length ++ value) := by
  refine ((fills_write (numberBytes 1 _)).bind (fills_write value)).appends fun h => ?_
  rw [List.length_append, length_numberBytes] at h ⊢
  rw [wrap, Int.bmod_eq_of_le] <;> omega

theorem fills_len16 (value : Bytes) :
    Fills (writeShort (Int16.ofNat value.length) >>= fun _ => write value)
      (numberBytes 2 value.length ++ value) := by
  have hlen : numberBytes 2 (Int16.ofNat value.length).toUInt16.toNat = numberBytes 2 value.length := by
    rw [← numberBytes_mod value.length]
    rfl
  rw [← hlen]
  exact (fills_write _).bind (fills_write value)

/-- The number of bytes that `putLen16` asks for. -/
theorem wrap_len16 {value : Bytes} (h : (numberBytes 2 value.length ++ value).length < 2 ^ 28) :
    wrap 32 (2 + value.length) = (numberBytes 2 value.length ++ value).length := by
  rw [List.length_append, length_numberBytes] at h ⊢
  rw [wrap, Int.bmod_eq_of_le] <;> omega

theorem appends_putLen16 (value : Bytes) :
    Appends (putLen16 value) (numberBytes 2 value.length ++ value) :=
  (fills_len16 value).appends wrap_len16

theorem puts_putLen16 {value : Bytes} (h : (numberBytes 2 value.length ++ value).length < 2 ^ 28) :
    Puts (putLen16 value) [numberBytes 2 value.length ++ value] :=
  (fills_len16 value).puts (wrap_len16 h) h

theorem appends_put16 (value : Int16) : Appends (put16 value) (numberBytes 2 value.toUInt16.toNat) :=
  (fills_write _).appends fun _ => by rw [length_numberBytes]; rfl

/-- `(short)value` has the lower bytes. -/
theorem toNat_toInt16 (value : Int32) : value.toInt16.toUInt16.toNat = value.toUInt32.toNat % 256 ^ 2 := by
  change (value.toBitVec.signExtend 16).toNat = value.toBitVec.toNat % 2 ^ 16
  rw [BitVec.signExtend_eq_setWidth_of_le _ (by decide), BitVec.toNat_setWidth]

/-- `(byte)(value >> 16)` has the next one; the sign that is shifted in stays above. -/
theorem toNat_shifted (value : Int32) :
    (value >>> 16).toInt8.toUInt8.toNat = value.toUInt32.toNat / 256 ^ 2 % 256 := by
  change ((value.toBitVec.sshiftRight 16).signExtend 8).toNat = value.toBitVec.toNat / 2 ^ 16 % 2 ^ 8
  have hshift : (value.toBitVec.sshiftRight 16).setWidth 8 = (value.toBitVec >>> 16).setWidth 8 := by
    refine BitVec.eq_of_getLsbD_eq fun i hi => ?_
    have hlow : 16 + i < 32 := by omega
    have hin : ¬ 32 ≤ i := by omega
    rw [BitVec.getLsbD_setWidth, BitVec.getLsbD_setWidth, BitVec.getLsbD_sshiftRight,
      BitVec.getLsbD_ushiftRight, if_pos hlow]
    simp [hin]
  rw [BitVec.signExtend_eq_setWidth_of_le _ (by decide), hshift, BitVec.toNat_setWidth,
    BitVec.toNat_ushiftRight, Nat.shiftRight_eq_div_pow]

/-- Three bytes are one and two, or two and one. -/
theorem appends_put24 (value : Int32) :
    Appends (put24 value) (numberBytes 3 (value.toUInt32.toNat % 2 ^ 24)) := by
  have hhigh : [(value >>> 16).toInt8.toUInt8] = numberBytes 1 (value.toUInt32.toNat / 256 ^ 2) := by
    rw [numberBytes_one, List.singleton_inj, ← UInt8.toNat_inj, toNat_shifted, UInt8.toNat_ofNat']
  have hlow : numberBytes 2 value.toInt16.toUInt16.toNat = numberBytes 2 value.toUInt32.toNat := by
    rw [toNat_toInt16, numberBytes_mod]
  have hbytes : numberBytes 3 (value.toUInt32.toNat % 2 ^ 24) =
      [(value >>> 16).toInt8.toUInt8] ++ numberBytes 2 value.toInt16.toUInt16.toNat := by
    rw [hhigh, hlow, ← numberBytes_add 1 _ 2]
    exact numberBytes_mod _ 3
  rw [hbytes]
  exact ((fills_write _).bind (fills_write _)).appends fun _ => by
    rw [List.length_append, length_numberBytes]
    rfl

theorem appends_put24Byte (value : Int8) :
    Appends (put24Byte value) (numberBytes 3 value.toUInt8.toNat) := by
  have hbytes : numberBytes 3 value.toUInt8.toNat = numberBytes 2 0 ++ [value.toUInt8] := by
    rw [numberBytes_add 2 _ 1, numberBytes_one, UInt8.ofNat_toNat, pow_one,
      Nat.div_eq_of_lt value.toUInt8.toNat_lt]
  rw [hbytes]
  exact ((fills_write _).bind (fills_write _)).appends fun _ => rfl

theorem appends_put24Short (value : Int16) :
    Appends (put24Short value) (numberBytes 3 value.toUInt16.toNat) := by
  have hbytes : numberBytes 3 value.toUInt16.toNat = [0] ++ numberBytes 2 value.toUInt16.toNat := by
    rw [numberBytes_add 1 _ 2, numberBytes_one, Nat.div_eq_of_lt (b := 256 ^ 2) value.toUInt16.toNat_lt]
    rfl
  rw [hbytes]
  exact ((fills_write _).bind (fills_write _)).appends fun _ => by
    rw [List.length_append, length_numberBytes]
    rfl

theorem appends_put32 (value : Int32) : Appends (put32 value) (numberBytes 4 value.toUInt32.toNat) :=
  (fills_write _).appends fun _ => by rw [length_numberBytes]; rfl

theorem puts_put32 (value : Int32) : Puts (put32 value) [numberBytes 4 value.toUInt32.toNat] :=
  (fills_write _).puts (by rw [length_numberBytes]; rfl) (by rw [length_numberBytes]; decide)

theorem appends_put64 (value : Int64) : Appends (put64 value) (numberBytes 8 value.toUInt64.toNat) :=
  (fills_write _).appends fun _ => by rw [length_numberBytes]; rfl

/-! ### Values that are widened -/

theorem toNat_mask8 (value : Int8) : (value.toInt32 &&& 0xFF).toUInt32.toNat = value.toUInt8.toNat :=
  toNat_signExtend_and (by decide) value.toBitVec 0xFF#32 rfl

theorem toNat_mask16 (value : Int16) :
    (value.toInt32 &&& 0xFFFF).toUInt32.toNat = value.toUInt16.toNat :=
  toNat_signExtend_and (by decide) value.toBitVec 0xFFFF#32 rfl

theorem toNat_longMask8 (value : Int8) : (value.toInt64 &&& 0xFF).toUInt64.toNat = value.toUInt8.toNat :=
  toNat_signExtend_and (by decide) value.toBitVec 0xFF#64 rfl

theorem toNat_longMask16 (value : Int16) :
    (value.toInt64 &&& 0xFFFF).toUInt64.toNat = value.toUInt16.toNat :=
  toNat_signExtend_and (by decide) value.toBitVec 0xFFFF#64 rfl

theorem toNat_longMask32 (value : Int32) :
    (value.toInt64 &&& 0xFFFFFFFF).toUInt64.toNat = value.toUInt32.toNat :=
  toNat_signExtend_and (by decide) value.toBitVec 0xFFFFFFFF#64 rfl

theorem Appends.of_toNat {width k k' : ℕ} (h : Appends m (numberBytes width k)) (heq : k = k') :
    Appends m (numberBytes width k') := heq ▸ h

theorem appends_put16Byte (value : Int8) :
    Appends (put16Byte value) (numberBytes 2 value.toUInt8.toNat) := by
  have happends := appends_put16 (value.toInt32 &&& 0xFF).toInt16
  rwa [toNat_toInt16, toNat_mask8, numberBytes_mod] at happends

/-- **Every method that writes** appends the encoding. -/
theorem appends_call (call : Call) (h : call ≠ .toByteArray) :
    ∃ m, call.run = (fun _ => []) <$> m ∧ Appends m call.encoding := by
  cases call with
  | put value => exact ⟨_, rfl, appends_put value⟩
  | putByte value => exact ⟨_, rfl, appends_putByte value⟩
  | putLen8 value => exact ⟨_, rfl, appends_putLen8 value⟩
  | putLen16 value => exact ⟨_, rfl, appends_putLen16 value⟩
  | put16Byte value => exact ⟨_, rfl, appends_put16Byte value⟩
  | put16 value => exact ⟨_, rfl, appends_put16 value⟩
  | put24Byte value => exact ⟨_, rfl, appends_put24Byte value⟩
  | put24Short value => exact ⟨_, rfl, appends_put24Short value⟩
  | put24 value => exact ⟨_, rfl, appends_put24 value⟩
  | put32Byte value => exact ⟨_, rfl, (appends_put32 _).of_toNat (toNat_mask8 value)⟩
  | put32Short value => exact ⟨_, rfl, (appends_put32 _).of_toNat (toNat_mask16 value)⟩
  | put32 value => exact ⟨_, rfl, appends_put32 value⟩
  | put64Byte value => exact ⟨_, rfl, (appends_put64 _).of_toNat (toNat_longMask8 value)⟩
  | put64Short value => exact ⟨_, rfl, (appends_put64 _).of_toNat (toNat_longMask16 value)⟩
  | put64Int value => exact ⟨_, rfl, (appends_put64 _).of_toNat (toNat_longMask32 value)⟩
  | put64 value => exact ⟨_, rfl, appends_put64 value⟩
  | toByteArray => exact absurd rfl h

/-! ## Sequences of calls -/

/-- The array `ref` has been returned with these bytes. -/
structure Returned (w : BufferedByteWriter) (ref : ℕ) (bs : Bytes) : Prop where
  lt : ref < w.arrays.length
  ne : ref ≠ w.mBuffer
  eq : w.array ref = bs

theorem Keeps.returned (h : w.Keeps w') {ref : ℕ} (hr : w.Returned ref bs) : w'.Returned ref bs := by
  obtain ⟨hlt, hne, heq⟩ := hr
  refine ⟨hlt.trans_le h.length, ?_, (h.same ref hlt hne).trans heq⟩
  rcases h.buffer with hb | hb
  · exact hb ▸ hne
  · omega

/-- A new array with what has been written. -/
theorem toByteArray_spec (h : w.Holds out) :
    ∃ ref w', toByteArray.run w = .ok (ref, w') ∧ w'.Holds out ∧ w.Keeps w' ∧ w'.Returned ref out := by
  obtain ⟨hwraps, hallocated, hbegins, hposition⟩ := h
  have hlen := hbegins.length_le
  have htake : (w.array w.mBuffer).take w.position = out := by
    rw [hposition]
    exact (List.prefix_iff_eq_take.mp hbegins).symm
  have hrun : toByteArray.run w = .ok (w.arrays.length, { w with arrays := w.arrays ++ [out] }) := by
    change toByteArray w = _
    rw [toByteArray, if_neg (by omega), htake]
  refine ⟨_, _, hrun, ⟨hwraps, ?_, ?_, hposition⟩, ⟨by simp, .inl rfl, fun i hi _ => ?_⟩, ⟨by simp, ?_, ?_⟩⟩
  · exact hallocated.trans_le (by simp)
  · rw [array, array_append_left hallocated]
    exact hbegins
  · exact array_append_left hi _
  · exact Nat.ne_of_gt hallocated
  · exact array_append_right _ _

/-- **A sequence of calls** keeps what was returned and returns the concatenations. -/
theorem runAll_spec : ∀ (calls : List Call) (w : BufferedByteWriter) (out : Bytes), w.Holds out →
    (out ++ calls.flatMap Call.encoding).length < 2 ^ 28 →
    ∃ refs w', (Call.runAll calls).run w = .ok (refs, w') ∧ w.Keeps w' ∧
      List.Forall₂ w'.Returned refs (Call.outputs out calls)
  | [], w, out, _, _ => ⟨[], w, rfl, .refl w, .nil⟩
  | call :: calls, w, out, hw, hsmall => by
    rw [List.flatMap_cons, ← List.append_assoc] at hsmall
    by_cases hcall : call = .toByteArray
    · subst hcall
      obtain ⟨ref, w₁, hrun, hholds, hkeeps, hreturned⟩ := toByteArray_spec hw
      rw [Call.encoding, List.append_nil] at hsmall
      obtain ⟨refs, w₂, hrun', hkeeps', hall⟩ := runAll_spec calls w₁ out hholds hsmall
      refine ⟨ref :: refs, w₂, ?_, hkeeps.trans hkeeps', .cons (hkeeps'.returned hreturned) hall⟩
      rw [Call.runAll, Call.run, StateT.run_bind, StateT.run_map, hrun]
      exact congrArg (fun r => r.map fun p => (ref :: p.1, p.2)) hrun'
    · obtain ⟨m, hm, happends⟩ := appends_call call hcall
      have hfirst : out.length + call.encoding.length < 2 ^ 28 := by
        simp only [List.length_append] at hsmall
        omega
      obtain ⟨w₁, hrun, hholds, hkeeps⟩ := happends w out hw hfirst
      obtain ⟨refs, w₂, hrun', hkeeps', hall⟩ := runAll_spec calls w₁ _ hholds hsmall
      refine ⟨refs, w₂, ?_, hkeeps.trans hkeeps', ?_⟩
      · rw [Call.runAll, hm, StateT.run_bind, StateT.run_map, hrun]
        exact congrArg (fun r => r.map fun p => (p.1, p.2)) hrun'
      · rwa [Call.outputs]
        exact hcall

end BufferedByteWriter

open BufferedByteWriter in
/-- **The output of a writer**, whatever its capacity was: every call of `toByteArray` returns the
concatenation of the encodings before it, and after all calls the returned arrays are as they were and so
are the arrays of the program. -/
theorem toByteArray_eq (arrays : List Bytes) (capacity : Int32) (calls : List Call)
    (hsmall : (calls.flatMap Call.encoding).length < 2 ^ 28) :
    ∃ refs w, (Call.runAll calls).run (new arrays capacity) = .ok (refs, w) ∧
      refs.map w.array = Call.outputs [] calls ∧ ∀ i < arrays.length, w.array i = arrays.getD i [] := by
  have hnew : (new arrays capacity).Holds [] := ⟨rfl, by simp [new], List.nil_prefix, rfl⟩
  obtain ⟨refs, w, hrun, hkeeps, hall⟩ := runAll_spec calls _ [] hnew hsmall
  refine ⟨refs, w, hrun, ?_, fun i hi => ?_⟩
  · rw [← List.forall₂_eq_eq_eq, List.forall₂_map_left_iff]
    exact hall.imp fun _ _ h => h.eq
  · have hlt : i < (new arrays capacity).arrays.length := by
      simp only [new, List.length_append]
      omega
    rw [hkeeps.same i hlt (Nat.ne_of_lt hi), array, new, List.getD_eq_getElem?_getD,
      List.getElem?_append_left hi, List.getD_eq_getElem?_getD]

open BufferedByteWriter in
/-- The buffer of five bytes grows for the second number. -/
theorem toByteArray_eq_twoArrays :
    ∃ refs w, (Call.runAll [.put16 (Int16.ofNat 0xbeef), .toByteArray, .put64 (-2), .toByteArray]).run
        (new [] 5) = .ok (refs, w) ∧
      refs.map w.array =
        [[0xbe, 0xef], [0xbe, 0xef, 0xff, 0xff, 0xff, 0xff, 0xff, 0xff, 0xff, 0xfe]] := by
  obtain ⟨refs, w, hrun, houtputs, -⟩ :=
    toByteArray_eq [] 5 [.put16 (Int16.ofNat 0xbeef), .toByteArray, .put64 (-2), .toByteArray] (by decide)
  exact ⟨refs, w, hrun, houtputs⟩

end VpnCore.Imc
