import Mathlib.Logic.Equiv.Basic
import VpnCore.Lib.Cbc
import VpnCore.Lib.Endings

/-!
# VpnCore.Crypt.AesCbc — `encryptData` and `decryptData`

The native code encrypts a byte array with AES in CBC mode after padding it to whole blocks, and removes the
padding after decryption by subtracting the last byte from the length.  Buffers are lists, and every
access is checked against their length.  The loops of OpenSSL are those of `cbc128.c`, where the last
block of the input is read as a whole even if less of it is left.

The code stays in its buffers iff the input is not empty, has whole blocks, and the byte that is taken
for the padding is not more than the length (`decryptData_inBounds_iff`).
-/

namespace VpnCore.Crypt

open Lib

abbrev Bytes := List UInt8

/-- What native code does not report. -/
inductive Fault
  /-- an access outside of a buffer -/
  | outOfBounds
  /-- the null of `NewByteArray` for a negative length is used as an array -/
  | nullArray
  deriving DecidableEq, Repr

/-! ## Blocks -/

/-- `AES_BLOCK_SIZE` -/
def blockSize : ℕ := 16

abbrev Block := {b : Bytes // b.length = blockSize}

def Block.xor (a b : Block) : Block :=
  ⟨List.zipWith (· ^^^ ·) a.val b.val, by rw [List.length_zipWith, a.property, b.property, Nat.min_self]⟩

/-- `AES_encrypt` and `AES_decrypt` with the key. -/
structure BlockCipher where
  encrypt : Block → Block
  decrypt : Block → Block
  decrypt_encrypt : ∀ b, decrypt (encrypt b) = b

/-- Sixteen bytes of a buffer from `i` on. -/
def readBlock (data : Bytes) (i : ℕ) : Except Fault Block :=
  if h : i + blockSize ≤ data.length then
    .ok ⟨(data.drop i).take blockSize, by rw [List.length_take, List.length_drop]; omega⟩
  else .error .outOfBounds

/-- Bytes into a buffer from `i` on. -/
def writeBytes (out : Bytes) (i : ℕ) (bs : Bytes) : Except Fault Bytes :=
  if i + bs.length ≤ out.length then .ok (out.take i ++ bs ++ out.drop (i + bs.length))
  else .error .outOfBounds

/-! ## OpenSSL -/

/-- The loops of `cbc128.c` over two buffers, with `len` bytes left from `i` on.  `step` gives the block that is
written and the next `iv`, and `last` is for less than a block. -/
def cbc128 (data : Bytes) (step : Block → Block → Block × Block)
    (last : ℕ → ℕ → Block → Bytes → Except Fault Bytes) (len i : ℕ) (iv : Block) (out : Bytes) :
    Except Fault Bytes :=
  if blockSize ≤ len then do
    let b ← readBlock data i
    let out ← writeBytes out i (step iv b).1.val
    cbc128 data step last (len - blockSize) (i + blockSize) (step iv b).2 out
  else if 0 < len then last len i iv out
  else .ok out
termination_by len
decreasing_by
  simp only [blockSize] at *
  omega

section

variable (aes : BlockCipher) (data : Bytes)

def encryptStep (iv b : Block) : Block × Block :=
  (aes.encrypt (b.xor iv), aes.encrypt (b.xor iv))

def decryptStep (iv c : Block) : Block × Block := ((aes.decrypt c).xor iv, c)

/-- `CRYPTO_cbc128_encrypt` -/
def cbc128Encrypt : (len i : ℕ) → (iv : Block) → (out : Bytes) → Except Fault Bytes :=
  cbc128 data (encryptStep aes) fun len i iv out =>
    -- a partial block is filled up with `iv`
    if i + len ≤ data.length then
      let b : Bytes := List.zipWith (· ^^^ ·) ((data.drop i).take len) iv.val ++ iv.val.drop len
      if h : b.length = blockSize then writeBytes out i (aes.encrypt ⟨b, h⟩).val
      else .error .outOfBounds
    else .error .outOfBounds

/-- `CRYPTO_cbc128_decrypt`, for `in` and `out` that differ. -/
def cbc128Decrypt : (len i : ℕ) → (iv : Block) → (out : Bytes) → Except Fault Bytes :=
  cbc128 data (decryptStep aes) fun len i iv out => do
    -- the cipher takes sixteen bytes also here
    let c ← readBlock data i
    writeBytes out i ((decryptStep aes iv c).1.val.take len)

end

/-! ## The code -/

/-- The loop writes the padding from `len` to `paddinglen`. -/
def pkcs7padding (data : Bytes) (paddinglen len : UInt32) : Except Fault Bytes :=
  let paddingData := UInt8.ofNat (blockSize - len.toNat % blockSize)
  writeBytes data len.toNat (List.replicate (paddinglen.toNat - len.toNat) paddingData)

def pkcs7unpadding (data : Bytes) (len : UInt32) : Except Fault UInt32 :=
  match data[(len - 1).toNat]? with
  | some b => .ok (len - b.toUInt32)
  | none => .error .outOfBounds

/-- `IV` -/
def iv : Block := ⟨"10af4d2f3a5ba8ed".toList.map fun c => UInt8.ofNat c.toNat, rfl⟩

section

variable (aes : BlockCipher)

/-- Pad, then encrypt block after block. -/
def AESEncodeData (data : Bytes) (len : UInt32) : Except Fault (Bytes × UInt32) := do
  let padding := UInt32.ofNat blockSize - len % UInt32.ofNat blockSize
  let dataLength := len + padding
  let dataBak := List.replicate dataLength.toNat 0
  let dataBak ← writeBytes dataBak 0 (data.take len.toNat)
  let dataBak ← pkcs7padding dataBak dataLength len
  let out := List.replicate dataLength.toNat 0
  let out ← cbc128Encrypt aes dataBak dataLength.toNat 0 iv out
  return (out, dataLength)

/-- Decrypt block after block, then unpad. -/
def AESDecodeData (data : Bytes) (len : UInt32) : Except Fault (Bytes × UInt32) := do
  let out := List.replicate len.toNat 0
  let out ← cbc128Decrypt aes data len.toNat 0 iv out
  let len ← pkcs7unpadding out len
  return (out, len)

/-- `NewByteArray` and `SetByteArrayRegion`, for a length that becomes a `jsize`. -/
def newByteArray (out : Bytes × UInt32) : Except Fault Bytes :=
  if out.2.toInt32 < 0 then .error .nullArray
  else if out.1.length < out.2.toNat then .error .outOfBounds
  else .ok (out.1.take out.2.toNat)

def encryptData (data : Bytes) : Except Fault Bytes := do
  let out ← AESEncodeData aes data (UInt32.ofNat data.length)
  newByteArray out

def decryptData (data : Bytes) : Except Fault Bytes := do
  let out ← AESDecodeData aes data (UInt32.ofNat data.length)
  newByteArray out

end

/-! ## Whole blocks -/

def join (bs : List Block) : Bytes := bs.flatMap Subtype.val

/-- The whole blocks at the front. -/
def blocks (data : Bytes) : List Block :=
  if h : blockSize ≤ data.length then
    ⟨data.take blockSize, by rw [List.length_take]; omega⟩ :: blocks (data.drop blockSize)
  else []
termination_by data.length
decreasing_by
  simp only [blockSize, List.length_drop] at *
  omega

theorem length_join : ∀ bs : List Block, (join bs).length = blockSize * bs.length
  | [] => rfl
  | b :: bs => by
    rw [join, List.flatMap_cons, List.length_append, b.property, ← join, length_join bs,
      List.length_cons]
    ring

theorem join_cons (b : Block) (bs : List Block) : join (b :: bs) = b.val ++ join bs := rfl

theorem exists_eq_join_blocks (data : Bytes) :
    ∃ rest : Bytes, data = join (blocks data) ++ rest ∧ rest.length < blockSize := by
  induction data using blocks.induct with
  | case1 data h ih =>
    obtain ⟨rest, heq, hlen⟩ := ih
    refine ⟨rest, ?_, hlen⟩
    rw [blocks, dif_pos h, join_cons, List.append_assoc, ← heq, List.take_append_drop]
  | case2 data h =>
    refine ⟨data, ?_, by omega⟩
    rw [blocks, dif_neg h]
    rfl

theorem join_blocks {data : Bytes} (h : blockSize ∣ data.length) : join (blocks data) = data := by
  obtain ⟨rest, heq, hlen⟩ := exists_eq_join_blocks data
  have hdvd : blockSize ∣ rest.length := by
    rw [heq, List.length_append, length_join] at h
    exact (Nat.dvd_add_right (Dvd.intro _ rfl)).mp h
  rw [List.length_eq_zero_iff.mp (Nat.eq_zero_of_dvd_of_lt hdvd hlen), List.append_nil] at heq
  exact heq.symm

theorem blocks_append (b : Block) (rest : Bytes) : blocks (b.val ++ rest) = b :: blocks rest := by
  have hlen : blockSize ≤ (b.val ++ rest).length := by
    rw [List.length_append, b.property]
    omega
  rw [blocks, dif_pos hlen, List.drop_left' b.property]
  congr
  exact List.take_left' b.property

theorem blocks_join : ∀ bs : List Block, blocks (join bs) = bs
  | [] => by
    rw [blocks]
    rfl
  | b :: bs => by rw [join_cons, blocks_append, blocks_join bs]

theorem readBlock_append (pre : Bytes) (b : Block) (rest : Bytes) :
    readBlock (pre ++ (b.val ++ rest)) pre.length = .ok b := by
  have hlen : pre.length + blockSize ≤ (pre ++ (b.val ++ rest)).length := by
    rw [List.length_append, List.length_append, b.property]
    omega
  rw [readBlock, dif_pos hlen]
  congr
  rw [List.drop_left]
  exact List.take_left' b.property

theorem readBlock_short (pre : Bytes) {rest : Bytes} (h : rest.length < blockSize) :
    readBlock (pre ++ rest) pre.length = .error .outOfBounds := by
  rw [readBlock, dif_neg]
  rw [List.length_append]
  omega

theorem writeBytes_append (pre : Bytes) {old bs : Bytes} (rest : Bytes) (h : old.length = bs.length) :
    writeBytes (pre ++ (old ++ rest)) pre.length bs = .ok (pre ++ (bs ++ rest)) := by
  have hlen : pre.length + bs.length ≤ (pre ++ (old ++ rest)).length := by
    rw [List.length_append, List.length_append]
    omega
  rw [writeBytes, if_pos hlen, List.take_left, ← h, ← List.drop_drop, List.drop_left, List.drop_left,
    List.append_assoc]

section

variable (step : Block → Block → Block × Block) (last : ℕ → ℕ → Block → Bytes → Except Fault Bytes)

/-- One block of the loop. -/
theorem cbc128_block {pre preOut : Bytes} (b iv : Block) (rest : Bytes) {first : Bytes} (restOut : Bytes)
    (n : ℕ) (hpre : preOut.length = pre.length) (hfirst : first.length = blockSize) :
    cbc128 (pre ++ (b.val ++ rest)) step last (blockSize + n) pre.length iv
        (preOut ++ (first ++ restOut)) =
      cbc128 (pre ++ b.val ++ rest) step last n (pre ++ b.val).length (step iv b).2
        (preOut ++ (step iv b).1.val ++ restOut) := by
  have hwrite := writeBytes_append preOut restOut (hfirst.trans (step iv b).1.property.symm)
  rw [hpre] at hwrite
  rw [cbc128, if_pos (Nat.le_add_right _ _), readBlock_append, ok_bind, hwrite, ok_bind,
    Nat.add_sub_cancel_left, List.length_append, b.property, List.append_assoc, List.append_assoc]

/-- The loop processes the whole blocks, and leaves the rest to `last`. -/
theorem cbc128_join {rest : Bytes} (hrest : rest.length < blockSize) (restOut : Bytes) (bs : List Block)
    (pre preOut old : Bytes) (iv : Block) (hpre : preOut.length = pre.length)
    (hold : old.length = (join bs).length) :
    ∃ iv', cbc128 (pre ++ (join bs ++ rest)) step last ((join bs).length + rest.length) pre.length iv
        (preOut ++ (old ++ restOut)) =
      if rest = [] then .ok (preOut ++ (join (chain step iv bs) ++ restOut))
      else last rest.length (pre.length + (join bs).length) iv'
        (preOut ++ (join (chain step iv bs) ++ restOut)) := by
  induction bs generalizing pre preOut old iv with
  | nil =>
    have hnil : old = [] := List.length_eq_zero_iff.mp hold
    have hlen : ¬ blockSize ≤ (join []).length + rest.length := by
      rw [length_join, List.length_nil]
      omega
    refine ⟨iv, ?_⟩
    rw [cbc128, if_neg hlen, hnil]
    cases rest with
    | nil => rfl
    | cons r rest =>
      rw [if_pos (by simp), if_neg (List.cons_ne_nil r rest)]
      simp [chain, join]
  | cons b bs ih =>
    rw [join_cons, List.length_append, b.property] at hold
    obtain ⟨first, old, rfl, hfirst⟩ : ∃ first old', old = first ++ old' ∧ first.length = blockSize :=
      ⟨_, _, (List.take_append_drop blockSize old).symm, by rw [List.length_take]; omega⟩
    rw [List.length_append, hfirst, Nat.add_left_cancel_iff] at hold
    have hpre' : (preOut ++ (step iv b).1.val).length = (pre ++ b.val).length := by
      rw [List.length_append, List.length_append, hpre, b.property, (step iv b).1.property]
    obtain ⟨iv', ih⟩ := ih _ _ old (step iv b).2 hpre' hold
    refine ⟨iv', ?_⟩
    rw [join_cons, List.append_assoc, List.append_assoc, @List.length_append _ b.val, b.property,
      Nat.add_assoc, cbc128_block step last _ _ _ _ _ hpre hfirst, ih, chain, join_cons, List.length_append,
      b.property]
    simp only [List.append_assoc, Nat.add_assoc]

/-- The loops over whole blocks. -/
theorem cbc128_whole {data : Bytes} (h : blockSize ∣ data.length) (iv : Block) :
    cbc128 data step last data.length 0 iv (List.replicate data.length 0) =
      .ok (join (chain step iv (blocks data))) := by
  have hnil : ([] : Bytes).length < blockSize := by decide
  obtain ⟨_, hrun⟩ := cbc128_join step last hnil [] (blocks data) [] [] (List.replicate data.length 0) iv
    rfl (by rw [join_blocks h, List.length_replicate])
  simpa [join_blocks h] using hrun

end

section

variable (aes : BlockCipher)

theorem Block.xor_xor (a b : Block) : (a.xor b).xor b = a := by
  apply Subtype.ext
  apply List.ext_getElem
  · simp [Block.xor, a.property, b.property]
  · intro i _ _
    simp only [Block.xor, List.getElem_zipWith, UInt8.xor_assoc, UInt8.xor_self, UInt8.xor_zero]

theorem decryptStep_encryptStep (iv b : Block) :
    decryptStep aes iv (encryptStep aes iv b).1 = (b, (encryptStep aes iv b).2) := by
  rw [decryptStep, encryptStep, aes.decrypt_encrypt, Block.xor_xor]

/-- The whole blocks of the input, decrypted. -/
def plaintext (data : Bytes) : Bytes := join (chain (decryptStep aes) iv (blocks data))

theorem length_plaintext {data : Bytes} (h : blockSize ∣ data.length) :
    (plaintext aes data).length = data.length := by
  rw [plaintext, length_join, length_chain, ← length_join, join_blocks h]

/-- The last byte of the plaintext is taken for the length of the padding. -/
def Accepts (data : Bytes) : Prop :=
  data ≠ [] ∧ blockSize ∣ data.length ∧ ∀ b ∈ (plaintext aes data).getLast?, b.toNat ≤ data.length

/-- The last block is read beyond the end of the input. -/
theorem cbc128Decrypt_ragged {data : Bytes} (h : ¬ blockSize ∣ data.length) :
    cbc128Decrypt aes data data.length 0 iv (List.replicate data.length 0) = .error .outOfBounds := by
  obtain ⟨rest, heq, hrest⟩ := exists_eq_join_blocks data
  have hne : rest ≠ [] := by
    rintro rfl
    rw [heq, List.append_nil, length_join] at h
    exact h (Dvd.intro _ rfl)
  have hout : List.replicate data.length (0 : UInt8) =
      List.replicate (join (blocks data)).length 0 ++ List.replicate rest.length 0 := by
    rw [List.replicate_append_replicate, ← List.length_append, ← heq]
  obtain ⟨iv', hrun⟩ := cbc128_join (decryptStep aes) (fun len i iv out => do
      let c ← readBlock data i
      writeBytes out i ((decryptStep aes iv c).1.val.take len)) hrest (List.replicate rest.length 0)
    (blocks data) [] [] _ iv rfl List.length_replicate
  rw [if_neg hne, List.nil_append, ← heq, ← List.length_append, ← heq, List.length_nil, Nat.zero_add,
    List.nil_append, ← hout] at hrun
  have hread := readBlock_short (join (blocks data)) hrest
  rw [← heq] at hread
  rw [cbc128Decrypt, hrun, hread]
  rfl

theorem cbc128Encrypt_whole {data : Bytes} (h : blockSize ∣ data.length) :
    cbc128Encrypt aes data data.length 0 iv (List.replicate data.length 0) =
      .ok (join (chain (encryptStep aes) iv (blocks data))) :=
  cbc128_whole _ _ h iv

theorem cbc128Decrypt_whole {data : Bytes} (h : blockSize ∣ data.length) :
    cbc128Decrypt aes data data.length 0 iv (List.replicate data.length 0) = .ok (plaintext aes data) :=
  cbc128_whole _ _ h iv

/-! ## Arrays of Java -/

theorem toInt32_neg_iff (u : UInt32) : u.toInt32 < 0 ↔ 2 ^ 31 ≤ u.toNat := by
  have h : u.toInt32.toInt = u.toBitVec.toInt := rfl
  have hlt := u.toNat_lt
  rw [Int32.lt_iff_toInt_lt, h, BitVec.toInt_eq_toNat_cond]
  simp only [UInt32.toNat_toBitVec, Int32.toInt_zero]
  split <;> omega

theorem newByteArray_of_lt {out : Bytes} {len : UInt32} (hlen : len.toNat < 2 ^ 31)
    (hout : len.toNat ≤ out.length) : newByteArray (out, len) = .ok (out.take len.toNat) := by
  rw [newByteArray, if_neg, if_neg]
  · exact Nat.not_lt.mpr hout
  · exact fun h => absurd ((toInt32_neg_iff len).mp h) (Nat.not_le.mpr hlen)

theorem newByteArray_of_ge {out : Bytes} {len : UInt32} (hlen : 2 ^ 31 ≤ len.toNat) :
    newByteArray (out, len) = .error .nullArray :=
  if_pos ((toInt32_neg_iff len).mpr hlen)

/-- The length without the padding wraps if the padding is longer. -/
theorem toNat_sub_byte {n : ℕ} (hn : n < 2 ^ 31) (b : UInt8) :
    (UInt32.ofNat n - b.toUInt32).toNat =
      if b.toNat ≤ n then n - b.toNat else 2 ^ 32 + n - b.toNat := by
  have hb := b.toNat_lt
  rw [UInt32.toNat_sub, UInt32.toNat_ofNat', UInt8.toNat_toUInt32]
  split <;> omega

theorem pkcs7unpadding_eq {data : Bytes} (hlen : data.length < 2 ^ 31) {b : UInt8}
    (hb : data.getLast? = some b) :
    pkcs7unpadding data (UInt32.ofNat data.length) = .ok (UInt32.ofNat data.length - b.toUInt32) := by
  have hpos : 0 < data.length := List.length_pos_iff.mpr (by rintro rfl; cases hb)
  have hindex : (UInt32.ofNat data.length - 1).toNat = data.length - 1 := by
    rw [UInt32.toNat_sub, UInt32.toNat_ofNat', UInt32.toNat_one]
    omega
  rw [pkcs7unpadding, hindex, ← List.getLast?_eq_getElem?, hb]

/-- What decryption does with whole blocks. -/
theorem decryptData_whole {data : Bytes} (hlen : data.length < 2 ^ 31) (hdvd : blockSize ∣ data.length)
    {b : UInt8} (hb : (plaintext aes data).getLast? = some b) :
    decryptData aes data =
      if b.toNat ≤ data.length then .ok ((plaintext aes data).take (data.length - b.toNat))
      else .error .nullArray := by
  have hn : (UInt32.ofNat data.length).toNat = data.length :=
    UInt32.toNat_ofNat_of_lt' (hlen.trans (by decide))
  have hplain := length_plaintext aes hdvd
  have hunpad := pkcs7unpadding_eq (hplain ▸ hlen) hb
  have hreal := toNat_sub_byte hlen b
  rw [hplain] at hunpad
  rw [decryptData, AESDecodeData, hn, cbc128Decrypt_whole aes hdvd, ok_bind, hunpad, ok_bind]
  change newByteArray (plaintext aes data, UInt32.ofNat data.length - b.toUInt32) = _
  split at hreal
  · rw [if_pos ‹_›, newByteArray_of_lt (by omega) (by omega), hreal]
  · have := b.toNat_lt
    rw [if_neg ‹_›, newByteArray_of_ge (by omega)]

theorem decryptData_ragged {data : Bytes} (hlen : data.length < 2 ^ 31)
    (h : ¬ blockSize ∣ data.length) : decryptData aes data = .error .outOfBounds := by
  have hn : (UInt32.ofNat data.length).toNat = data.length :=
    UInt32.toNat_ofNat_of_lt' (hlen.trans (by decide))
  rw [decryptData, AESDecodeData, hn, cbc128Decrypt_ragged aes h]
  rfl

/-- The byte before an empty buffer is taken for the padding. -/
theorem decryptData_nil : decryptData aes [] = .error .outOfBounds := by
  have hwhole : cbc128Decrypt aes [] 0 0 iv [] = .ok [] := by
    rw [cbc128Decrypt, cbc128]
    rfl
  rw [decryptData, AESDecodeData]
  change (do let out ← (do let out ← cbc128Decrypt aes [] 0 0 iv []; _); _) = _
  rw [hwhole]
  rfl

/-! ## Round trip -/

/-- The length of the padding. -/
def paddingLength (data : Bytes) : ℕ := blockSize - data.length % blockSize

def padded (data : Bytes) : Bytes :=
  data ++ List.replicate (paddingLength data) (UInt8.ofNat (paddingLength data))

theorem paddingLength_bounds (data : Bytes) :
    0 < paddingLength data ∧ paddingLength data ≤ blockSize := by
  have : data.length % blockSize < blockSize := Nat.mod_lt _ (by decide)
  constructor <;> rw [paddingLength] <;> omega

theorem length_padded (data : Bytes) : (padded data).length = data.length + paddingLength data := by
  rw [padded, List.length_append, List.length_replicate]

theorem dvd_length_padded (data : Bytes) : blockSize ∣ (padded data).length := by
  rw [length_padded, paddingLength, blockSize]
  omega

theorem getLast?_padded (data : Bytes) :
    (padded data).getLast? = some (UInt8.ofNat (paddingLength data)) := by
  have hpos := (paddingLength_bounds data).1
  rw [padded, List.getLast?_append, List.getLast?_replicate, if_neg (by omega)]
  rfl

theorem toNat_padding {n : ℕ} (hn : n < 2 ^ 31 - 16) :
    (UInt32.ofNat n + (UInt32.ofNat blockSize - UInt32.ofNat n % UInt32.ofNat blockSize)).toNat =
      n + (blockSize - n % blockSize) := by
  have hmod : n % 2 ^ 32 = n := Nat.mod_eq_of_lt (by omega)
  have hsize : blockSize % 2 ^ 32 = 16 := rfl
  simp only [UInt32.toNat_add, UInt32.toNat_sub, UInt32.toNat_mod, UInt32.toNat_ofNat', hmod, hsize]
  rw [blockSize]
  omega

/-- The buffer that is encrypted. -/
theorem pkcs7padding_eq {data : Bytes} {len dataLength : UInt32} (hlen : len.toNat = data.length)
    (hdata : dataLength.toNat = data.length + paddingLength data) :
    pkcs7padding (data ++ List.replicate (paddingLength data) 0) dataLength len = .ok (padded data) := by
  have hsame : (List.replicate (paddingLength data) (0 : UInt8)).length =
      (List.replicate (paddingLength data) (UInt8.ofNat (paddingLength data))).length := by
    rw [List.length_replicate, List.length_replicate]
  have hwrite := writeBytes_append data [] hsame
  rw [List.append_nil, List.append_nil] at hwrite
  rw [pkcs7padding, hlen, hdata, Nat.add_sub_cancel_left, ← paddingLength, hwrite, padded]

def ciphertext (data : Bytes) : Bytes := join (chain (encryptStep aes) iv (blocks (padded data)))

theorem length_ciphertext (data : Bytes) :
    (ciphertext aes data).length = data.length + paddingLength data := by
  rw [ciphertext, length_join, length_chain, ← length_join, join_blocks (dvd_length_padded data),
    length_padded]

theorem plaintext_ciphertext (data : Bytes) : plaintext aes (ciphertext aes data) = padded data := by
  rw [plaintext, ciphertext, blocks_join, chain_chain (decryptStep_encryptStep aes),
    join_blocks (dvd_length_padded data)]

theorem encryptData_eq {data : Bytes} (h : data.length < 2 ^ 31 - 16) :
    encryptData aes data = .ok (ciphertext aes data) := by
  have hn : (UInt32.ofNat data.length).toNat = data.length :=
    UInt32.toNat_ofNat_of_lt' (h.trans (by decide))
  have hpad := toNat_padding h
  rw [← paddingLength] at hpad
  have hbound := (paddingLength_bounds data).2
  have hcopy : writeBytes (List.replicate (data.length + paddingLength data) 0) 0 data =
      .ok (data ++ List.replicate (paddingLength data) 0) := by
    rw [← List.replicate_append_replicate]
    exact writeBytes_append [] (List.replicate (paddingLength data) 0) List.length_replicate
  have hwhole := cbc128Encrypt_whole aes (dvd_length_padded data)
  have hout := length_ciphertext aes data
  rw [length_padded, ← ciphertext] at hwhole
  rw [encryptData, AESEncodeData]
  simp only [hpad, hn, List.take_length, hcopy, ok_bind, pkcs7padding_eq hn hpad, hwhole]
  change newByteArray (_, _) = _
  rw [newByteArray_of_lt (by rw [hpad]; simp only [blockSize] at hbound; omega) (by rw [hpad, hout]),
    hpad, ← hout, List.take_length]

theorem decryptData_encryptData {data : Bytes} (h : data.length < 2 ^ 31 - 16) :
    ∃ c, encryptData aes data = .ok c ∧ decryptData aes c = .ok data := by
  refine ⟨_, encryptData_eq aes h, ?_⟩
  have hbounds := paddingLength_bounds data
  have hlen := length_ciphertext aes data
  have hplain := plaintext_ciphertext aes data
  have hdvd : blockSize ∣ (ciphertext aes data).length := by
    rw [hlen, ← length_padded]
    exact dvd_length_padded data
  have hlast : (plaintext aes (ciphertext aes data)).getLast? =
      some (UInt8.ofNat (paddingLength data)) := by
    rw [hplain, getLast?_padded]
  have hbyte : (UInt8.ofNat (paddingLength data)).toNat = paddingLength data :=
    UInt8.toNat_ofNat_of_lt' (hbounds.2.trans_lt (by decide))
  have hlt : (ciphertext aes data).length < 2 ^ 31 := by
    simp only [blockSize] at hbounds
    omega
  rw [decryptData_whole aes hlt hdvd hlast, hbyte, if_pos (by omega), hplain, hlen,
    Nat.add_sub_cancel, padded, List.take_left]

/-- Decryption gives an array that is not longer iff it accepts the input. -/
theorem decryptData_ok_iff {data : Bytes} (hlen : data.length < 2 ^ 31) :
    (∃ r, decryptData aes data = .ok r ∧ r.length ≤ data.length) ↔ Accepts aes data := by
  by_cases hnil : data = []
  · rw [hnil, decryptData_nil]
    exact iff_of_false (fun ⟨_, h, _⟩ => nomatch h) fun h => h.1 rfl
  by_cases hdvd : blockSize ∣ data.length
  swap
  · rw [decryptData_ragged aes hlen hdvd]
    exact iff_of_false (fun ⟨_, h, _⟩ => nomatch h) fun h => hdvd h.2.1
  have hplain := length_plaintext aes hdvd
  obtain ⟨b, hb⟩ : ∃ b, (plaintext aes data).getLast? = some b := by
    refine Option.ne_none_iff_exists'.mp fun hnone => hnil ?_
    rw [List.getLast?_eq_none_iff.mp hnone, List.length_nil] at hplain
    exact List.length_eq_zero_iff.mp hplain.symm
  have haccepts : Accepts aes data ↔ b.toNat ≤ data.length := by
    simp only [Accepts, hb, Option.mem_def, Option.some.injEq, forall_eq', ne_eq, hnil, not_false_eq_true,
      hdvd, true_and]
  rw [decryptData_whole aes hlen hdvd hb, haccepts]
  split
  · refine iff_of_true ⟨_, rfl, ?_⟩ ‹_›
    rw [List.length_take]
    omega
  · exact iff_of_false (fun ⟨_, h, _⟩ => nomatch h) ‹_›

/-- **What is encrypted is decrypted.  An arbitrary array is decrypted within the buffers iff it is
accepted:** it is not empty, has whole blocks, and ends in a byte that is not more than its length. -/
theorem decryptData_inBounds_iff :
    (∀ d : Bytes, d.length < 2 ^ 31 - 16 →
      ∃ c, encryptData aes d = .ok c ∧ decryptData aes c = .ok d) ∧
    ∀ c : Bytes, c.length < 2 ^ 31 →
      ((∃ r, decryptData aes c = .ok r ∧ r.length ≤ c.length) ↔ Accepts aes c) :=
  ⟨fun _ => decryptData_encryptData aes, fun _ => decryptData_ok_iff aes⟩

/-! ### A message of two blocks

The cipher is a table with the two blocks that `AES_encrypt` gets for the message with the key of the code. -/

/-- A cipher that permutes the blocks. -/
def BlockCipher.ofPerm (σ : Equiv.Perm Block) : BlockCipher := ⟨σ, σ.symm, σ.symm_apply_apply⟩

def message : Bytes := "a configuration that is kept".toList.map fun c => UInt8.ofNat c.toNat

/-- The message and its padding in blocks. -/
def messageBlocks : Block × Block :=
  (⟨message.take blockSize, rfl⟩, ⟨message.drop blockSize ++ List.replicate 4 4, rfl⟩)

/-- The blocks of the ciphertext. -/
def cipherBlocks : Block × Block :=
  (⟨[53, 248, 158, 197, 22, 29, 100, 141, 90, 55, 46, 23, 38, 75, 31, 15], rfl⟩,
    ⟨[102, 111, 201, 163, 226, 179, 56, 193, 67, 118, 93, 78, 47, 24, 65, 44], rfl⟩)

def tableCipher : BlockCipher := .ofPerm
  ((Equiv.swap (messageBlocks.1.xor iv) cipherBlocks.1).trans
    (Equiv.swap (messageBlocks.2.xor cipherBlocks.1) cipherBlocks.2))

theorem ciphertext_message :
    ciphertext tableCipher message = join [cipherBlocks.1, cipherBlocks.2] := by
  have hpadded : padded message = join [messageBlocks.1, messageBlocks.2] := by decide
  have hchain : chain (encryptStep tableCipher) iv [messageBlocks.1, messageBlocks.2] =
      [cipherBlocks.1, cipherBlocks.2] := by decide +kernel
  rw [ciphertext, hpadded, blocks_join, hchain]

theorem decryptData_inBounds_message :
    encryptData tableCipher message = .ok (join [cipherBlocks.1, cipherBlocks.2]) ∧
    decryptData tableCipher (join [cipherBlocks.1, cipherBlocks.2]) = .ok message ∧
    Accepts tableCipher (join [cipherBlocks.1, cipherBlocks.2]) := by
  have hlength : message.length < 2 ^ 31 - 16 := by decide
  have hencrypt := encryptData_eq tableCipher hlength
  rw [ciphertext_message] at hencrypt
  obtain ⟨hround, hinBounds⟩ := decryptData_inBounds_iff tableCipher
  obtain ⟨c, hc, hdecrypt⟩ := hround message hlength
  obtain rfl : join [cipherBlocks.1, cipherBlocks.2] = c := Except.ok.inj (hencrypt.symm.trans hc)
  exact ⟨hencrypt, hdecrypt, (hinBounds _ (by decide)).mp ⟨message, hdecrypt, by decide⟩⟩

/-- Whatever the cipher, an empty array and a single byte are not accepted. -/
theorem decryptData_leaves_buffer :
    (decryptData · []) = (fun _ => .error .outOfBounds) ∧
    (decryptData · [0]) = fun _ => .error .outOfBounds :=
  ⟨funext decryptData_nil, funext fun aes => decryptData_ragged aes (by decide) (by decide)⟩

end

end VpnCore.Crypt
