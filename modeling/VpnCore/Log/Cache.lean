import Mathlib.Data.Int.ModEq
import VpnCore.Lib.Codec

/-!
# VpnCore.Log.Cache — the log cache file of `LogFileHandler`

A log item is written as a magic byte, its length in four bytes and its bytes, where the magic byte
and the one after it are escaped.  `readCacheContents` looks for the next magic byte, and gives an
item up when it meets one inside.  On a file that was written by `writeEscapedBytes` none of that
happens: the items are restored one after the other (`readCacheContents_written`).

A byte is a `UInt8`; the comparisons of the source are with `0x55` and `0x56`, which are the same as
signed bytes.
-/

namespace VpnCore.Log

abbrev Bytes := List UInt8

/-! ## Writing -/

/-- `MAGIC_BYTE` -/
def magicByte : UInt8 := 0x55

/-- The bytes that are escaped. -/
def isMagic (b : UInt8) : Bool := b == magicByte || b == magicByte + 1

def escapedByte (b : UInt8) : Bytes :=
  if isMagic b then [magicByte + 1, b - magicByte] else [b]

/-- `eBytes` -/
def escapedBytes (bytes : Bytes) : Bytes := bytes.flatMap escapedByte

/-- `ByteBuffer.allocate(4).putInt(n).array()` -/
def lenBytes (n : ℕ) : Bytes := Lib.numberBytes 4 n

/-- What is appended to `mLogFile`. -/
def writeEscapedBytes (bytes : Bytes) : Bytes :=
  magicByte :: (lenBytes bytes.length ++ escapedBytes bytes)

/-- The array `eBytes` has a place for every byte that is put into it, and no other. -/
theorem length_escapedBytes (bytes : Bytes) :
    (escapedBytes bytes).length = bytes.length + bytes.countP isMagic := by
  induction bytes with
  | nil => rfl
  | cons b bytes ih =>
    have hcons : escapedBytes (b :: bytes) = escapedByte b ++ escapedBytes bytes := rfl
    have hb : (escapedByte b).length = 1 + if isMagic b then 1 else 0 := by
      unfold escapedByte
      split_ifs <;> rfl
    rw [hcons, List.length_append, ih, hb, List.length_cons, List.countP_cons]
    omega

/-! ## Reading -/

/-- What `readCacheContents` does; the other constructors than the first and the last are the
messages that it logs. -/
inductive Event
  | restoreLogItem (buf : Bytes) (len : ℤ)
  | skippedNoMagic (skipped : ℕ)
  | skippedBytes (skipped : ℕ)
  | unexpectedMagic (pos : ℕ)
  | escapedByteNot (b : UInt8)
  | tooManyEntries
  | rereadLog (itemsRead : ℕ)
  | arrayIndexOutOfBounds
  deriving DecidableEq, Repr

/-- `buf.length` -/
def bufLength : ℕ := 16384

/-- `VpnStatus.MAXLOGENTRIES` -/
def maxLogEntries : ℕ := 1000

/-- The array with `bs` from the index `off` on. -/
def overwrite (buf : Bytes) (off : ℕ) (bs : Bytes) : Bytes :=
  buf.take off ++ bs ++ buf.drop (off + bs.length)

/-- `logFile.read(buf, off, n)`: the number of bytes or `-1`, the array and the rest of the stream. -/
def readInto (buf : Bytes) (off n : ℕ) (stream : Bytes) : ℤ × Bytes × Bytes :=
  let bs := stream.take n
  (if bs.isEmpty then -1 else bs.length, overwrite buf off bs, stream.drop n)

/-- `(byte) logFile.read()` -/
def readByte : Bytes → UInt8 × Bytes
  | [] => (0xff, [])
  | b :: stream => (b, stream)

/-- `ByteBuffer.wrap(buf, off, 4).asIntBuffer().get()` -/
def getInt (buf : Bytes) (off : ℕ) : ℤ :=
  Int.bmod (Lib.bytesNumber ((buf.drop off).take 4)) (2 ^ 32)

/-- The search for a magic byte: the number of bytes that are skipped, the array and the stream, or
the number of bytes without one. -/
def skipLoop : Bytes → Bytes → ℕ → Except ℕ (ℕ × Bytes × Bytes)
  | stream, buf, skipped =>
    if buf.getD skipped 0 = magicByte then .ok (skipped, buf, stream)
    else
      match stream with
      | [] => .error (skipped + 1)
      | b :: stream =>
        if bufLength < skipped + 1 + 10 then .error (skipped + 1)
        else skipLoop stream (overwrite buf (skipped + 1 + 4) [b]) (skipped + 1)

/-- How the loop over the bytes of an item ends. -/
inductive Item
  | complete (buf2 : Bytes)
  | unexpectedMagic (pos : ℕ)
  | escapedByteNot (b : UInt8)
  | overflow
  deriving DecidableEq, Repr

/-- The next byte of an item. -/
def itemByte (stream : Bytes) : Except (ℕ → Item) UInt8 × Bytes :=
  let (b, stream) := readByte stream
  if b = magicByte then (.error .unexpectedMagic, stream)
  else if b = magicByte + 1 then
    let (b, stream) := readByte stream
    if b = 0 then (.ok magicByte, stream)
    else if b = 1 then (.ok (magicByte + 1), stream)
    else (.error fun _ => .escapedByteNot b, stream)
  else (.ok b, stream)

/-- The loop over the bytes of an item: `done` are the bytes in `buf2`, which has room for `room`
more. -/
def readItem (len : ℤ) : ℕ → Bytes → Bytes → Item × Bytes
  | room, done, stream =>
    if (done.length : ℤ) < len then
      match itemByte stream with
      | (.error e, stream) => (e done.length, stream)
      | (.ok b, stream) =>
        match room with
        | 0 => (.overflow, stream)
        | room + 1 => readItem len room (done ++ [b]) stream
    else (.complete (done ++ List.replicate room 0), stream)

/-- An item of `len` bytes, read into a new array `buf2`. -/
def readBuf2 (len : ℤ) (stream : Bytes) : Item × Bytes := readItem len bufLength [] stream

/-- Where `readCacheContents` is. -/
structure Reading where
  read : ℤ
  buf : Bytes
  stream : Bytes
  itemsRead : ℕ
  deriving DecidableEq, Repr

/-- The end of an iteration. -/
inductive Iteration
  | finished (events : List Event)
  | next (events : List Event) (s : Reading)
  deriving DecidableEq, Repr

/-- `continue readloop`, after four more bytes. -/
def Reading.resynchronise (s : Reading) (message : List Event) : Iteration :=
  let (read, buf, stream) := readInto s.buf 1 4 s.stream
  .next message { s with read := read + 1, buf := buf, stream := stream }

/-- An item was read. -/
def Reading.nextItem (s : Reading) (restored : List Event) : Iteration :=
  let (read, buf, stream) := readInto s.buf 0 5 s.stream
  let itemsRead := s.itemsRead + 1
  if 2 * maxLogEntries < itemsRead then
    .next (restored ++ [.tooManyEntries])
      { read := 0, buf := buf, stream := stream, itemsRead := itemsRead }
  else .next restored { read := read, buf := buf, stream := stream, itemsRead := itemsRead }

/-- The rest of an iteration, after the bytes of an item. -/
def Reading.afterItem (s : Reading) (message : List Event) (len : ℤ) : Item × Bytes → Iteration
  | (.complete buf2, stream) =>
    { s with stream := stream }.nextItem (message ++ [Event.restoreLogItem buf2 len])
  | (.unexpectedMagic pos, stream) =>
    { s with stream := stream }.resynchronise (message ++ [Event.unexpectedMagic pos])
  | (.escapedByteNot b, stream) =>
    { s with stream := stream }.resynchronise (message ++ [Event.escapedByteNot b])
  | (.overflow, _) => .finished (message ++ [Event.arrayIndexOutOfBounds])

/-- An iteration of `readloop`, with its condition. -/
def Reading.body (s : Reading) : Iteration :=
  if s.read < 5 then .finished [.rereadLog s.itemsRead]
  else
    match skipLoop s.stream s.buf 0 with
    | .error skipped => .finished [.skippedNoMagic skipped, .rereadLog s.itemsRead]
    | .ok (skipped, buf, stream) =>
      let message := if 0 < skipped then [Event.skippedBytes skipped] else []
      let len := getInt buf (skipped + 1)
      { s with buf := buf }.afterItem message len (readBuf2 len stream)

/-! ## The loop ends -/

theorem length_readInto {buf buf' stream rest : Bytes} {off n : ℕ} {read : ℤ}
    (h : readInto buf off n stream = (read, buf', rest)) (hn : 0 < n) (hread : (n : ℤ) ≤ read) :
    rest.length + n = stream.length := by
  simp only [readInto, Prod.mk.injEq] at h
  obtain ⟨hcount, -, rfl⟩ := h
  have hle : n ≤ stream.length := by
    by_contra hlt
    have hlen : (stream.take n).length = stream.length := by rw [List.length_take]; omega
    rw [hlen] at hcount
    split_ifs at hcount <;> omega
  rw [List.length_drop]
  omega

theorem skipLoop_length : ∀ (stream buf : Bytes) (skipped : ℕ) {k : ℕ} {buf' stream' : Bytes},
    skipLoop stream buf skipped = .ok (k, buf', stream') → stream'.length ≤ stream.length
  | [], buf, skipped, k, buf', stream', h => by
    rw [skipLoop] at h
    split_ifs at h
    cases h
    exact le_rfl
  | b :: stream, buf, skipped, k, buf', stream', h => by
    rw [skipLoop] at h
    split_ifs at h
    · cases h
      exact le_rfl
    · exact (skipLoop_length stream _ _ h).trans (Nat.le_succ _)

theorem length_readByte (stream : Bytes) : (readByte stream).2.length ≤ stream.length := by
  cases stream with
  | nil => exact le_rfl
  | cons b stream => exact Nat.le_succ _

theorem itemByte_length (stream : Bytes) : (itemByte stream).2.length ≤ stream.length := by
  have h1 := length_readByte stream
  have h2 := length_readByte (readByte stream).2
  unfold itemByte
  dsimp only
  split_ifs
  · exact h1
  · exact h2.trans h1
  · exact h2.trans h1
  · exact h2.trans h1
  · exact h1

theorem readItem_length (len : ℤ) : ∀ (room : ℕ) (done stream : Bytes),
    (readItem len room done stream).2.length ≤ stream.length := by
  intro room
  induction room with
  | zero =>
    intro done stream
    have h := itemByte_length stream
    rw [readItem]
    split_ifs
    · rcases hb : itemByte stream with ⟨_ | b, stream'⟩ <;> rw [hb] at h <;> exact h
    · exact le_rfl
  | succ room ih =>
    intro done stream
    have h := itemByte_length stream
    rw [readItem]
    split_ifs
    · rcases hb : itemByte stream with ⟨_ | b, stream'⟩ <;> rw [hb] at h
      · exact h
      · exact (ih (done ++ [b]) stream').trans h
    · exact le_rfl

/-- What decreases: the stream, as long as there is an iteration. -/
def Reading.left (s : Reading) : ℕ := if s.read < 5 then 0 else s.stream.length + 1

theorem left_lt {s : Reading} {n : ℕ} (h : 5 ≤ s.read → s.stream.length < n) :
    s.left < n + 1 := by
  unfold Reading.left
  split_ifs with hread
  · exact Nat.succ_pos n
  · exact Nat.succ_lt_succ (h (Int.not_lt.mp hread))

theorem left_resynchronise {s s' : Reading} {message es : List Event} {n : ℕ}
    (hn : s.stream.length ≤ n) (h : s.resynchronise message = .next es s') : s'.left < n + 1 := by
  rcases hr : readInto s.buf 1 4 s.stream with ⟨read, buf, stream⟩
  rw [Reading.resynchronise, hr] at h
  obtain ⟨-, rfl⟩ := Iteration.next.inj h
  refine left_lt fun (hread : 5 ≤ read + 1) => ?_
  have hlen := length_readInto hr (by omega) (by push_cast; omega)
  change stream.length < n
  omega

theorem left_nextItem {s s' : Reading} {items es : List Event} {n : ℕ}
    (hn : s.stream.length ≤ n) (h : s.nextItem items = .next es s') : s'.left < n + 1 := by
  rcases hr : readInto s.buf 0 5 s.stream with ⟨read, buf, stream⟩
  rw [Reading.nextItem, hr] at h
  dsimp only at h
  split_ifs at h
  · obtain ⟨-, rfl⟩ := Iteration.next.inj h
    exact left_lt fun (hread : (5 : ℤ) ≤ 0) => absurd hread (by decide)
  · obtain ⟨-, rfl⟩ := Iteration.next.inj h
    refine left_lt fun (hread : 5 ≤ read) => ?_
    have hlen := length_readInto hr (by omega) hread
    change stream.length < n
    omega

theorem left_afterItem {s s' : Reading} {message es : List Event} {len : ℤ} {item : Item × Bytes}
    {n : ℕ} (hn : item.2.length ≤ n) (h : s.afterItem message len item = .next es s') :
    s'.left < n + 1 := by
  obtain ⟨item, stream⟩ := item
  cases item with
  | complete buf2 => exact left_nextItem hn h
  | unexpectedMagic pos => exact left_resynchronise hn h
  | escapedByteNot b => exact left_resynchronise hn h
  | overflow => cases h

theorem left_body {s s' : Reading} {es : List Event} (h : s.body = .next es s') :
    s'.left < s.left := by
  unfold Reading.body at h
  split_ifs at h with hread
  have hleft : s.left = s.stream.length + 1 := if_neg hread
  rw [hleft]
  rcases hskip : skipLoop s.stream s.buf 0 with skipped | ⟨skipped, buf, stream⟩ <;>
    rw [hskip] at h
  · cases h
  · have hitem : (readBuf2 (getInt buf (skipped + 1)) stream).2.length ≤ stream.length :=
      readItem_length _ _ _ _
    exact left_afterItem (hitem.trans (skipLoop_length _ _ _ hskip)) h

def Reading.loop (s : Reading) : List Event :=
  match _hbody : s.body with
  | .finished events => events
  | .next events s' => events ++ s'.loop
termination_by s.left
decreasing_by exact left_body _hbody

/-- The state before `readloop`. -/
def Reading.start (buf stream : Bytes) (itemsRead : ℕ) : Reading :=
  { read := (readInto buf 0 5 stream).1, buf := (readInto buf 0 5 stream).2.1,
    stream := (readInto buf 0 5 stream).2.2, itemsRead := itemsRead }

/-- What reading the file does. -/
def readCacheContents (file : Bytes) : List Event :=
  (Reading.start (List.replicate bufLength 0) file 0).loop

/-! ## A file that was written -/

/-- The file after the items were written. -/
def written (items : List Bytes) : Bytes := items.flatMap writeEscapedBytes

/-- The call for an item: the array is filled up with zeros. -/
def restored (bytes : Bytes) : Event :=
  .restoreLogItem (bytes ++ List.replicate (bufLength - bytes.length) 0) bytes.length

theorem loop_finished {s : Reading} {es : List Event} (h : s.body = .finished es) : s.loop = es := by
  rw [Reading.loop]
  split
  · simp_all
  · simp_all

theorem loop_next {s s' : Reading} {es : List Event} (h : s.body = .next es s') :
    s.loop = es ++ s'.loop := by
  rw [Reading.loop]
  split
  · simp_all
  · simp_all

/-- An escaped byte is read back. -/
theorem itemByte_escapedByte (b : UInt8) (rest : Bytes) :
    itemByte (escapedByte b ++ rest) = (.ok b, rest) := by
  unfold escapedByte isMagic
  by_cases h1 : b = magicByte
  · subst h1
    rfl
  · by_cases h2 : b = magicByte + 1
    · subst h2
      rfl
    · have hplain : (b == magicByte || b == magicByte + 1) = false := by simp [h1, h2]
      simp only [hplain, Bool.false_eq_true, if_false, List.singleton_append, itemByte, readByte,
        if_neg h1, if_neg h2]

/-- The bytes of an item are read back, whatever follows. -/
theorem readItem_escapedBytes (rest : Bytes) : ∀ (bytes done : Bytes) (room : ℕ),
    bytes.length ≤ room →
    readItem ((done.length + bytes.length : ℕ) : ℤ) room done (escapedBytes bytes ++ rest) =
      (.complete (done ++ bytes ++ List.replicate (room - bytes.length) 0), rest)
  | [], done, room, _ => by
    have hdone : ¬ ((done.length : ℤ) < ((done.length + ([] : Bytes).length : ℕ) : ℤ)) := by simp
    rw [readItem, if_neg hdone, List.append_nil, List.length_nil, Nat.sub_zero]
    rfl
  | b :: bytes, done, 0, h => by simp at h
  | b :: bytes, done, room + 1, h => by
    have hmore : (done.length : ℤ) < ((done.length + (b :: bytes).length : ℕ) : ℤ) := by
      rw [List.length_cons]; push_cast; omega
    have hcons : escapedBytes (b :: bytes) ++ rest = escapedByte b ++ (escapedBytes bytes ++ rest) :=
      List.append_assoc ..
    have ih := readItem_escapedBytes rest bytes (done ++ [b]) room (by simpa using h)
    have hlen : (done ++ [b]).length + bytes.length = done.length + (b :: bytes).length := by
      simp only [List.length_append, List.length_cons, List.length_nil]
      omega
    rw [hlen] at ih
    rw [readItem, if_pos hmore, hcons, itemByte_escapedByte]
    dsimp only
    rw [ih, List.length_cons, Nat.add_sub_add_right, List.append_assoc done, List.singleton_append]

/-- The length is read back. -/
theorem getInt_lenBytes (b : UInt8) (n : ℕ) (hn : n ≤ bufLength) (rest : Bytes) :
    getInt (b :: (lenBytes n ++ rest)) 1 = (n : ℤ) := by
  have hbytes : ((b :: (lenBytes n ++ rest)).drop 1).take 4 = lenBytes n := rfl
  have hle : n ≤ 16384 := hn
  have hvalue : Lib.bytesNumber (lenBytes n) = n := Lib.bytesNumber_numberBytes 4 n (by omega)
  have hmod : ∀ m : ℕ, m ≤ 16384 → Int.bmod m (2 ^ 32) = m := by
    intro m hm
    exact Int.bmod_eq_of_le (by norm_num) (by norm_num; omega)
  unfold getInt
  rw [hbytes, hvalue, hmod n hle]

theorem readInto_five (buf : Bytes) (n : ℕ) (rest : Bytes) :
    readInto buf 0 5 (magicByte :: (lenBytes n ++ rest)) =
      (5, magicByte :: (lenBytes n ++ buf.drop 5), rest) := rfl

/-- An iteration at the beginning of an item. -/
theorem body_written (buf rest : Bytes) (itemsRead : ℕ) {bytes : Bytes}
    (h : bytes.length ≤ bufLength) (hitems : itemsRead + 1 ≤ 2 * maxLogEntries) :
    ∃ buf', (Reading.start buf (writeEscapedBytes bytes ++ rest) itemsRead).body =
      .next [restored bytes] (Reading.start buf' rest (itemsRead + 1)) := by
  have hstart : Reading.start buf (writeEscapedBytes bytes ++ rest) itemsRead =
      { read := 5, buf := magicByte :: (lenBytes bytes.length ++ buf.drop 5),
        stream := escapedBytes bytes ++ rest, itemsRead := itemsRead } := by
    have hfile : writeEscapedBytes bytes ++ rest =
        magicByte :: (lenBytes bytes.length ++ (escapedBytes bytes ++ rest)) := by
      rw [writeEscapedBytes, List.cons_append, List.append_assoc]
    simp only [Reading.start, hfile, readInto_five]
  have hskip : skipLoop (escapedBytes bytes ++ rest)
      (magicByte :: (lenBytes bytes.length ++ buf.drop 5)) 0 =
        .ok (0, magicByte :: (lenBytes bytes.length ++ buf.drop 5), escapedBytes bytes ++ rest) := by
    rw [skipLoop.eq_def]
    exact if_pos rfl
  have hitem : readBuf2 bytes.length (escapedBytes bytes ++ rest) =
      (.complete (bytes ++ List.replicate (bufLength - bytes.length) 0), rest) := by
    have hread := readItem_escapedBytes rest bytes [] bufLength h
    rwa [List.nil_append, List.length_nil, Nat.zero_add] at hread
  refine ⟨magicByte :: (lenBytes bytes.length ++ buf.drop 5), ?_⟩
  rw [hstart, Reading.body, if_neg (Int.lt_irrefl 5), hskip]
  dsimp only
  rw [getInt_lenBytes _ _ h, hitem]
  simp only [Nat.lt_irrefl, if_false, List.nil_append, Reading.afterItem, Reading.nextItem]
  rw [if_neg (by omega)]
  rfl

/-- The items that are left. -/
theorem loop_written : ∀ (items : List Bytes) (buf : Bytes) (itemsRead : ℕ),
    (∀ bytes ∈ items, bytes.length ≤ bufLength) → itemsRead + items.length ≤ 2 * maxLogEntries →
    (Reading.start buf (written items) itemsRead).loop =
      items.map restored ++ [.rereadLog (itemsRead + items.length)]
  | [], buf, itemsRead, _, _ => loop_finished rfl
  | bytes :: items, buf, itemsRead, h, hn => by
    rw [List.length_cons] at hn
    obtain ⟨buf', hbody⟩ := body_written buf (written items) itemsRead (h bytes List.mem_cons_self)
      (by omega)
    have ih := loop_written items buf' (itemsRead + 1)
      (fun b hb => h b (List.mem_cons_of_mem bytes hb)) (by omega)
    have hfile : written (bytes :: items) = writeEscapedBytes bytes ++ written items := rfl
    rw [hfile, loop_next hbody, ih, List.map_cons, List.length_cons, List.singleton_append,
      List.cons_append, Nat.add_assoc, Nat.add_comm 1]

/-- **The round trip.**  Every item is restored once, in order, with its length and its bytes. -/
theorem readCacheContents_written (items : List Bytes) (hn : items.length ≤ 2000)
    (h : ∀ bytes ∈ items, bytes.length ≤ 16384) :
    readCacheContents (written items) = items.map restored ++ [.rereadLog items.length] := by
  have hloop := loop_written items (List.replicate bufLength 0) 0 h
    (by unfold maxLogEntries; omega)
  rwa [Nat.zero_add] at hloop

/-- Two items with magic bytes. -/
theorem readCacheContents_two :
    readCacheContents (written [[0x55, 0x56, 0x00], []]) =
      [restored [0x55, 0x56, 0x00], restored [], .rereadLog 2] :=
  readCacheContents_written [[0x55, 0x56, 0x00], []] (by decide) (by decide)

end VpnCore.Log
