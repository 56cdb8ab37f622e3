import VpnCore.Log.Cache

/-!
# VpnCore.Log.Resync — reading a cache file with a cut item

When the bytes of an item are cut off, the reader meets the magic byte of the next item inside the
old one.  It then reads the four length bytes into `buf[1..4]` and goes on as if `buf[0]` held the
magic byte.  That is so when the cut item was at the beginning of `buf`; behind other bytes the item
was found further on, `buf[0]` still holds the first of them, and the next item is lost
(`deliveries_lost`).  What is needed for every complete item to be restored is said in
`restoresAll_iff`.
-/

namespace VpnCore.Log

/-! ## What is restored -/

def Event.isRestored : Event → Bool
  | .restoreLogItem _ _ => true
  | _ => false

/-- The calls of `restoreLogItem`. -/
def deliveries (events : List Event) : List Event := events.filter Event.isRestored

@[simp] theorem deliveries_append (es es' : List Event) :
    deliveries (es ++ es') = deliveries es ++ deliveries es' := List.filter_append ..

@[simp] theorem deliveries_map_restored (items : List Bytes) :
    deliveries (items.map restored) = items.map restored := by
  refine List.filter_eq_self.2 fun e he => ?_
  obtain ⟨bytes, -, rfl⟩ := List.mem_map.1 he
  rfl

/-- The message about skipped bytes. -/
def skippedMessage (skipped : ℕ) : List Event :=
  if 0 < skipped then [.skippedBytes skipped] else []

@[simp] theorem deliveries_skippedMessage (n : ℕ) : deliveries (skippedMessage n) = [] := by
  unfold skippedMessage
  split_ifs <;> rfl

/-! ## The bytes that have not been looked at -/

/-- At the beginning of an iteration the bytes of `pending` have not been looked at: five of them are
in `buf`. -/
def Reading.At (s : Reading) (pending : Bytes) : Prop :=
  s.read = 5 ∧ ∃ w rest, w.length = 5 ∧ s.buf = w ++ rest ∧ pending = w ++ s.stream

theorem Reading.At.length {s : Reading} {pending : Bytes} (h : s.At pending) :
    5 ≤ pending.length := by
  obtain ⟨-, w, rest, hw, -, rfl⟩ := h
  rw [List.length_append, hw]
  exact Nat.le_add_right 5 _

theorem start_at {buf stream : Bytes} (h : 5 ≤ stream.length) (itemsRead : ℕ) :
    (Reading.start buf stream itemsRead).At stream := by
  have hlen : (stream.take 5).length = 5 := by rw [List.length_take]; omega
  refine ⟨?_, stream.take 5, buf.drop 5, hlen, ?_, (List.take_append_drop 5 stream).symm⟩
  · have hne : (stream.take 5).isEmpty = false := by
      rw [List.isEmpty_eq_false_iff, ← List.length_pos_iff, hlen]
      decide
    simp only [Reading.start, readInto, hne, Bool.false_eq_true, if_false, hlen]
    rfl
  · simp only [Reading.start, readInto, overwrite, hlen, List.take_zero, List.nil_append]

/-- With fewer than five bytes nothing is read. -/
theorem loop_start_short {buf stream : Bytes} (h : stream.length < 5) (itemsRead : ℕ) :
    (Reading.start buf stream itemsRead).loop = [.rereadLog itemsRead] := by
  refine loop_finished ?_
  have hread : (Reading.start buf stream itemsRead).read < 5 := by
    simp only [Reading.start, readInto]
    split_ifs
    · decide
    · rw [List.length_take]
      omega
  exact if_pos hread

theorem getD_here (before : Bytes) (x : UInt8) (after : Bytes) :
    (before ++ x :: after).getD before.length 0 = x := by simp

theorem skipLoop_here (before after stream : Bytes) :
    skipLoop stream (before ++ magicByte :: after) before.length =
      .ok (before.length, before ++ magicByte :: after, stream) := by
  rw [skipLoop.eq_def]
  exact if_pos (getD_here before magicByte after)

/-- One byte is skipped and one is read. -/
theorem skipLoop_skip {x : UInt8} (hx : x ≠ magicByte) (before : Bytes) {w : Bytes}
    (hw : w.length = 4) (after : Bytes) (b : UInt8) (stream : Bytes) :
    skipLoop (b :: stream) (before ++ (x :: w ++ after)) before.length =
      if bufLength < before.length + 1 + 10 then .error (before.length + 1)
      else skipLoop stream ((before ++ [x]) ++ ((w ++ [b]) ++ after.drop 1))
        (before ++ [x]).length := by
  have hover : overwrite (before ++ (x :: w ++ after)) (before.length + 1 + 4) [b] =
      (before ++ [x]) ++ ((w ++ [b]) ++ after.drop 1) := by
    have hlen : before.length + 1 + 4 = (before ++ x :: w).length := by
      rw [List.length_append, List.length_cons, hw]
    rw [overwrite, hlen, ← List.append_assoc, List.take_left, List.length_singleton,
      List.drop_length_add_append]
    simp
  have hnot : ¬ (before ++ (x :: w ++ after)).getD before.length 0 = magicByte := by
    rw [List.cons_append, getD_here]
    exact hx
  rw [List.length_append, List.length_singleton, ← hover, skipLoop.eq_def]
  exact if_neg hnot

theorem skipLoop_end {x : UInt8} (hx : x ≠ magicByte) (before after : Bytes) :
    skipLoop [] (before ++ x :: after) before.length = .error (before.length + 1) := by
  have hnot : ¬ (before ++ x :: after).getD before.length 0 = magicByte := by
    rw [getD_here]
    exact hx
  rw [skipLoop.eq_def]
  exact if_neg hnot

/-- The search goes to the first magic byte, if it is not too far away. -/
theorem skipLoop_found (header rest : Bytes) (hheader : header.length = 4) :
    ∀ (g before w after stream : Bytes), w.length = 5 →
    w ++ stream = g ++ magicByte :: (header ++ rest) → magicByte ∉ g →
    before.length + g.length + 10 ≤ bufLength →
    ∃ after', skipLoop stream (before ++ (w ++ after)) before.length =
      .ok (before.length + g.length, before ++ (g ++ magicByte :: (header ++ after')), rest)
  | [], before, w, after, stream, hw, happ, _, _ => by
    obtain ⟨rfl, rfl⟩ : w = magicByte :: header ∧ stream = rest :=
      List.append_inj happ (by rw [hw, List.length_cons, hheader])
    exact ⟨after, skipLoop_here before (header ++ after) stream⟩
  | x :: g, before, [], after, stream, hw, _, _, _ => by cases hw
  | x :: g, before, y :: w, after, [], hw, happ, _, _ => by
    have hlen := congrArg List.length happ
    simp only [List.length_append, List.length_cons, List.length_nil] at hlen hw
    omega
  | x :: g, before, y :: w, after, b :: stream, hw, happ, hg, hroom => by
    obtain ⟨rfl, happ⟩ : y = x ∧ w ++ b :: stream = g ++ magicByte :: (header ++ rest) :=
      List.cons.inj happ
    rw [List.mem_cons, not_or] at hg
    have hwlen : w.length = 4 := Nat.succ.inj hw
    rw [List.length_cons] at hroom
    obtain ⟨after', hloop⟩ := skipLoop_found header rest hheader g (before ++ [y]) (w ++ [b])
      (after.drop 1) stream (by simp [hwlen]) (by simpa using happ) hg.2 (by simp; omega)
    refine ⟨after', ?_⟩
    rw [skipLoop_skip (Ne.symm hg.1) before hwlen, if_neg (by omega), hloop]
    simp [Nat.add_assoc, Nat.add_comm 1]

/-- The search fails if there is no magic byte, or if it is too far away. -/
theorem skipLoop_fails (rest : Bytes) : ∀ (g before w after stream : Bytes), w.length = 5 →
    w ++ stream = g ++ rest → magicByte ∉ g → before.length + 10 ≤ bufLength →
    (rest = [] ∨ bufLength < before.length + g.length + 10) →
    ∃ n, skipLoop stream (before ++ (w ++ after)) before.length = .error n
  | [], before, w, after, stream, hw, happ, _, hroom, hrest => by
    rcases hrest with rfl | hfar
    · have hnil := congrArg List.length happ
      rw [List.length_append, hw] at hnil
      simp at hnil
    · rw [List.length_nil] at hfar
      omega
  | x :: g, before, [], after, stream, hw, _, _, _, _ => by cases hw
  | x :: g, before, y :: w, after, [], hw, happ, hg, _, _ => by
    obtain ⟨rfl, -⟩ : y = x ∧ w ++ [] = g ++ rest :=
      List.cons.inj (by simpa using happ)
    rw [List.mem_cons, not_or] at hg
    exact ⟨_, skipLoop_end (Ne.symm hg.1) before (w ++ after)⟩
  | x :: g, before, y :: w, after, b :: stream, hw, happ, hg, hroom, hrest => by
    obtain ⟨rfl, happ⟩ : y = x ∧ w ++ b :: stream = g ++ rest := List.cons.inj happ
    rw [List.mem_cons, not_or] at hg
    have hwlen : w.length = 4 := Nat.succ.inj hw
    rw [List.length_cons] at hrest
    rw [skipLoop_skip (Ne.symm hg.1) before hwlen]
    split_ifs with hfar
    · exact ⟨_, rfl⟩
    · exact skipLoop_fails rest g (before ++ [y]) (w ++ [b]) (after.drop 1) stream (by simp [hwlen])
        (by simpa using happ) hg.2 (by simp; omega) (by simpa [Nat.add_assoc, Nat.add_comm 1] using hrest)

/-! ## An iteration -/

/-- The length in the header. -/
def headerLen (header : Bytes) : ℤ := Int.bmod (Lib.bytesNumber header) (2 ^ 32)

theorem getInt_eq_headerLen (buf : Bytes) (off : ℕ) :
    getInt buf off = headerLen ((buf.drop off).take 4) := rfl

/-- The magic byte is found: its item is read. -/
theorem body_found {s : Reading} {g header rest : Bytes}
    (h : s.At (g ++ magicByte :: (header ++ rest))) (hheader : header.length = 4)
    (hg : magicByte ∉ g) (hroom : g.length + 10 ≤ bufLength) :
    ∃ after, s.body = { s with buf := g ++ magicByte :: (header ++ after) }.afterItem
      (skippedMessage g.length) (headerLen header) (readBuf2 (headerLen header) rest) := by
  obtain ⟨hread, w, after, hw, hbuf, hpending⟩ := h
  obtain ⟨after', hskip⟩ := skipLoop_found header rest hheader g [] w after s.stream hw
    hpending.symm hg (by rw [List.length_nil]; omega)
  simp only [List.nil_append, List.length_nil, Nat.zero_add] at hskip
  have hlen : getInt (g ++ magicByte :: (header ++ after')) (g.length + 1) = headerLen header := by
    have hdrop : (g ++ magicByte :: (header ++ after')).drop (g.length + 1) = header ++ after' := by
      rw [List.drop_length_add_append]
      rfl
    have htake : (header ++ after').take 4 = header := List.take_left' hheader
    rw [getInt_eq_headerLen, hdrop, htake]
  refine ⟨after', ?_⟩
  rw [Reading.body, if_neg (by omega), hbuf, hskip]
  dsimp only
  rw [hlen]
  rfl

/-- No magic byte is found. -/
theorem deliveries_fails {s : Reading} {g rest : Bytes} (h : s.At (g ++ rest))
    (hg : magicByte ∉ g) (hrest : rest = [] ∨ bufLength < g.length + 10) :
    deliveries s.loop = [] := by
  obtain ⟨hread, w, after, hw, hbuf, hpending⟩ := h
  obtain ⟨n, hskip⟩ := skipLoop_fails rest g [] w after s.stream hw hpending.symm hg
    (by unfold bufLength; simp) (by simpa using hrest)
  simp only [List.nil_append, List.length_nil] at hskip
  have hbody : s.body = .finished [.skippedNoMagic n, .rereadLog s.itemsRead] := by
    rw [Reading.body, if_neg (by omega), hbuf, hskip]
  rw [loop_finished hbody]
  rfl

/-- The next item begins where the last one ended. -/
theorem nextItem_start {s : Reading} (es : List Event) (h : s.itemsRead + 1 ≤ 2 * maxLogEntries) :
    s.nextItem es = .next es (Reading.start s.buf s.stream (s.itemsRead + 1)) := by
  unfold Reading.nextItem
  dsimp only
  rw [if_neg (by omega)]
  rfl

/-- The first byte of `buf` stays when an item is given up. -/
theorem resynchronise_at {s : Reading} {x : UInt8} {tail : Bytes} (hbuf : s.buf = x :: tail)
    (es : List Event) (h : 4 ≤ s.stream.length) :
    ∃ s', s.resynchronise es = .next es s' ∧ s'.At (x :: s.stream) ∧ s'.itemsRead = s.itemsRead := by
  have hlen : (s.stream.take 4).length = 4 := by rw [List.length_take]; omega
  refine ⟨_, rfl, ⟨?_, x :: s.stream.take 4, tail.drop 4, by simp [hlen], ?_, ?_⟩, rfl⟩
  · have hne : (s.stream.take 4).isEmpty = false := by
      rw [List.isEmpty_eq_false_iff, ← List.length_pos_iff, hlen]
      decide
    simp only [hne, Bool.false_eq_true, if_false, hlen]
    rfl
  · simp only [overwrite, hlen, hbuf]
    rfl
  · simp only [List.cons_append, List.take_append_drop]

/-- With fewer than four bytes the loop ends. -/
theorem resynchronise_short {s : Reading} (es : List Event) (h : s.stream.length < 4) :
    ∃ s', s.resynchronise es = .next es s' ∧ deliveries s'.loop = [] := by
  refine ⟨_, rfl, ?_⟩
  rw [loop_finished (if_pos ?_)]
  · rfl
  · dsimp only
    split_ifs
    · decide
    · rw [List.length_take]
      omega

/-! ## Items that are found -/

theorem headerLen_lenBytes {n : ℕ} (h : n < 2 ^ 31) : headerLen (lenBytes n) = n := by
  have hvalue : Lib.bytesNumber (lenBytes n) = n := Lib.bytesNumber_numberBytes 4 n (by omega)
  have hmod : ∀ m : ℕ, m < 2 ^ 31 → Int.bmod m (2 ^ 32) = m := by
    intro m hm
    exact Int.bmod_eq_of_le (by norm_num) (by norm_num; omega)
  unfold headerLen
  rw [hvalue, hmod n h]

theorem length_lenBytes (n : ℕ) : (lenBytes n).length = 4 := Lib.length_numberBytes 4 n

/-- What is written contains the magic byte only at the beginning and in the length. -/
theorem magicByte_not_mem_escapedBytes (bytes : Bytes) : magicByte ∉ escapedBytes bytes := by
  intro h
  obtain ⟨b, -, hb⟩ := List.mem_flatMap.1 h
  unfold escapedByte isMagic at hb
  by_cases h1 : b = magicByte
  · subst h1
    exact absurd hb (by decide)
  · by_cases h2 : b = magicByte + 1
    · subst h2
      exact absurd hb (by decide)
    · simp only [beq_eq_false_iff_ne.2 h1, beq_eq_false_iff_ne.2 h2, Bool.or_self,
        Bool.false_eq_true, if_false, List.mem_singleton] at hb
      exact h1 hb.symm

theorem written_cons (bytes : Bytes) (items : List Bytes) (rest : Bytes) :
    written (bytes :: items) ++ rest =
      magicByte :: (lenBytes bytes.length ++ (escapedBytes bytes ++ (written items ++ rest))) := by
  change (writeEscapedBytes bytes ++ written items) ++ rest = _
  rw [writeEscapedBytes]
  simp only [List.cons_append, List.append_assoc]

/-- The bytes of an item that is in the file as a whole, or in part. -/
theorem readItem_part (len : ℤ) (rest : Bytes) : ∀ (bytes done : Bytes) (room : ℕ),
    ((done.length + bytes.length : ℕ) : ℤ) ≤ len → bytes.length ≤ room →
    readItem len room done (escapedBytes bytes ++ rest) =
      readItem len (room - bytes.length) (done ++ bytes) rest
  | [], done, room, _, _ => by rw [List.append_nil, List.length_nil, Nat.sub_zero]; rfl
  | b :: bytes, done, 0, _, h => by simp at h
  | b :: bytes, done, room + 1, hlen, h => by
    have hmore : (done.length : ℤ) < len := by
      rw [List.length_cons] at hlen
      push_cast at hlen
      omega
    have hcons : escapedBytes (b :: bytes) ++ rest = escapedByte b ++ (escapedBytes bytes ++ rest) :=
      List.append_assoc ..
    have ih := readItem_part len rest bytes (done ++ [b]) room
      (by simp only [List.length_append, List.length_cons, List.length_nil] at hlen ⊢; omega)
      (by simpa using h)
    rw [readItem, if_pos hmore, hcons, itemByte_escapedByte]
    dsimp only
    rw [ih, List.length_cons, Nat.add_sub_add_right, List.append_assoc done, List.singleton_append]

/-- An item that is too long. -/
theorem readBuf2_overflow {len : ℤ} {bytes : Bytes} (h : bufLength < bytes.length)
    (hlen : (bytes.length : ℤ) ≤ len) (rest : Bytes) :
    ∃ stream, readBuf2 len (escapedBytes bytes ++ rest) = (.overflow, stream) := by
  obtain ⟨b, after, hsplit⟩ : ∃ b after, bytes.drop bufLength = b :: after :=
    List.exists_cons_of_ne_nil (by simpa using h)
  have hbytes : escapedBytes bytes ++ rest = escapedBytes (bytes.take bufLength) ++
      (escapedByte b ++ (escapedBytes after ++ rest)) := by
    conv_lhs => rw [← List.take_append_drop bufLength bytes, hsplit]
    simp only [escapedBytes, List.flatMap_append, List.flatMap_cons, List.append_assoc]
  have htake : (bytes.take bufLength).length = bufLength := by rw [List.length_take]; omega
  refine ⟨escapedBytes after ++ rest, ?_⟩
  rw [readBuf2, hbytes, readItem_part _ _ _ _ _ (by rw [htake, List.length_nil]; omega) (by omega),
    htake, Nat.sub_self, List.nil_append, readItem, if_pos (by omega), itemByte_escapedByte]

theorem body_delivers {s : Reading} {g bytes rest : Bytes}
    (h : s.At (g ++ (writeEscapedBytes bytes ++ rest))) (hg : magicByte ∉ g)
    (hroom : g.length + 10 ≤ bufLength) (hbytes : bytes.length ≤ bufLength)
    (hitems : s.itemsRead + 1 ≤ 2 * maxLogEntries) :
    ∃ buf', s.body = .next (skippedMessage g.length ++ [restored bytes])
      (Reading.start buf' rest (s.itemsRead + 1)) := by
  have hitem : readBuf2 bytes.length (escapedBytes bytes ++ rest) =
      (.complete (bytes ++ List.replicate (bufLength - bytes.length) 0), rest) := by
    have hread := readItem_escapedBytes rest bytes [] bufLength hbytes
    rwa [List.nil_append, List.length_nil, Nat.zero_add] at hread
  rw [writeEscapedBytes, List.cons_append, List.append_assoc] at h
  obtain ⟨after, hbody⟩ := body_found h (length_lenBytes _) hg hroom
  rw [headerLen_lenBytes (by unfold bufLength at hbytes; omega), hitem] at hbody
  exact ⟨_, hbody.trans (nextItem_start _ hitems)⟩

/-- The items behind bytes that are skipped. -/
theorem deliveries_found {s : Reading} {g : Bytes} {items : List Bytes}
    (h : s.At (g ++ written items)) (hg : magicByte ∉ g) (hroom : g.length + 10 ≤ bufLength)
    (hlen : ∀ bytes ∈ items, bytes.length ≤ bufLength)
    (hitems : s.itemsRead + items.length ≤ 2 * maxLogEntries) :
    deliveries s.loop = items.map restored := by
  cases items with
  | nil => exact deliveries_fails h hg (Or.inl rfl)
  | cons bytes items =>
    rw [List.length_cons] at hitems
    obtain ⟨buf', hbody⟩ := @body_delivers s g bytes (written items) h hg hroom
      (hlen bytes List.mem_cons_self) (by omega)
    rw [loop_next hbody, loop_written items buf' _ (fun b hb => hlen b (List.mem_cons_of_mem _ hb))
      (by omega)]
    simp only [deliveries_append, deliveries_skippedMessage, deliveries_map_restored,
      List.nil_append, List.map_cons]
    change restored bytes :: (items.map restored ++ []) = _
    rw [List.append_nil]

/-- With more bytes before them than `buf` has room for, they are lost. -/
theorem length_deliveries_le {s : Reading} {g : Bytes} {items : List Bytes}
    (h : s.At (g ++ written items)) (hg : magicByte ∉ g)
    (hlen : ∀ bytes ∈ items, bytes.length ≤ bufLength)
    (hitems : s.itemsRead + items.length ≤ 2 * maxLogEntries) :
    (deliveries s.loop).length ≤ items.length := by
  by_cases hroom : g.length + 10 ≤ bufLength
  · rw [deliveries_found h hg hroom hlen hitems, List.length_map]
  · rw [deliveries_fails h hg (Or.inr (by omega))]
    exact Nat.zero_le _

/-! ## The item after a cut one is lost -/

/-- The item is given up, with `continue readloop`. -/
def Item.GivenUp : Item → Prop
  | .unexpectedMagic _ => True
  | .escapedByteNot _ => True
  | _ => False

/-- What is left of a stream that goes on with `rest` behind bytes without the magic byte. -/
def Within (rest left : Bytes) : Prop := ∃ e, magicByte ∉ e ∧ left = e ++ rest

theorem itemByte_plain {b : UInt8} (hb : b ≠ magicByte) (hesc : b ≠ magicByte + 1) (stream : Bytes) :
    itemByte (b :: stream) = (.ok b, stream) := by
  unfold itemByte
  dsimp only [readByte]
  rw [if_neg hb, if_neg hesc]

theorem itemByte_escape (b : UInt8) (stream : Bytes) :
    (itemByte ((magicByte + 1) :: b :: stream)).2 = stream := by
  have hb : ¬ magicByte + 1 = magicByte := by decide
  unfold itemByte
  dsimp only [readByte]
  rw [if_neg hb, if_pos rfl]
  split_ifs <;> rfl

theorem itemByte_givenUp {stream left : Bytes} {f : ℕ → Item}
    (h : itemByte stream = (.error f, left)) (pos : ℕ) : (f pos).GivenUp := by
  unfold itemByte at h
  dsimp only at h
  split_ifs at h <;> cases h <;> trivial

/-- A byte of an item is read before `rest`, or the magic byte at its beginning is met. -/
theorem itemByte_within {e rest : Bytes} (he : magicByte ∉ e)
    (hrest : rest = [] ∨ ∃ u, rest = magicByte :: u) :
    Within rest (itemByte (e ++ rest)).2 ∨
      ∃ f, itemByte (e ++ rest) = (.error f, rest.tail) := by
  cases e with
  | nil =>
    rcases hrest with rfl | ⟨u, rfl⟩
    · exact Or.inl ⟨[], he, rfl⟩
    · exact Or.inr ⟨_, rfl⟩
  | cons b e =>
    rw [List.mem_cons, not_or] at he
    by_cases hesc : b = magicByte + 1
    · subst hesc
      cases e with
      | nil =>
        rcases hrest with rfl | ⟨u, rfl⟩
        · exact Or.inl ⟨[], he.2, rfl⟩
        · exact Or.inr ⟨_, rfl⟩
      | cons c e =>
        exact Or.inl ⟨e, fun hmem => he.2 (List.mem_cons_of_mem c hmem), itemByte_escape c _⟩
    · exact Or.inl ⟨e, he.2, by rw [List.cons_append, itemByte_plain (Ne.symm he.1) hesc]⟩

/-- An item that is not given up ends before `rest`. -/
theorem readItem_within {rest : Bytes} (hrest : rest = [] ∨ ∃ u, rest = magicByte :: u) (len : ℤ) :
    ∀ (room : ℕ) (done : Bytes) {e : Bytes}, magicByte ∉ e →
    Within rest (readItem len room done (e ++ rest)).2 ∨
      (readItem len room done (e ++ rest)).1.GivenUp ∧
        (readItem len room done (e ++ rest)).2 = rest.tail
  | room, done, e, he => by
    rw [readItem.eq_def]
    dsimp only
    split_ifs
    · rcases itemByte_within he hrest with hin | ⟨f, hf⟩
      · rcases hb : itemByte (e ++ rest) with ⟨f | b, left⟩
        · rw [hb] at hin
          exact Or.inl hin
        · rw [hb] at hin
          obtain ⟨e', he', rfl⟩ := hin
          cases room with
          | zero => exact Or.inl ⟨e', he', rfl⟩
          | succ room => exact readItem_within hrest len room (done ++ [b]) he'
      · rw [hf]
        exact Or.inr ⟨itemByte_givenUp hf _, rfl⟩
    · exact Or.inl ⟨e, he, rfl⟩

/-- A length without the magic byte is not the length of an item whose length has it as its last
byte. -/
theorem headerLen_ne {header : Bytes} (h : header.length = 4) (hmagic : magicByte ∉ header) {n : ℕ}
    (hn : n % 256 = 0x55) : headerLen header ≠ n := by
  obtain ⟨a, b, c, d, rfl⟩ : ∃ a b c d, header = [a, b, c, d] := by
    match header, h with
    | [a, b, c, d], _ => exact ⟨a, b, c, d, rfl⟩
  intro heq
  have hmod := congrArg (· % (2 ^ 32 : ℤ)) heq
  have hemod : headerLen [a, b, c, d] % (2 ^ 32 : ℤ) = (Lib.bytesNumber [a, b, c, d] : ℤ) % 2 ^ 32 :=
    Int.bmod_emod
  rw [hemod] at hmod
  simp only [Lib.bytesNumber, List.foldl_cons, List.foldl_nil] at hmod
  have hd : d.toNat = 0x55 := by
    have := d.toNat_lt
    omega
  exact hmagic (by rw [show d = magicByte from UInt8.toNat_inj.1 hd]; simp)

theorem written_cases (items : List Bytes) :
    written items = [] ∨ ∃ u, written items = magicByte :: u := by
  cases items with
  | nil => exact Or.inl rfl
  | cons bytes items => exact Or.inr ⟨_, rfl⟩

/-- The length bytes of an item with the magic byte among them. -/
theorem lenBytes_magic {n : ℕ} (hn : n ≤ bufLength) (h : magicByte ∈ lenBytes n) :
    n % 256 = 0x55 ∧ ∃ p, p.length = 3 ∧ magicByte ∉ p ∧ lenBytes n = p ++ [magicByte] := by
  unfold bufLength at hn
  have h3 : ¬ magicByte = UInt8.ofNat (n / 256 / 256 / 256) := by
    rw [← UInt8.toNat_inj, UInt8.toNat_ofNat']
    change ¬ 0x55 = _
    omega
  have h2 : ¬ magicByte = UInt8.ofNat (n / 256 / 256) := by
    rw [← UInt8.toNat_inj, UInt8.toNat_ofNat']
    change ¬ 0x55 = _
    omega
  have h1 : ¬ magicByte = UInt8.ofNat (n / 256) := by
    rw [← UInt8.toNat_inj, UInt8.toNat_ofNat']
    change ¬ 0x55 = _
    omega
  have hbytes : lenBytes n = [UInt8.ofNat (n / 256 / 256 / 256), UInt8.ofNat (n / 256 / 256),
      UInt8.ofNat (n / 256), UInt8.ofNat n] := rfl
  simp only [hbytes, List.mem_cons, h3, h2, h1, List.not_mem_nil, or_false, false_or] at h
  refine ⟨?_, [UInt8.ofNat (n / 256 / 256 / 256), UInt8.ofNat (n / 256 / 256), UInt8.ofNat (n / 256)], rfl,
    by simp only [List.mem_cons, h3, h2, h1, List.not_mem_nil, or_self, not_false_eq_true],
    by rw [h]; rfl⟩
  have hlow := congrArg UInt8.toNat h
  rw [UInt8.toNat_ofNat'] at hlow
  exact hlow.symm

/-- What follows after an item was given up: the first byte of `buf` and the rest of the stream. -/
theorem deliveries_givenUp {s t : Reading} {message : List Event} {len : ℤ} {item : Item × Bytes}
    {tail : Bytes} {x : UInt8} (hbody : s.body = t.afterItem message len item)
    (hmessage : deliveries message = []) (hitem : item.1.GivenUp) (hbuf : t.buf = x :: tail) :
    (item.2.length < 4 ∧ deliveries s.loop = []) ∨
      ∃ s' : Reading, deliveries s.loop = deliveries s'.loop ∧ s'.At (x :: item.2) ∧
        s'.itemsRead = t.itemsRead := by
  obtain ⟨item, stream⟩ := item
  obtain ⟨e, he, hresync⟩ : ∃ e, deliveries [e] = [] ∧ s.body =
      { t with stream := stream }.resynchronise (message ++ [e]) := by
    cases item with
    | unexpectedMagic pos => exact ⟨_, rfl, hbody⟩
    | escapedByteNot b => exact ⟨_, rfl, hbody⟩
    | complete buf2 => exact absurd hitem id
    | overflow => exact absurd hitem id
  by_cases hshort : stream.length < 4
  · obtain ⟨s', hnext, hend⟩ := resynchronise_short (s := { t with stream := stream })
      (message ++ [e]) hshort
    refine Or.inl ⟨hshort, ?_⟩
    rw [loop_next (hresync.trans hnext)]
    simp only [deliveries_append, hmessage, he, hend, List.append_nil]
  · obtain ⟨s', hnext, hat, hitems⟩ := resynchronise_at (s := { t with stream := stream }) hbuf
      (message ++ [e]) (Nat.not_lt.1 hshort)
    refine Or.inr ⟨s', ?_, hat, hitems⟩
    rw [loop_next (hresync.trans hnext)]
    simp only [deliveries_append, hmessage, he, List.nil_append]

/-- The items behind what is left of a stream. -/
theorem length_deliveries_start {left : Bytes} {items : List Bytes}
    (hleft : Within (written items) left) (buf : Bytes) (itemsRead : ℕ)
    (hlen : ∀ bytes ∈ items, bytes.length ≤ bufLength)
    (hitems : itemsRead + items.length ≤ 2 * maxLogEntries) :
    (deliveries (Reading.start buf left itemsRead).loop).length ≤ items.length := by
  by_cases hshort : left.length < 5
  · rw [loop_start_short hshort]
    exact Nat.zero_le _
  · obtain ⟨e, he, rfl⟩ := hleft
    exact length_deliveries_le (start_at (Nat.not_lt.1 hshort) itemsRead) he hlen hitems

/-- The bytes that are left when the magic byte of the next item is passed over. -/
def Lost (s : Reading) (x : UInt8) (bytes : Bytes) (items : List Bytes) : Prop :=
  s.At (x :: (lenBytes bytes.length ++ (escapedBytes bytes ++ written items)))

/-- The last length byte of the lost item is taken for the magic byte of an item.  What is then read
as an item has another length; or the magic byte of the item after it is met, which is lost too. -/
theorem deliveries_misread {items : List Bytes} {bytes : Bytes} {s : Reading} {x : UInt8}
    (hx : x ≠ magicByte) (h : Lost s x bytes items)
    (hlen : ∀ b ∈ bytes :: items, b.length ≤ bufLength)
    (hitems : s.itemsRead + (items.length + 1) ≤ 2 * maxLogEntries)
    (hmagic : magicByte ∈ lenBytes bytes.length) :
    (deliveries s.loop).length ≤ items.length ∨
    (∃ buf2 len es, deliveries s.loop = .restoreLogItem buf2 len :: es ∧ es.length ≤ items.length ∧
      len ≠ bytes.length) ∨
    ∃ next items' s', items = next :: items' ∧ deliveries s.loop = deliveries s'.loop ∧
      Lost s' x next items' ∧ s'.itemsRead = s.itemsRead := by
  have hitemsLen : ∀ b ∈ items, b.length ≤ bufLength :=
    fun b hb => hlen b (List.mem_cons_of_mem _ hb)
  obtain ⟨hmod, p, hp, hpmagic, hlenBytes⟩ := lenBytes_magic (hlen bytes List.mem_cons_self) hmagic
  -- the header of the false item is at the beginning of the escaped bytes
  obtain ⟨header, e, hescaped, hheader⟩ : ∃ header e, escapedBytes bytes = header ++ e ∧
      header.length = 4 := by
    refine ⟨_, _, (List.take_append_drop 4 _).symm, ?_⟩
    rw [List.length_take, length_escapedBytes]
    omega
  have hfree := magicByte_not_mem_escapedBytes bytes
  rw [hescaped, List.mem_append, not_or] at hfree
  have hg : magicByte ∉ x :: p := by
    rw [List.mem_cons, not_or]
    exact ⟨Ne.symm hx, hpmagic⟩
  have hat : s.At ((x :: p) ++ magicByte :: (header ++ (e ++ written items))) := by
    unfold Lost at h
    rw [hlenBytes, hescaped] at h
    simpa using h
  obtain ⟨after, hbody⟩ := body_found hat hheader hg (by rw [List.length_cons, hp]; decide)
  have hne := headerLen_ne hheader hfree.1 hmod
  have hwithin := readItem_within (written_cases items) (headerLen header) bufLength [] hfree.2
  change Within _ (readBuf2 _ _).2 ∨ (readBuf2 _ _).1.GivenUp ∧ (readBuf2 _ _).2 = _ at hwithin
  generalize headerLen header = len at hbody hne hwithin
  rcases hitem : readBuf2 len (e ++ written items) with ⟨item, left⟩
  rw [hitem] at hbody hwithin
  by_cases hup : item.GivenUp
  · rcases deliveries_givenUp hbody (deliveries_skippedMessage _) hup rfl with
      ⟨-, hnone⟩ | ⟨s', hloop, hat', hread⟩
    · exact Or.inl (by rw [hnone]; exact Nat.zero_le _)
    · rcases hwithin with ⟨e', he', hleft⟩ | ⟨-, htail⟩
      · refine Or.inl ?_
        change left = _ at hleft
        rw [hloop]
        refine length_deliveries_le (g := x :: e') (by simpa [hleft] using hat') ?_ hitemsLen
          (by rw [hread]; dsimp only; omega)
        rw [List.mem_cons, not_or]
        exact ⟨Ne.symm hx, he'⟩
      · change left = _ at htail
        subst htail
        cases items with
        | nil => exact absurd hat'.length (by simp [written])
        | cons next items =>
          refine Or.inr (Or.inr ⟨next, items, s', rfl, hloop, ?_, hread⟩)
          have hcons := written_cons next items []
          rw [List.append_nil, List.append_nil] at hcons
          rwa [hcons] at hat'
  · have hin : Within (written items) left := hwithin.resolve_right fun hr => hup hr.1
    cases item with
    | complete buf2 =>
      have hnext := hbody.trans (nextItem_start _ (by dsimp only; omega))
      have hes := length_deliveries_start hin ((x :: p) ++ magicByte :: (header ++ after))
        (s.itemsRead + 1) hitemsLen (by omega)
      refine Or.inr (Or.inl ⟨buf2, len, _, ?_, hes, hne⟩)
      rw [loop_next hnext, deliveries_append, deliveries_append, deliveries_skippedMessage]
      rfl
    | overflow =>
      refine Or.inl ?_
      rw [loop_finished hbody, deliveries_append, deliveries_skippedMessage]
      exact Nat.zero_le _
    | unexpectedMagic pos => exact absurd trivial hup
    | escapedByteNot b => exact absurd trivial hup

/-- **The next item is lost** when `buf[0]` does not hold the magic byte: the items that are restored
are fewer, or others. -/
theorem deliveries_lost {x : UInt8} (hx : x ≠ magicByte) : ∀ (items : List Bytes) (bytes : Bytes)
    (s : Reading), Lost s x bytes items → (∀ b ∈ bytes :: items, b.length ≤ bufLength) →
    s.itemsRead + (items.length + 1) ≤ 2 * maxLogEntries →
    (deliveries s.loop).length ≤ items.length + 1 ∧
      deliveries s.loop ≠ (bytes :: items).map restored
  | items, bytes, s, h, hlen, hitems => by
    have hitemsLen : ∀ b ∈ items, b.length ≤ bufLength :=
      fun b hb => hlen b (List.mem_cons_of_mem _ hb)
    have hfewer : (deliveries s.loop).length ≤ items.length →
        (deliveries s.loop).length ≤ items.length + 1 ∧
          deliveries s.loop ≠ (bytes :: items).map restored := by
      intro hle
      refine ⟨Nat.le_succ_of_le hle, fun heq => ?_⟩
      rw [heq, List.length_map, List.length_cons] at hle
      omega
    by_cases hmagic : magicByte ∈ lenBytes bytes.length
    · rcases deliveries_misread hx h hlen hitems hmagic with
        hle | ⟨buf2, len, es, hes, hle, hne⟩ | ⟨next, items', s', rfl, hloop, hlost, hread⟩
      · exact hfewer hle
      · rw [hes]
        refine ⟨Nat.succ_le_succ hle, fun heq => hne ?_⟩
        exact (Event.restoreLogItem.inj (List.cons.inj heq).1).2
      · rw [List.length_cons] at hitems
        have ih := deliveries_lost hx items' next s' hlost hitemsLen (by omega)
        exact hfewer (by rw [hloop]; exact ih.1)
    · refine hfewer (length_deliveries_le (g := x :: (lenBytes bytes.length ++ escapedBytes bytes))
        ?_ ?_ hitemsLen (by omega))
      · unfold Lost at h
        simpa using h
      · simp [Ne.symm hx, hmagic, magicByte_not_mem_escapedBytes]
termination_by items => items.length

/-! ## The result -/

/-- A frame whose payload is cut off after `k` of its escaped bytes. -/
def cutFrame (bytes : Bytes) (k : ℕ) : Bytes :=
  magicByte :: (lenBytes bytes.length ++ (escapedBytes bytes).take k)

theorem cutFrame_complete (bytes : Bytes) :
    cutFrame bytes (escapedBytes bytes).length = writeEscapedBytes bytes := by
  rw [cutFrame, List.take_length]
  rfl

/-- Where the bytes are cut: after a byte, or between the two bytes of an escaped one. -/
theorem take_escapedBytes : ∀ (bytes : Bytes) {k : ℕ}, k < (escapedBytes bytes).length →
    ∃ before b after half, bytes = before ++ b :: after ∧
      (escapedBytes bytes).take k = escapedBytes before ++ half ∧
      (half = [] ∨ half = [magicByte + 1]) ∧ half.length < (escapedByte b).length
  | [], k, h => by simp [escapedBytes] at h
  | b :: bytes, k, h => by
    have hcons : escapedBytes (b :: bytes) = escapedByte b ++ escapedBytes bytes := rfl
    rw [hcons] at h ⊢
    by_cases hk : k < (escapedByte b).length
    · refine ⟨[], b, bytes, (escapedByte b).take k, rfl, ?_, ?_, ?_⟩
      · rw [List.take_append_of_le_length (by omega)]
        rfl
      · unfold escapedByte at hk ⊢
        split_ifs at hk ⊢ with hb
        · have hk2 : k < 2 := hk
          interval_cases k
          · exact Or.inl rfl
          · exact Or.inr rfl
        · have hk1 : k = 0 := Nat.lt_one_iff.1 hk
          exact Or.inl (by rw [hk1]; rfl)
      · rw [List.length_take]
        omega
    · rw [List.length_append] at h
      obtain ⟨before, c, after, half, hsplit, htake, hhalf⟩ :=
        take_escapedBytes bytes (k := k - (escapedByte b).length) (by omega)
      refine ⟨b :: before, c, after, half, by rw [hsplit]; rfl, ?_, hhalf⟩
      rw [List.take_append, htake, List.take_of_length_le (by omega)]
      exact (List.append_assoc ..).symm

/-- More bytes of the item are in the file than `buf2` has room for. -/
def Overlong (bytes : Bytes) (k : ℕ) : Prop :=
  bufLength < bytes.length ∧ (escapedBytes (bytes.take (bufLength + 1))).length ≤ k

theorem length_escapedBytes_append (bytes bytes' : Bytes) :
    (escapedBytes (bytes ++ bytes')).length =
      (escapedBytes bytes).length + (escapedBytes bytes').length := by
  rw [escapedBytes, List.flatMap_append, List.length_append]
  rfl

theorem overlong_complete (bytes : Bytes) :
    Overlong bytes (escapedBytes bytes).length ↔ bufLength < bytes.length := by
  refine and_iff_left ?_
  conv_rhs => rw [← List.take_append_drop (bufLength + 1) bytes]
  rw [length_escapedBytes_append]
  exact Nat.le_add_right _ _

theorem overlong_cut {before after half : Bytes} {b : UInt8}
    (hhalf : half.length < (escapedByte b).length) :
    Overlong (before ++ b :: after) ((escapedBytes before).length + half.length) ↔
      bufLength < before.length := by
  constructor
  · rintro ⟨-, hle⟩
    by_contra hlt
    have htake : (before ++ b :: after).take (bufLength + 1) =
        (before ++ [b]) ++ after.take (bufLength - before.length) := by
      rw [← List.singleton_append, ← List.append_assoc, List.take_append,
        List.take_of_length_le (by simp; omega)]
      simp only [List.length_append, List.length_singleton]
      congr 2
      omega
    have hb : (escapedBytes [b]).length = (escapedByte b).length := by
      simp [escapedBytes]
    rw [htake, length_escapedBytes_append, length_escapedBytes_append, hb] at hle
    omega
  · intro hlt
    refine ⟨by rw [List.length_append]; omega, ?_⟩
    have htake : (before ++ b :: after).take (bufLength + 1) = before.take (bufLength + 1) :=
      List.take_append_of_le_length hlt
    have hsplit := length_escapedBytes_append (before.take (bufLength + 1))
      (before.drop (bufLength + 1))
    rw [List.take_append_drop] at hsplit
    rw [htake]
    omega

/-- The reader stops at an item that is too long. -/
theorem deliveries_overlong {s : Reading} {g before rest : Bytes} {n : ℕ}
    (h : s.At (g ++ magicByte :: (lenBytes n ++ (escapedBytes before ++ rest))))
    (hg : magicByte ∉ g) (hroom : g.length + 10 ≤ bufLength) (hn : n < 2 ^ 31)
    (hbefore : bufLength < before.length) (hle : before.length ≤ n) : deliveries s.loop = [] := by
  obtain ⟨after, hbody⟩ := body_found h (length_lenBytes n) hg hroom
  rw [headerLen_lenBytes hn] at hbody
  obtain ⟨stream, hitem⟩ := readBuf2_overflow hbefore
    (show (before.length : ℤ) ≤ (n : ℤ) by exact_mod_cast hle) rest
  rw [hitem] at hbody
  rw [loop_finished hbody, deliveries_append, deliveries_skippedMessage]
  rfl

/-- A cut item is given up when the magic byte behind it is met. -/
theorem readBuf2_cut {before half rest : Bytes} {n : ℕ} (hbefore : before.length ≤ bufLength)
    (hn : before.length < n) (hhalf : half = [] ∨ half = [magicByte + 1]) :
    ∃ item, readBuf2 n (escapedBytes before ++ (half ++ magicByte :: rest)) = (item, rest) ∧
      item.GivenUp := by
  have hmore : (([] ++ before : Bytes).length : ℤ) < n := by
    rw [List.nil_append]
    exact_mod_cast hn
  rw [readBuf2, readItem_part _ _ _ _ _ (by rw [List.length_nil, Nat.zero_add]; exact_mod_cast hn.le)
    hbefore, readItem.eq_def]
  dsimp only
  rw [if_pos hmore]
  rcases hhalf with rfl | rfl
  · exact ⟨_, rfl, trivial⟩
  · exact ⟨_, rfl, trivial⟩

/-- An array that is handed over has the length of `buf2`. -/
theorem readItem_complete_length (len : ℤ) : ∀ (room : ℕ) (done stream : Bytes) {buf2 : Bytes},
    (readItem len room done stream).1 = .complete buf2 → buf2.length = done.length + room
  | room, done, stream, buf2, h => by
    rw [readItem.eq_def] at h
    dsimp only at h
    split_ifs at h
    · rcases hb : itemByte stream with ⟨f | b, left⟩ <;> rw [hb] at h
      · have hup := itemByte_givenUp hb done.length
        rw [show f done.length = .complete buf2 from h] at hup
        exact absurd hup id
      · cases room with
        | zero => cases h
        | succ room =>
          have ih := readItem_complete_length len room (done ++ [b]) left h
          rw [ih, List.length_append, List.length_singleton]
          omega
    · obtain rfl := Item.complete.inj h
      rw [List.length_append, List.length_replicate]

/-- The events of an iteration. -/
def Iteration.events : Iteration → List Event
  | .finished events => events
  | .next events _ => events

theorem events_resynchronise (s : Reading) (es : List Event) : (s.resynchronise es).events = es := rfl

theorem events_nextItem (s : Reading) (es : List Event) :
    (s.nextItem es).events = es ∨ (s.nextItem es).events = es ++ [.tooManyEntries] := by
  unfold Reading.nextItem
  dsimp only
  split_ifs
  · exact Or.inr rfl
  · exact Or.inl rfl

theorem body_restores {s : Reading} {buf2 : Bytes} {len : ℤ}
    (h : .restoreLogItem buf2 len ∈ s.body.events) : buf2.length = bufLength := by
  unfold Reading.body at h
  split_ifs at h
  · simp [Iteration.events] at h
  · rcases hskip : skipLoop s.stream s.buf 0 with n | ⟨skipped, buf, stream⟩ <;> rw [hskip] at h
    · simp [Iteration.events] at h
    · dsimp only at h
      change _ ∈ (Reading.afterItem _ (skippedMessage skipped) _ _).events at h
      have hmessage : Event.restoreLogItem buf2 len ∉ skippedMessage skipped := by
        unfold skippedMessage
        split_ifs <;> simp
      generalize getInt buf (skipped + 1) = len' at h
      rcases hitem : readBuf2 len' stream with ⟨item, left⟩
      rw [hitem] at h
      cases item with
      | complete buf2' =>
        have hlen : buf2'.length = bufLength := by
          have hread := readItem_complete_length len' bufLength [] stream (congrArg Prod.fst hitem)
          rwa [List.length_nil, Nat.zero_add] at hread
        unfold Reading.afterItem at h
        dsimp only at h
        rcases events_nextItem { s with buf := buf, stream := left }
          (skippedMessage skipped ++ [.restoreLogItem buf2' len']) with he | he <;>
        · rw [he] at h
          simp only [List.mem_append, hmessage, List.mem_singleton, Event.restoreLogItem.injEq,
            reduceCtorEq, false_or, or_false] at h
          rw [h.1, hlen]
      | unexpectedMagic pos => simp [Reading.afterItem, events_resynchronise, hmessage] at h
      | escapedByteNot b => simp [Reading.afterItem, events_resynchronise, hmessage] at h
      | overflow => simp [Reading.afterItem, Iteration.events, hmessage] at h

theorem loop_restores (s : Reading) {buf2 : Bytes} {len : ℤ}
    (h : .restoreLogItem buf2 len ∈ s.loop) : buf2.length = bufLength := by
  fun_induction Reading.loop s with
  | case1 s es hbody => exact body_restores (s := s) (by rw [hbody]; exact h)
  | case2 s es s' hbody ih =>
    rcases List.mem_append.1 h with h | h
    · exact body_restores (s := s) (by rw [hbody]; exact h)
    · exact ih h

/-- Every complete frame behind a cut one is restored, in order and unchanged. -/
def RestoresAll (g bytes : Bytes) (k : ℕ) (items : List Bytes) : Prop :=
  (items.map restored).Sublist (readCacheContents (g ++ (cutFrame bytes k ++ written items)))

theorem RestoresAll.length_le {g bytes : Bytes} {k : ℕ} {items : List Bytes}
    (h : RestoresAll g bytes k items) : ∀ b ∈ items, b.length ≤ bufLength := by
  intro b hb
  have hlen := loop_restores _ (h.subset (List.mem_map_of_mem (f := restored) hb))
  rw [List.length_append, List.length_replicate] at hlen
  omega

/-- The beginning of the loop on a file with a cut frame. -/
theorem restoresAll_start (g bytes : Bytes) (k : ℕ) (items : List Bytes) :
    ∃ s : Reading, s.At (g ++ (cutFrame bytes k ++ written items)) ∧ s.itemsRead = 0 ∧
      (RestoresAll g bytes k items ↔ (items.map restored).Sublist (deliveries s.loop)) := by
  refine ⟨Reading.start _ _ 0, start_at ?_ 0, rfl, fun h => ?_, fun h => h.trans List.filter_sublist⟩
  · simp only [cutFrame, List.length_append, List.length_cons, length_lenBytes]
    omega
  · have hfilter := h.filter Event.isRestored
    rwa [← deliveries, deliveries_map_restored] at hfilter

/-- After a cut item the reader goes on with the first byte of `buf` in the place of the magic byte. -/
theorem deliveries_cut {s : Reading} {g before half rest : Bytes} {n : ℕ}
    (h : s.At (g ++ magicByte :: (lenBytes n ++ (escapedBytes before ++ (half ++ magicByte :: rest)))))
    (hg : magicByte ∉ g) (hroom : g.length + 10 ≤ bufLength) (hn : n < 2 ^ 31)
    (hbefore : before.length ≤ bufLength) (hlt : before.length < n)
    (hhalf : half = [] ∨ half = [magicByte + 1]) (hrest : 4 ≤ rest.length) :
    ∃ s' : Reading, deliveries s.loop = deliveries s'.loop ∧ s'.At (g.headD magicByte :: rest) ∧
      s'.itemsRead = s.itemsRead := by
  obtain ⟨after, hbody⟩ := body_found h (length_lenBytes n) hg hroom
  obtain ⟨item, hitem, hup⟩ := @readBuf2_cut before half rest n hbefore hlt hhalf
  rw [headerLen_lenBytes hn, hitem] at hbody
  have hbuf : ∃ tail, g ++ magicByte :: (lenBytes n ++ after) = g.headD magicByte :: tail := by
    cases g <;> exact ⟨_, rfl⟩
  obtain ⟨tail, hbuf⟩ := hbuf
  rcases deliveries_givenUp hbody (deliveries_skippedMessage _) hup hbuf with
    ⟨hshort, -⟩ | ⟨s', hloop, hat, hread⟩
  · exact absurd hshort (by dsimp only; omega)
  · exact ⟨s', hloop, hat, hread⟩

theorem not_sublist_nil (bytes : Bytes) (items : List Bytes) :
    ¬ ((bytes :: items).map restored).Sublist [] := by
  rw [List.sublist_nil]
  exact List.cons_ne_nil _ _

/-- The frame before the other ones is complete. -/
theorem restored_complete_iff {s : Reading} {g bytes next : Bytes} {items : List Bytes}
    (h : s.At (g ++ (writeEscapedBytes bytes ++ written (next :: items)))) (hg : magicByte ∉ g)
    (hroom : g.length + 10 ≤ bufLength) (hbytes : bytes.length < 2 ^ 31)
    (hlen : ∀ b ∈ next :: items, b.length ≤ bufLength)
    (hitems : s.itemsRead + (items.length + 2) ≤ 2 * maxLogEntries) :
    ((next :: items).map restored).Sublist (deliveries s.loop) ↔ bytes.length ≤ bufLength := by
  constructor
  · intro hsub
    by_contra hlong
    rw [writeEscapedBytes, List.cons_append, List.append_assoc] at h
    rw [deliveries_overlong h hg hroom hbytes (Nat.not_le.1 hlong) le_rfl] at hsub
    exact not_sublist_nil next items hsub
  · intro hfits
    have hall := @deliveries_found s g (bytes :: next :: items) h hg hroom
      (List.forall_mem_cons.2 ⟨hfits, hlen⟩) hitems
    rw [hall]
    exact (List.sublist_cons_self bytes _).map restored

/-- It is cut. -/
theorem restored_cut_iff {s : Reading} {g before half next : Bytes} {items : List Bytes} {n : ℕ}
    (h : s.At (g ++ magicByte :: (lenBytes n ++ (escapedBytes before ++
      (half ++ written (next :: items))))))
    (hg : magicByte ∉ g) (hroom : g.length + 10 ≤ bufLength) (hn : n < 2 ^ 31)
    (hlt : before.length < n) (hhalf : half = [] ∨ half = [magicByte + 1])
    (hlen : ∀ b ∈ next :: items, b.length ≤ bufLength)
    (hitems : s.itemsRead + (items.length + 1) ≤ 2 * maxLogEntries) :
    ((next :: items).map restored).Sublist (deliveries s.loop) ↔
      before.length ≤ bufLength ∧ g = [] := by
  by_cases hbefore : before.length ≤ bufLength
  swap
  · rw [deliveries_overlong h hg hroom hn (Nat.not_le.1 hbefore) hlt.le]
    exact iff_of_false (not_sublist_nil next items) fun hand => hbefore hand.1
  rw [and_iff_right hbefore]
  have hwritten := written_cons next items []
  rw [List.append_nil, List.append_nil] at hwritten
  rw [hwritten] at h
  obtain ⟨s', hloop, hat, hread⟩ := deliveries_cut h hg hroom hn hbefore hlt hhalf
    (by rw [List.length_append, length_lenBytes]; omega)
  rw [hloop]
  cases g with
  | nil =>
    refine iff_of_true ?_ rfl
    rw [deliveries_found (g := []) (by rw [List.nil_append, hwritten]; exact hat) hg hroom hlen
      (by rw [hread]; exact hitems)]
  | cons x g =>
    refine iff_of_false (fun hsub => ?_) (List.cons_ne_nil x g)
    have hx : x ≠ magicByte := fun hx => hg (hx ▸ List.mem_cons_self)
    obtain ⟨hle, hne⟩ := deliveries_lost hx items next s' hat hlen (by rw [hread]; exact hitems)
    refine hne (hsub.eq_of_length_le ?_).symm
    rwa [List.length_map, List.length_cons]

/-- **Re-synchronisation.**  Every complete frame is restored exactly if there is none, or all of them
fit into `buf2` and so does what is read of the cut one, which stands at the beginning of the file or
is not really cut. -/
theorem restoresAll_iff {g bytes : Bytes} {k : ℕ} {items : List Bytes}
    (hg : magicByte ∉ g) (hglen : g.length < 16000) (hbytes : bytes.length < 2 ^ 31)
    (hk : k ≤ (escapedBytes bytes).length) (hitems : items.length ≤ 1000) :
    RestoresAll g bytes k items ↔
      items = [] ∨ (∀ b ∈ items, b.length ≤ bufLength) ∧ ¬ Overlong bytes k ∧
        (g = [] ∨ k = (escapedBytes bytes).length) := by
  have hroom : g.length + 10 ≤ bufLength := by unfold bufLength; omega
  have hmax : maxLogEntries = 1000 := rfl
  obtain ⟨s, hat, hread, hall⟩ := restoresAll_start g bytes k items
  cases items with
  | nil => exact iff_of_true (List.nil_sublist _) (Or.inl rfl)
  | cons next items =>
    rw [or_iff_right (List.cons_ne_nil next items)]
    rw [List.length_cons] at hitems
    by_cases hlen : ∀ b ∈ next :: items, b.length ≤ bufLength
    swap
    · exact iff_of_false (fun h => hlen h.length_le) fun h => hlen h.1
    rw [and_iff_right hlen, hall]
    rcases hk.lt_or_eq with hcut | rfl
    · obtain ⟨before, b, after, half, rfl, htake, hhalf, hshort⟩ := take_escapedBytes bytes hcut
      have hkeq : k = (escapedBytes before).length + half.length := by
        have hlentake := congrArg List.length htake
        rw [List.length_take, List.length_append] at hlentake
        omega
      rw [cutFrame, htake] at hat
      simp only [List.cons_append, List.append_assoc] at hat
      rw [or_iff_left hcut.ne, hkeq, overlong_cut hshort, not_lt]
      exact restored_cut_iff hat hg hroom hbytes (by simp) hhalf hlen (by omega)
    · rw [cutFrame_complete] at hat
      rw [overlong_complete, and_iff_left (Or.inr rfl), not_lt]
      exact restored_complete_iff hat hg hroom hbytes hlen (by omega)

/-- A frame that is cut inside an escaped byte, at the beginning of the file. -/
theorem restoresAll_beginning :
    RestoresAll [] [1, 0x55, 2] 2 [[3], [0x56, 4]] :=
  (restoresAll_iff (by decide) (by decide) (by decide) (by decide) (by decide)).2
    (Or.inr ⟨by decide, fun h => absurd h.1 (by decide), Or.inl rfl⟩)

/-- The same frame behind one other byte: the first complete frame is lost. -/
theorem not_restoresAll_shifted : ¬ RestoresAll [7] [1, 0x55, 2] 2 [[3], [0x56, 4]] := by
  obtain ⟨s, hat, hread, hall⟩ := restoresAll_start [7] [1, 0x55, 2] 2 [[3], [0x56, 4]]
  have hcut := @restored_cut_iff s [7] [1] [0x56] _ _ 3 hat
    (by decide) (by decide) (by decide) (by decide) (Or.inr rfl) (by decide)
    (by rw [hread]; decide)
  exact fun h => List.cons_ne_nil _ _ (hcut.1 (hall.1 h)).2

end VpnCore.Log
