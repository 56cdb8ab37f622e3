import Mathlib.Data.List.TakeWhile
import VpnCore.Log.Buffer

/-!
# VpnCore.Log.Trim — the cache file and the trims of the buffer

`newLogItem` puts an item into the buffer and sends it to the handler thread, which writes it to the
cache file.  When the buffer has been trimmed, the thread is told to write the file anew, from the
buffer.  It does so with the buffer that it finds then: an item that was logged after the trim and
before the file was written is in that buffer, and its own message is still in the queue, so that it
is written twice (`written_twice`).  In a run in which the message to trim is the last one in the
queue when it is processed this does not happen (`storedOnce_of_sound`).

Two other things are left to the condition: an item that does not fit into the buffer of
`getMarschaledBytes` is not written, and restored items are in the buffer in reverse order.
-/

namespace VpnCore.Log

open VpnCore.Lib

/-! ## The code -/

/-- The buffer, the messages and the cache file. -/
structure CacheSystem where
  status : Status LogItem := {}
  /-- how many items were restored -/
  restored : ℕ := 0
  /-- how many items were logged -/
  logged : ℕ := 0
  /-- the items in `mLogFile`, which is opened at the end of `LOG_INIT` -/
  file : Option (List LogItem) := none
  /-- how many items were logged when `LOG_INIT` was completed -/
  since : ℕ := 0
  deriving DecidableEq, Repr

/-- What happens to the log and its file. -/
inductive CacheEvent
  /-- the next item of the old cache file is restored -/
  | restore
  /-- `LOG_INIT` is completed -/
  | openLogFile
  /-- a thread logs an item -/
  | log
  /-- the handler thread processes a message -/
  | handleMessage
  deriving DecidableEq, Repr

namespace CacheSystem

def log (s : CacheSystem) : CacheSystem :=
  { s with status := s.status.newLogItem (.logged s.logged) false, logged := s.logged + 1 }

def restore (s : CacheSystem) : CacheSystem :=
  { s with status := s.status.newLogItem (.cached s.restored) true, restored := s.restored + 1 }

def openLogFile (s : CacheSystem) : CacheSystem := { s with file := some [], since := s.logged }

def getlogbuffer (s : CacheSystem) : List LogItem := s.status.logbuffer

section Handler

-- the items for which `getMarschaledBytes` returns
variable (fits : LogItem → Bool)

/-- `writeLogItemToDisk` for some items, until one of them does not fit: the exception is logged with
two items. -/
def writeLogItems (s : CacheSystem) (file items : List LogItem) : CacheSystem :=
  let s := { s with file := some (file ++ items.takeWhile fits) }
  if items.all fits then s else s.log.log

def process (s : CacheSystem) (file : List LogItem) : Message LogItem → CacheSystem
  | .logMessage li => s.writeLogItems fits file [li]
  -- the file is truncated
  | .trimLogFile => s.writeLogItems fits [] s.getlogbuffer

/-- The handler thread is busy with `LOG_INIT` until the file is open. -/
def handleMessage (s : CacheSystem) : CacheSystem :=
  match s.file, s.status.messages with
  | some file, msg :: messages =>
    { s with status := { s.status with messages := messages } }.process fits file msg
  | _, _ => s

def step (s : CacheSystem) : CacheEvent → CacheSystem
  | .restore => if s.file.isNone then s.restore else s
  | .openLogFile => if s.file.isNone then s.openLogFile else s
  | .log => s.log
  | .handleMessage => s.handleMessage fits

end Handler

/-- The state when `LOG_INIT` is sent: some items may have been logged before. -/
def Created (s : CacheSystem) : Prop :=
  (∃ d, s.getlogbuffer = (loggedItems s.logged).drop d) ∧ s.status.messages = [] ∧ s.file = none

/-- What is expected when the queue is empty. -/
def StoredOnce (s : CacheSystem) : Prop :=
  ∀ file, s.file = some file → s.status.messages = [] →
    file.Nodup ∧ file.Pairwise LogItem.Older ∧
      ∀ j, s.since ≤ j → .logged j ∈ s.getlogbuffer → .logged j ∈ file

end CacheSystem

def LogItem.isCached : LogItem → Bool
  | .cached _ => true
  | .logged _ => false

/-- What a step must meet: an item that is written fits; and the message to trim is the last one in
the queue, or there is another one behind it, and the buffer has at most one restored item. -/
def CacheSystem.Sound (fits : LogItem → Bool) (s : CacheSystem) : CacheEvent → Prop
  | .handleMessage =>
    match s.file, s.status.messages with
    | some _, .logMessage li :: _ => fits li = true
    | some _, .trimLogFile :: messages =>
      s.getlogbuffer.all fits = true ∧ (.trimLogFile ∈ messages ∨
        messages = [] ∧ s.getlogbuffer.countP LogItem.isCached ≤ 1)
    | _, _ => True
  | _ => True

instance (fits : LogItem → Bool) (s : CacheSystem) (e : CacheEvent) : Decidable (s.Sound fits e) := by
  unfold CacheSystem.Sound
  split
  · split <;> infer_instance
  · infer_instance

/-! ## What is known in a run -/

/-- The item of a message. -/
def Message.item? : Message LogItem → Option LogItem
  | .logMessage li => some li
  | .trimLogFile => none

/-- The items that wait to be written. -/
def pending (messages : List (Message LogItem)) : List LogItem := messages.filterMap Message.item?

@[simp] theorem pending_append (ms ms' : List (Message LogItem)) :
    pending (ms ++ ms') = pending ms ++ pending ms' := List.filterMap_append

/-- The item is older than the next one that is logged. -/
def LogItem.Before (n : ℕ) : LogItem → Prop
  | .cached _ => True
  | .logged j => j < n

theorem LogItem.Before.older {n : ℕ} {x : LogItem} (h : x.Before n) : x.Older (.logged n) := by
  cases x with
  | cached i => trivial
  | logged j => exact h

theorem LogItem.Before.succ {n : ℕ} {x : LogItem} (h : x.Before n) : x.Before (n + 1) := by
  cases x with
  | cached i => trivial
  | logged j => exact Nat.lt_succ_of_lt h

/-- The items in a list are in order and older than the next one that is logged. -/
def InOrder (n : ℕ) (items : List LogItem) : Prop :=
  items.Pairwise LogItem.Older ∧ ∀ x ∈ items, x.Before n

theorem InOrder.log {n : ℕ} {items : List LogItem} (h : InOrder n items) :
    InOrder (n + 1) (items ++ [.logged n]) := by
  refine ⟨List.pairwise_append.2 ⟨h.1, List.pairwise_singleton _ _, fun x hx y hy => ?_⟩,
    fun x hx => ?_⟩
  · rw [List.mem_singleton.1 hy]
    exact (h.2 x hx).older
  · rcases List.mem_append.1 hx with hx | hx
    · exact (h.2 x hx).succ
    · rw [List.mem_singleton.1 hx]
      exact Nat.lt_succ_self n

theorem InOrder.drop {n : ℕ} {items : List LogItem} (h : InOrder n items) (d : ℕ) :
    InOrder n (items.drop d) :=
  ⟨h.1.sublist (List.drop_sublist d items), fun x hx => h.2 x (List.mem_of_mem_drop hx)⟩

/-- Nothing logged is doubled, out of order or lost. -/
structure Kept (s : CacheSystem) : Prop where
  /-- the restored items come first -/
  buffered : ∃ cs ls, s.getlogbuffer = cs ++ ls ∧ (∀ c ∈ cs, c.isCached = true) ∧
    (∀ l ∈ ls, l.isCached = false) ∧ InOrder s.logged ls
  waiting : InOrder s.logged (pending s.status.messages)
  /-- unless the file is about to be written anew -/
  stored : ∀ file, s.file = some file → .trimLogFile ∉ s.status.messages →
    InOrder s.logged (file ++ pending s.status.messages) ∧
      ∀ j, s.since ≤ j → .logged j ∈ s.getlogbuffer →
        .logged j ∈ file ++ pending s.status.messages

theorem trim_cases {α : Type*} (s : Status α) :
    s.trim = s ∨ (∃ d, s.trim.logbuffer = s.logbuffer.drop d) ∧
      s.trim.messages = s.messages ++ [.trimLogFile] := by
  unfold Status.trim
  split_ifs
  · exact Or.inr ⟨⟨_, removeOldest_eq_drop _⟩, rfl⟩
  · exact Or.inl rfl

/-- Trimming keeps what is known: afterwards the file is about to be written anew. -/
theorem Kept.trim {s : CacheSystem} (h : Kept s) : Kept { s with status := s.status.trim } := by
  rcases trim_cases s.status with hsame | ⟨⟨d, hbuffer⟩, hmessages⟩
  · rw [hsame]
    exact h
  · refine ⟨?_, ?_, fun file _ hnot => absurd ?_ hnot⟩
    · obtain ⟨cs, ls, heq, hcs, hlogged, hls⟩ := h.buffered
      refine ⟨cs.drop d, ls.drop (d - cs.length), ?_, fun c hc => hcs c (List.mem_of_mem_drop hc),
        fun l hl => hlogged l (List.mem_of_mem_drop hl), hls.drop _⟩
      change s.status.trim.logbuffer = _
      rw [hbuffer, ← List.drop_append, ← heq]
      rfl
    · change InOrder _ (pending s.status.trim.messages)
      rw [hmessages, pending_append]
      change InOrder _ (_ ++ [])
      rw [List.append_nil]
      exact h.waiting
    · change _ ∈ s.status.trim.messages
      rw [hmessages]
      simp

theorem Kept.log {s : CacheSystem} (h : Kept s) : Kept s.log := by
  have hadded : Kept { s with status := s.status.add (.logged s.logged) false,
                              logged := s.logged + 1 } := by
    have hpending : pending (s.status.messages ++ [.logMessage (.logged s.logged)]) =
        pending s.status.messages ++ [.logged s.logged] := pending_append _ _
    refine ⟨?_, ?_, fun file hfile hnot => ?_⟩
    · obtain ⟨cs, ls, heq, hcs, hlogged, hls⟩ := h.buffered
      refine ⟨cs, ls ++ [.logged s.logged], ?_, hcs,
        List.forall_mem_append.2 ⟨hlogged, List.forall_mem_singleton.2 rfl⟩, hls.log⟩
      change s.getlogbuffer ++ _ = _
      rw [heq, List.append_assoc]
    · change InOrder _ (pending (_ ++ _))
      rw [hpending]
      exact h.waiting.log
    · obtain ⟨horder, hall⟩ := h.stored file hfile fun hmem => hnot (List.mem_append_left _ hmem)
      change InOrder _ (file ++ pending (_ ++ _)) ∧
        ∀ j, s.since ≤ j → _ ∈ s.getlogbuffer ++ _ → _ ∈ file ++ pending (_ ++ _)
      rw [hpending, ← List.append_assoc]
      refine ⟨horder.log, fun j hj hmem => ?_⟩
      rcases List.mem_append.1 hmem with hmem | hmem
      · exact List.mem_append_left _ (hall j hj hmem)
      · exact List.mem_append_right _ hmem
  exact hadded.trim

theorem Kept.restore {s : CacheSystem} (h : Kept s) (hfile : s.file = none) : Kept s.restore := by
  have hadded : Kept { s with status := s.status.add (.cached s.restored) true,
                              restored := s.restored + 1 } := by
    refine ⟨?_, h.waiting, fun file hsome => absurd (hfile.symm.trans hsome) (by simp)⟩
    obtain ⟨cs, ls, heq, hcs, hlogged, hls⟩ := h.buffered
    refine ⟨.cached s.restored :: cs, ls, ?_, List.forall_mem_cons.2 ⟨rfl, hcs⟩, hlogged, hls⟩
    change _ :: s.getlogbuffer = _
    rw [heq]
    rfl
  exact hadded.trim

theorem Kept.openLogFile {s : CacheSystem} (h : Kept s) : Kept s.openLogFile := by
  refine ⟨h.buffered, h.waiting, fun file hfile _ => ?_⟩
  obtain rfl := Option.some.inj hfile
  refine ⟨h.waiting, fun j hj hmem => ?_⟩
  -- nothing in the buffer was logged later
  obtain ⟨cs, ls, heq, hcs, hlogged, hls⟩ := h.buffered
  have hmem' : .logged j ∈ cs ++ ls := heq ▸ hmem
  rcases List.mem_append.1 hmem' with hmem' | hmem'
  · exact absurd (hcs _ hmem') (by simp [LogItem.isCached])
  · exact absurd (hls.2 _ hmem') (Nat.not_lt.2 hj)

theorem older_of_isCached {c l : LogItem} (hc : c.isCached = true) (hl : l.isCached = false) :
    c.Older l := by
  cases c with
  | cached i =>
    cases l with
    | cached j => cases hl
    | logged j => trivial
  | logged j => cases hc

theorem before_of_isCached {c : LogItem} (hc : c.isCached = true) (n : ℕ) : c.Before n := by
  cases c with
  | cached i => trivial
  | logged j => cases hc

/-- The buffer is in order if it has at most one restored item. -/
theorem Kept.buffer_inOrder {s : CacheSystem} (h : Kept s)
    (hone : s.getlogbuffer.countP LogItem.isCached ≤ 1) : InOrder s.logged s.getlogbuffer := by
  obtain ⟨cs, ls, heq, hcs, hlogged, hls⟩ := h.buffered
  rw [heq, List.countP_append, List.countP_eq_length.2 hcs] at hone
  have hsorted : cs.Pairwise LogItem.Older := by
    match cs, hone with
    | [], _ => exact List.Pairwise.nil
    | [c], _ => exact List.pairwise_singleton _ _
    | _ :: _ :: _, hone =>
      simp only [List.length_cons] at hone
      omega
  rw [heq]
  refine ⟨List.pairwise_append.2 ⟨hsorted, hls.1, fun c hc l hl => ?_⟩,
    List.forall_mem_append.2 ⟨fun c hc => before_of_isCached (hcs c hc) _, hls.2⟩⟩
  exact older_of_isCached (hcs c hc) (hlogged l hl)

theorem writeLogItems_all {fits : LogItem → Bool} (s : CacheSystem) (file : List LogItem)
    {items : List LogItem} (h : items.all fits = true) :
    s.writeLogItems fits file items = { s with file := some (file ++ items) } := by
  have htake : items.takeWhile fits = items := List.takeWhile_eq_self_iff.2 (List.all_eq_true.1 h)
  simp only [CacheSystem.writeLogItems, h, if_true, htake]

theorem Kept.handleMessage {fits : LogItem → Bool} {s : CacheSystem} (h : Kept s)
    (hsound : s.Sound fits .handleMessage) : Kept (s.handleMessage fits) := by
  unfold CacheSystem.handleMessage
  rcases hfile : s.file with _ | file
  · exact h
  rcases hmessages : s.status.messages with _ | ⟨msg, messages⟩
  · exact h
  simp only [CacheSystem.Sound, hfile, hmessages] at hsound
  have hwaiting := h.waiting
  rw [hmessages] at hwaiting
  cases msg with
  | logMessage li =>
    have hfits : [li].all fits = true := by simpa using hsound
    dsimp only
    rw [CacheSystem.process, writeLogItems_all _ _ hfits]
    refine ⟨h.buffered, ⟨hwaiting.1.tail, fun x hx => hwaiting.2 x (List.mem_cons_of_mem li hx)⟩,
      fun file' hfile' hnot => ?_⟩
    obtain rfl := Option.some.inj hfile'
    have hold := h.stored file hfile (by rw [hmessages]; simpa using hnot)
    rw [hmessages] at hold
    rw [List.append_assoc]
    exact hold
  | trimLogFile =>
    obtain ⟨hfits, hlast⟩ := hsound
    dsimp only
    change Kept (CacheSystem.writeLogItems fits _ [] s.getlogbuffer)
    rw [writeLogItems_all _ _ hfits, List.nil_append]
    refine ⟨h.buffered, hwaiting, fun file' hfile' hnot => ?_⟩
    obtain rfl := Option.some.inj hfile'
    obtain ⟨rfl, hone⟩ := hlast.resolve_left hnot
    have hnil : pending ([] : List (Message LogItem)) = [] := rfl
    dsimp only
    rw [hnil, List.append_nil]
    exact ⟨h.buffer_inOrder hone, fun j _ hmem => hmem⟩

/-- **A step.** -/
theorem Kept.step {fits : LogItem → Bool} {s : CacheSystem} {e : CacheEvent} (h : Kept s)
    (hsound : s.Sound fits e) : Kept (s.step fits e) := by
  cases e with
  | restore =>
    rcases hfile : s.file with _ | file
    · simpa [CacheSystem.step, hfile] using h.restore hfile
    · simpa [CacheSystem.step, hfile] using h
  | openLogFile =>
    rcases hfile : s.file with _ | file
    · simpa [CacheSystem.step, hfile] using h.openLogFile
    · simpa [CacheSystem.step, hfile] using h
  | log => exact h.log
  | handleMessage => exact h.handleMessage hsound

theorem inOrder_loggedItems (n : ℕ) : InOrder n (loggedItems n) := by
  induction n with
  | zero => exact ⟨List.Pairwise.nil, by simp [loggedItems]⟩
  | succ n ih =>
    have hsucc : loggedItems (n + 1) = loggedItems n ++ [.logged n] := by
      simp [loggedItems, List.range_succ]
    rw [hsucc]
    exact ih.log

theorem kept_created {s : CacheSystem} (h : s.Created) : Kept s := by
  obtain ⟨⟨d, hbuffer⟩, hmessages, hfile⟩ := h
  refine ⟨⟨[], _, hbuffer, by simp, fun l hl => ?_, (inOrder_loggedItems _).drop d⟩, ?_, ?_⟩
  · have hmem := List.mem_of_mem_drop hl
    obtain ⟨j, -, rfl⟩ := List.mem_map.1 hmem
    rfl
  · rw [hmessages]
    exact ⟨List.Pairwise.nil, by simp [pending]⟩
  · intro file hsome
    exact absurd (hfile.symm.trans hsome) (by simp)

theorem Kept.storedOnce {s : CacheSystem} (h : Kept s) : s.StoredOnce := by
  intro file hfile hmessages
  have hstored := h.stored file hfile (by rw [hmessages]; simp)
  rw [hmessages] at hstored
  change InOrder _ (file ++ []) ∧ _ at hstored
  rw [List.append_nil] at hstored
  refine ⟨hstored.1.1.imp fun {a b} hab => ?_, hstored.1.1, fun j hj hmem => ?_⟩
  · rintro rfl
    cases a with
    | cached i => exact absurd hab (Nat.lt_irrefl i)
    | logged j => exact absurd hab (Nat.lt_irrefl j)
  · simpa [pending] using hstored.2 j hj hmem

/-- **Each item is stored once** in a run in which trims are processed before other items are
logged. -/
theorem storedOnce_of_sound (fits : LogItem → Bool) {s : CacheSystem} (hs : s.Created)
    (es : List CacheEvent) (h : Along (CacheSystem.step fits) (CacheSystem.Sound fits) s es) :
    (run (CacheSystem.step fits) s es).StoredOnce :=
  (run_inv (fun _ _ hk hsound => hk.step hsound) es s (kept_created hs) h).storedOnce

/-- As many items as the buffer holds without a trim. -/
def fullBuffer : CacheSystem :=
  { status := { logbuffer := loggedItems trimThreshold }, logged := trimThreshold }

theorem fullBuffer_created : fullBuffer.Created := by
  refine ⟨⟨0, ?_⟩, rfl, rfl⟩
  simp only [fullBuffer, CacheSystem.getlogbuffer, List.drop_zero]

/-- An item makes the buffer trimmed, and the file is written anew before the next item is logged. -/
theorem storedOnce_trimmed :
    (run (CacheSystem.step fun _ => true) fullBuffer
      [.openLogFile, .log, .handleMessage, .handleMessage, .log, .handleMessage]).StoredOnce :=
  storedOnce_of_sound _ fullBuffer_created _ (by decide +kernel)

/-- Two items are logged before the first of them is written; the first of them makes the buffer
trimmed. -/
def twoLogged : CacheSystem :=
  run (CacheSystem.step fun _ => true) fullBuffer
    [.openLogFile, .log, .log, .handleMessage, .handleMessage, .handleMessage]

/-- The second item is in the file twice. -/
theorem written_twice : fullBuffer.Created ∧ ¬ twoLogged.StoredOnce := by
  refine ⟨fullBuffer_created, fun h => ?_⟩
  have hcount : twoLogged.status.messages = [] ∧
      twoLogged.file.map (List.count (.logged (trimThreshold + 1))) = some 2 := by decide +kernel
  obtain ⟨file, hfile, htwo⟩ := Option.map_eq_some_iff.1 hcount.2
  have hone := List.nodup_iff_count_le_one.1 (h file hfile hcount.1).1 (.logged (trimThreshold + 1))
  omega

end VpnCore.Log
