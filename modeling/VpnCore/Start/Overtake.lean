import VpnCore.Start.Model

/-!
# VpnCore.Start.Overtake — a disconnect and the starts before it

`startOpenVPN` never looks back: once its thread is created, nothing `disconnect()` does keeps it
from opening a management interface and starting a process.  So a disconnect is final exactly as
far as no such thread is still under way when it begins (`Settled`).
-/

namespace VpnCore.Start

open VpnCore.Lib

/-! ## The property, on the log -/

/-- After a `disconnect()` that began after the last start has returned, nothing begins. -/
def NotOvertaken (log : List Obs) : Prop :=
  ∀ pre j mid post, log = pre ++ .disconnectBegins j :: (mid ++ .disconnectReturns j :: post) →
    .start ∉ mid ++ post → ∀ o ∈ post, ¬ o.Begins

/-- A disconnect has begun and no start followed it. -/
def halted (log : List Obs) : Bool :=
  log.foldl (fun b o =>
    match o with
    | .start => false
    | .disconnectBegins _ => true
    | _ => b) false

@[simp] theorem halted_nil : halted [] = false := rfl

@[simp] theorem halted_start (log : List Obs) : halted (log ++ [.start]) = false := by
  simp [halted]

@[simp] theorem halted_disconnectBegins (log : List Obs) (j : ℕ) :
    halted (log ++ [.disconnectBegins j]) = true := by
  simp [halted]

@[simp] theorem halted_disconnectReturns (log : List Obs) (j : ℕ) :
    halted (log ++ [.disconnectReturns j]) = halted log := by
  simp [halted]

theorem halted_begins (log : List Obs) {o : Obs} (ho : o.Begins) :
    halted (log ++ [o]) = halted log := by
  cases o <;> first | exact ho.elim | simp [halted]

theorem halted_of_no_start (pre : List Obs) (j : ℕ) (mid : List Obs) (h : .start ∉ mid) :
    halted (pre ++ .disconnectBegins j :: mid) = true := by
  induction mid using List.reverseRecOn with
  | nil => exact halted_disconnectBegins pre j
  | append_singleton mid o ih =>
    rw [List.mem_append, not_or] at h
    have hmid := ih h.1
    rw [← List.cons_append, ← List.append_assoc]
    cases o with
    | start => simp at h
    | disconnectBegins k => exact halted_disconnectBegins _ k
    | disconnectReturns k => rw [halted_disconnectReturns, hmid]
    | managementBegins t => rw [halted_begins _ (o := .managementBegins t) trivial, hmid]
    | processBegins t => rw [halted_begins _ (o := .processBegins t) trivial, hmid]

/-- Nothing begins where the log is halted. -/
def BeginsUnhalted (log : List Obs) : Prop :=
  ∀ pre o post, log = pre ++ o :: post → o.Begins → halted pre = false

theorem BeginsUnhalted.snoc {log : List Obs} (h : BeginsUnhalted log) {o : Obs}
    (ho : o.Begins → halted log = false) : BeginsUnhalted (log ++ [o]) := by
  intro pre o' post heq ho'
  rcases List.eq_nil_or_concat post with rfl | ⟨post', o'', rfl⟩
  · obtain ⟨rfl, hoo⟩ := List.append_inj' heq rfl
    obtain rfl := List.singleton_inj.mp hoo
    exact ho ho'
  · rw [List.concat_eq_append, ← List.cons_append, ← List.append_assoc] at heq
    exact h pre o' post' (List.append_inj' heq rfl).1 ho'

theorem BeginsUnhalted.notOvertaken {log : List Obs} (h : BeginsUnhalted log) :
    NotOvertaken log := by
  intro pre j mid post heq hstart o ho hb
  obtain ⟨p₁, p₂, rfl⟩ := List.append_of_mem ho
  have hns : .start ∉ mid ++ .disconnectReturns j :: p₁ := by
    intro hmem
    apply hstart
    rcases List.mem_append.mp hmem with hm | hm
    · exact List.mem_append_left _ hm
    · rcases List.mem_cons.mp hm with hm | hm
      · cases hm
      · exact List.mem_append_right _ (List.mem_append_left _ hm)
  have hfalse := h (pre ++ .disconnectBegins j :: (mid ++ .disconnectReturns j :: p₁)) o p₂
    (by rw [heq]; simp) hb
  rw [halted_of_no_start pre j _ hns] at hfalse
  cases hfalse

/-! ## What a step does to the threads and the log -/

/-- No `startOpenVPN` thread is under way. -/
def World.Idle (w : World) : Prop := ∀ pc ∈ w.starts, ¬ pc.Pending

instance (w : World) : Decidable w.Idle := inferInstanceAs (Decidable (∀ pc ∈ w.starts, _))

/-- Threads only move on: one that is under way was so before. -/
def World.Onward (w w' : World) : Prop := w.Idle → w'.Idle

/-- A disconnect begins, if the step begins one, while no thread is under way. -/
def Settled (w : World) : Event → Prop
  | .disconnect => w.Idle
  | .timeoutFires connected => w.timeout = true → connected = false → w.Idle
  | _ => True

instance (w : World) : ∀ e, Decidable (Settled w e)
  | .disconnect => inferInstanceAs (Decidable w.Idle)
  | .timeoutFires _ => by unfold Settled; infer_instance
  | .onStartCommand _ => isTrue trivial
  | .startStep _ _ => isTrue trivial
  | .onRevoke => isTrue trivial
  | .callStep _ => isTrue trivial
  | .processExit _ => isTrue trivial
  | .accept _ => isTrue trivial
  | .endOfStream _ => isTrue trivial
  | .managementEnds _ => isTrue trivial

/-- Everything a step can do to the log; `p` is the condition the step was taken under. -/
inductive Effect (p : Prop) (w w' : World) : Prop
  | silent (hlog : w'.log = w.log) (hon : w.Onward w')
  | start (hlog : w'.log = w.log ++ [.start])
  | disconnectBegins (j : ℕ) (hlog : w'.log = w.log ++ [.disconnectBegins j])
      (hidle : p → w'.Idle)
  | disconnectReturns (j : ℕ) (hlog : w'.log = w.log ++ [.disconnectReturns j])
      (hon : w.Onward w')
  | begins (o : Obs) (ho : o.Begins) (hlog : w'.log = w.log ++ [o]) (hbusy : ¬ w.Idle)

theorem Effect.frame {p : Prop} {w w' : World} (hlog : w'.log = w.log)
    (hs : w'.starts = w.starts) : Effect p w w' :=
  .silent hlog fun h => by rw [World.Idle, hs]; exact h

theorem World.not_idle {w : World} {t : ℕ} {pc : StartPc} (ht : w.starts[t]? = some pc)
    (hp : pc.Pending) : ¬ w.Idle :=
  fun h => h pc (List.mem_of_getElem? ht) hp

section Frames

variable (w : World)

@[simp] theorem endVpnService_log (b : Bool) : (w.endVpnService b).log = w.log := by
  unfold World.endVpnService
  dsimp only
  split_ifs <;> rfl

@[simp] theorem endVpnService_starts (b : Bool) : (w.endVpnService b).starts = w.starts := by
  unfold World.endVpnService
  dsimp only
  split_ifs <;> rfl

@[simp] theorem stopOld_log : w.stopOld.log = w.log := by
  unfold World.stopOld World.setReplaceConnection World.stopVPN
  split_ifs <;> first | rfl | (split <;> rfl)

@[simp] theorem setStart_log (t : ℕ) (pc : StartPc) : (w.setStart t pc).log = w.log := rfl

@[simp] theorem setCall_log (j : ℕ) (pc : CallPc) : (w.setCall j pc).log = w.log := rfl

@[simp] theorem setCall_starts (j : ℕ) (pc : CallPc) : (w.setCall j pc).starts = w.starts := rfl

@[simp] theorem observe_log (o : Obs) : (w.observe o).log = w.log ++ [o] := rfl

@[simp] theorem observe_starts (o : Obs) : (w.observe o).starts = w.starts := rfl

end Frames

/-- `new Thread(mOpenVPNThread).start()` logs the process unless the field was cleared. -/
theorem startProcess_log (w : World) (t : ℕ) :
    (w.startProcess t).log = w.log ∨ (w.startProcess t).log = w.log ++ [.processBegins t] := by
  unfold World.startProcess
  split
  · exact .inl rfl
  · exact .inr rfl

theorem effect_startStep (p : Prop) (w : World) (t : ℕ) (ok : Bool) :
    Effect p w (w.startStep t ok) := by
  cases ht : w.starts[t]? with
  | none =>
    simp only [World.startStep, ht]
    exact .frame rfl rfl
  | some pc =>
    -- a silent step of a thread under way keeps it from being idle already
    have silent : ∀ {w' : World}, w'.log = w.log → pc.Pending → Effect p w w' :=
      fun hlog hp => .silent hlog fun h => absurd h (World.not_idle ht hp)
    cases pc with
    | created =>
      simp only [World.startStep, ht]
      split_ifs <;> exact silent (by simp) (by decide)
    | written => simp only [World.startStep, ht]; exact silent rfl (by decide)
    | starting => simp only [World.startStep, ht]; exact silent (by simp) (by decide)
    | oldStopped => simp only [World.startStep, ht]; exact silent rfl (by decide)
    | forced => simp only [World.startStep, ht]; exact silent rfl (by decide)
    | cleared =>
      simp only [World.startStep, ht]
      split_ifs
      · exact .begins (.managementBegins t) trivial rfl (World.not_idle ht (by decide))
      · exact silent (by simp) (by decide)
    | managed => simp only [World.startStep, ht]; exact silent rfl (by decide)
    | threadMade =>
      simp only [World.startStep, ht]
      rcases startProcess_log w t with h | h
      · exact silent (by simpa using h) (by decide)
      · exact .begins (.processBegins t) trivial (by simpa using h)
          (World.not_idle ht (by decide))
    | processStarted =>
      simp only [World.startStep, ht]
      refine .silent rfl fun hidle pc hpc => ?_
      rcases List.mem_or_eq_of_mem_set hpc with h | rfl
      · exact hidle pc h
      · decide
    | finished => simp only [World.startStep, ht]; exact .frame rfl rfl

theorem effect_callStep (p : Prop) (w : World) (j : ℕ) : Effect p w (w.callStep j) := by
  unfold World.callStep
  split
  · exact .frame rfl rfl
  · rename_i c _
    cases c.pc with
    | begun => exact .frame rfl rfl
    | flagged =>
      dsimp only
      split_ifs <;> exact .frame rfl rfl
    | stopped needEnd =>
      dsimp only
      split_ifs <;> exact .frame (by simp) (by simp)
    | ended =>
      dsimp only
      split_ifs
      · exact .disconnectReturns j rfl id
      · exact .frame rfl rfl
    | returned => exact .frame rfl rfl

theorem effect_processExit (p : Prop) (w : World) (i : ℕ) : Effect p w (w.processExit i) := by
  unfold World.processExit
  split
  · exact .frame rfl rfl
  · dsimp only
    split_ifs <;> exact .frame (by simp) (by simp)

theorem effect_step (w : World) (e : Event) : Effect (Settled w e) w (w.step e) := by
  cases e with
  | onStartCommand profile =>
    simp only [World.step, World.onStartCommand]
    split_ifs
    · exact .start rfl
    · exact .frame rfl rfl
  | startStep t ok => exact effect_startStep _ w t ok
  | disconnect => exact .disconnectBegins w.calls.length rfl id
  | onRevoke => exact .frame rfl rfl
  | callStep j => exact effect_callStep _ w j
  | processExit i => exact effect_processExit _ w i
  | accept m => exact .frame rfl rfl
  | endOfStream m => exact .frame rfl rfl
  | managementEnds m => exact .frame rfl rfl
  | timeoutFires connected =>
    simp only [World.step]
    split_ifs with ht hc
    · exact .frame rfl rfl
    · exact .disconnectBegins w.calls.length rfl fun h => h ht (by simpa using hc)
    · exact .frame rfl rfl

/-! ## Runs -/

/-- The invariant of a run whose disconnects all find the threads settled. -/
structure Inv (w : World) : Prop where
  idle : halted w.log = true → w.Idle
  unhalted : BeginsUnhalted w.log

theorem inv_init : Inv {} := by
  refine ⟨fun h => absurd h (by decide), fun pre o post h => ?_⟩
  simp at h

theorem Inv.step {w : World} {e : Event} (h : Inv w) (he : Settled w e) : Inv (w.step e) := by
  cases effect_step w e with
  | silent hlog hon =>
    refine ⟨fun hh => hon (h.idle ?_), ?_⟩
    · rwa [hlog] at hh
    · rw [hlog]
      exact h.unhalted
  | start hlog =>
    refine ⟨fun hh => ?_, ?_⟩
    · rw [hlog, halted_start] at hh
      cases hh
    · rw [hlog]
      exact h.unhalted.snoc fun ho => ho.elim
  | disconnectBegins j hlog hidle =>
    refine ⟨fun _ => hidle he, ?_⟩
    rw [hlog]
    exact h.unhalted.snoc fun ho => ho.elim
  | disconnectReturns j hlog hon =>
    refine ⟨fun hh => hon (h.idle ?_), ?_⟩
    · rwa [hlog, halted_disconnectReturns] at hh
    · rw [hlog]
      exact h.unhalted.snoc fun ho => ho.elim
  | begins o ho hlog hbusy =>
    have hfalse : halted w.log = false := by
      cases hh : halted w.log with
      | false => rfl
      | true => exact absurd (h.idle hh) hbusy
    refine ⟨fun hh => ?_, ?_⟩
    · rw [hlog, halted_begins _ ho, hfalse] at hh
      cases hh
    · rw [hlog]
      exact h.unhalted.snoc fun _ => hfalse

/-! ## Threads that a disconnect does not stop -/

/-- The thread has still to create the `OpenVPNThread` it runs. -/
def StartPc.BeforeThread (pc : StartPc) : Prop := pc.Pending ∧ pc ≠ .threadMade

instance (pc : StartPc) : Decidable pc.BeforeThread := inferInstanceAs (Decidable (_ ∧ _))

/-- Left alone, the thread `t` begins a management thread or a process. -/
def World.WillBegin (w : World) (t : ℕ) : Prop :=
  ∃ n o, o.Begins ∧
    (run World.step w (List.replicate n (.startStep t true))).log = w.log ++ [o]

/-- Where a successful step takes a thread. -/
def StartPc.next : StartPc → StartPc
  | .created => .written
  | .written => .starting
  | .starting => .oldStopped
  | .oldStopped => .forced
  | .forced => .cleared
  | .cleared => .managed
  | .managed => .threadMade
  | .threadMade => .processStarted
  | .processStarted => .finished
  | .finished => .finished

theorem stopOld_starts (w : World) : w.stopOld.starts = w.starts := by
  unfold World.stopOld World.setReplaceConnection World.stopVPN
  split_ifs <;> first | rfl | (split <;> rfl)

theorem startProcess_starts (w : World) (t : ℕ) : (w.startProcess t).starts = w.starts := by
  unfold World.startProcess
  split <;> rfl

theorem startStep_starts {w : World} {t : ℕ} {pc : StartPc} (ht : w.starts[t]? = some pc) :
    (w.startStep t true).starts = w.starts.set t pc.next := by
  have hself : pc = .finished → w.starts.set t .finished = w.starts := by
    rintro rfl
    obtain ⟨hlt, hget⟩ := List.getElem?_eq_some_iff.mp ht
    exact hget ▸ List.set_getElem_self hlt
  unfold World.startStep
  rw [ht]
  cases pc with
  | starting => simp [World.setStart, stopOld_starts, StartPc.next]
  | threadMade => simp [World.setStart, startProcess_starts, StartPc.next]
  | finished => exact (hself rfl).symm
  | _ => rfl

theorem startStep_get {w : World} {t : ℕ} {pc : StartPc} (ht : w.starts[t]? = some pc) :
    (w.startStep t true).starts[t]? = some pc.next := by
  obtain ⟨hlt, -⟩ := List.getElem?_eq_some_iff.mp ht
  rw [startStep_starts ht]
  exact List.getElem?_set_self hlt

/-- The steps up to `mStarting = false` log nothing. -/
theorem World.WillBegin.of_step {w : World} {t : ℕ} {pc : StartPc} (ht : w.starts[t]? = some pc)
    (hpc : pc.BeforeThread) (hc : pc ≠ .cleared)
    (h : (w.startStep t true).WillBegin t) : w.WillBegin t := by
  have hlog : (w.startStep t true).log = w.log := by
    unfold World.startStep
    rw [ht]
    cases pc with
    | starting => simp
    | cleared => exact absurd rfl hc
    | threadMade => exact absurd rfl hpc.2
    | _ => rfl
  obtain ⟨n, o, ho, hrun⟩ := h
  exact ⟨n + 1, o, ho, by rw [List.replicate_succ, run_cons, ← hlog]; exact hrun⟩

theorem willBegin_cleared {w : World} {t : ℕ} (ht : w.starts[t]? = some .cleared) :
    w.WillBegin t := by
  refine ⟨1, .managementBegins t, trivial, ?_⟩
  change (w.startStep t true).log = _
  simp only [World.startStep, ht]
  rfl

theorem willBegin_threadMade {w : World} {t p : ℕ} (ht : w.starts[t]? = some .threadMade)
    (hp : w.mOpenVPNThread = some p) : w.WillBegin t := by
  refine ⟨1, .processBegins t, trivial, ?_⟩
  change (w.startStep t true).log = _
  simp only [World.startStep, ht, World.startProcess, hp]
  rfl

/-- Up to the creation of its `OpenVPNThread` nothing stops a thread, whatever state a disconnect
left behind. -/
theorem willBegin_of_beforeThread {w : World} {t : ℕ} {pc : StartPc}
    (ht : w.starts[t]? = some pc) (hpc : pc.BeforeThread) : w.WillBegin t := by
  have forced : ∀ {w : World}, w.starts[t]? = some .forced → w.WillBegin t := fun h =>
    .of_step h (by decide) (by decide) (willBegin_cleared (startStep_get h))
  have oldStopped : ∀ {w : World}, w.starts[t]? = some .oldStopped → w.WillBegin t := fun h =>
    .of_step h (by decide) (by decide) (forced (startStep_get h))
  have starting : ∀ {w : World}, w.starts[t]? = some .starting → w.WillBegin t := fun h =>
    .of_step h (by decide) (by decide) (oldStopped (startStep_get h))
  have written : ∀ {w : World}, w.starts[t]? = some .written → w.WillBegin t := fun h =>
    .of_step h (by decide) (by decide) (starting (startStep_get h))
  cases pc with
  | created => exact .of_step ht hpc (by decide) (written (startStep_get ht))
  | written => exact written ht
  | starting => exact starting ht
  | oldStopped => exact oldStopped ht
  | forced => exact forced ht
  | cleared => exact willBegin_cleared ht
  | managed =>
    refine .of_step ht hpc (by decide)
      (willBegin_threadMade (p := w.processes.length) (startStep_get ht) ?_)
    simp only [World.startStep, ht]
    rfl
  | threadMade => exact absurd rfl hpc.2
  | processStarted => exact absurd rfl hpc.1.1
  | finished => exact absurd rfl hpc.1.2

/-- From `w` to `w'` the call `j` of `disconnect()` moved to `pc`; threads and log are as before. -/
structure CallMoved (w w' : World) (j : ℕ) (pc : CallPc) : Prop where
  call : w'.calls[j]? = some ⟨true, pc⟩
  starts : w'.starts = w.starts
  log : w'.log = w.log

@[simp] theorem endVpnService_calls (w : World) (b : Bool) :
    (w.endVpnService b).calls = w.calls := by
  unfold World.endVpnService
  dsimp only
  split_ifs <;> rfl

theorem setCall_get {w : World} {j : ℕ} {pc : CallPc} (hj : w.calls[j]? = some ⟨true, pc⟩)
    (pc' : CallPc) : (w.setCall j pc').calls[j]? = some ⟨true, pc'⟩ := by
  simp [World.setCall, hj]

theorem callMoved_begun {w : World} {j : ℕ} (hj : w.calls[j]? = some ⟨true, .begun⟩) :
    CallMoved w (w.callStep j) j .flagged := by
  simp only [World.callStep, hj]
  exact ⟨setCall_get hj _, rfl, rfl⟩

theorem callMoved_flagged {w : World} {j : ℕ} (hj : w.calls[j]? = some ⟨true, .flagged⟩) :
    ∃ needEnd, CallMoved w (w.callStep j) j (.stopped needEnd) := by
  simp only [World.callStep, hj]
  split_ifs
  · exact ⟨_, setCall_get hj _, rfl, rfl⟩
  · exact ⟨_, setCall_get hj _, rfl, rfl⟩

theorem callMoved_stopped {w : World} {j : ℕ} {needEnd : Bool}
    (hj : w.calls[j]? = some ⟨true, .stopped needEnd⟩) :
    CallMoved w (w.callStep j) j .ended := by
  simp only [World.callStep, hj]
  split_ifs
  · exact ⟨setCall_get (by simpa using hj) _, by simp, by simp⟩
  · exact ⟨setCall_get hj _, rfl, rfl⟩

/-- A call of `disconnect()` that nothing interrupts returns after four steps. -/
theorem disconnect_returns (w : World) :
    let w' := run World.step w.disconnect (List.replicate 4 (.callStep w.calls.length))
    w'.starts = w.starts ∧
      w'.log = w.log ++ [.disconnectBegins w.calls.length, .disconnectReturns w.calls.length] := by
  have h0 : w.disconnect.calls[w.calls.length]? = some ⟨true, .begun⟩ := by
    simp [World.disconnect, World.observe]
  obtain h1 := callMoved_begun h0
  obtain ⟨needEnd, h2⟩ := callMoved_flagged h1.call
  obtain h3 := callMoved_stopped h2.call
  have hlog : _ = w.log ++ [.disconnectBegins w.calls.length] :=
    h3.log.trans (h2.log.trans h1.log)
  have hstarts := h3.starts.trans (h2.starts.trans h1.starts)
  intro w'
  have hw' : w' = (((w.disconnect.callStep w.calls.length).callStep w.calls.length).callStep
      w.calls.length).callStep w.calls.length := rfl
  rw [hw', World.callStep, h3.call]
  refine ⟨hstarts, ?_⟩
  change _ ++ [Obs.disconnectReturns w.calls.length] = _
  rw [setCall_log, hlog, List.append_assoc, List.singleton_append]

theorem overtaken_of_beforeThread {w : World} {t : ℕ} {pc : StartPc}
    (ht : w.starts[t]? = some pc) (hpc : pc.BeforeThread) :
    ∃ es, (∀ profile, .onStartCommand profile ∉ es) ∧
      ¬ NotOvertaken (run World.step w (.disconnect :: es)).log := by
  obtain ⟨hstarts, hlog⟩ := disconnect_returns w
  have ht' := hstarts.symm ▸ ht
  obtain ⟨n, o, ho, hrun⟩ := willBegin_of_beforeThread ht' hpc
  refine ⟨List.replicate 4 (.callStep w.calls.length) ++ List.replicate n (.startStep t true), ?_, ?_⟩
  · intro profile hmem
    rcases List.mem_append.mp hmem with h | h <;> cases List.eq_of_mem_replicate h
  · intro hnot
    rw [run_cons, run_append, show w.step .disconnect = w.disconnect from rfl, hrun, hlog] at hnot
    refine hnot w.log w.calls.length [] [o] ?_ ?_ o (List.mem_singleton_self o) ho
    · simp
    · intro hmem
      rw [List.nil_append, List.mem_singleton] at hmem
      subst hmem
      exact ho

/-- **A disconnect that finds the threads settled is final**: in every run whose disconnects begin
while no `startOpenVPN` thread is under way, none of them is overtaken.  And a disconnect that
begins after any run while a thread has still to create its `OpenVPNThread` can be overtaken. -/
theorem not_overtaken_of_settled (es : List Event) :
    (Along World.step Settled {} es → NotOvertaken (run World.step {} es).log) ∧
    (∀ (t : ℕ) (pc : StartPc), (run World.step {} es).starts[t]? = some pc → pc.BeforeThread →
      ∃ fs, (∀ profile, .onStartCommand profile ∉ fs) ∧
        ¬ NotOvertaken (run World.step {} (es ++ .disconnect :: fs)).log) := by
  constructor
  · intro h
    exact (run_inv (fun _ _ hI hP => Inv.step hI hP) es {} inv_init h).unhalted.notOvertaken
  · intro t pc ht hpc
    obtain ⟨fs, hfs, hnot⟩ := overtaken_of_beforeThread ht hpc
    exact ⟨fs, hfs, by rwa [run_append]⟩

/-- A start that runs to its end, then a disconnect, an exit of the process and the late firing of
every timer. -/
def settledRun : List Event :=
  .onStartCommand true :: List.replicate 10 (.startStep 0 true) ++
    [.accept 0, .disconnect, .callStep 0, .callStep 0, .callStep 0, .callStep 0, .processExit 0,
      .timeoutFires false]

theorem not_overtaken_settledRun :
    Along World.step Settled {} settledRun ∧
      NotOvertaken (run World.step {} settledRun).log :=
  have h : Along World.step Settled {} settledRun := by decide
  ⟨h, (not_overtaken_of_settled settledRun).1 h⟩

/-- A disconnect just after the start command returns before the thread has done anything; the
thread then opens its management interface and starts the process. -/
theorem overtaken_just_after_start :
    ¬ ∀ es, NotOvertaken (run World.step {} es).log := by
  intro h
  have hrun := h (.onStartCommand true :: .disconnect :: (List.replicate 4 (.callStep 0) ++
    List.replicate 8 (.startStep 0 true)))
  refine hrun [.start] 0 [] [.managementBegins 0, .processBegins 0] (by decide) (by decide)
    (.processBegins 0) (by decide) trivial

end VpnCore.Start
