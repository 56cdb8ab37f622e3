import VpnCore.Ikev2.Model

/-!
# VpnCore.Ikev2.Requests — the worker and its one request slot

A request is one slot (`mNextProfile`) and one flag (`mProfileUpdated`).  Both are written only
under the monitor, so what the worker handles is always the last request made before it cleared the
flag.  The worker returns for good on a request without a profile, though, while the service object
stays in use: a start command that comes after that stays in the slot.

`onDestroy` asks the worker to return unless `mState` is `DISABLED`.  A failed `initializeCharon`
also sets that state, and there the worker goes on waiting.
-/

namespace VpnCore.Ikev2

open VpnCore.Lib

variable {V : Type} {s s' : Service V} {e : Event V}

/-- The worker has cleared the flag and not yet looked at the slot for its decision. -/
def Worker.handling : Worker → Bool
  | .resetting | .stopping | .marking | .deinitializing | .deciding => true
  | _ => false

/-- How the flag, the slot and the worker's place hang together. -/
structure Coherent (s : Service V) : Prop where
  pending : s.mProfileUpdated = true → s.lastRequest = some s.mNextProfile
  handling : s.worker.handling = true →
    s.mProfileUpdated = false ∧ s.lastRequest = some s.mNextProfile ∧ s.cleared = s.lastRequest
  initializing : s.worker = .initializing →
    s.mProfileUpdated = false ∧ s.lastRequest = some s.mCurrentProfile ∧
      s.cleared = s.lastRequest ∧ s.mCurrentProfile ≠ none
  waiting : s.worker = .waiting → s.mProfileUpdated = false → s.lastRequest ≠ some none
  served : ∀ x ∈ s.served, x.2 = some x.1

theorem coherent_created : Coherent (created : Service V) where
  pending := by simp [created]
  handling := by simp [created, Worker.handling]
  initializing := by simp [created]
  waiting := by simp [created]
  served := by simp [created]

theorem Worker.free_iff {w : Worker} : w.free = true ↔ w = .waiting ∨ w = .returned := by
  cases w <;> simp [Worker.free]

theorem Coherent.setNextProfile (hi : Coherent s) (hfree : s.worker.free = true) (p : Option V) :
    Coherent (setNextProfile s p) := by
  have hw := Worker.free_iff.1 hfree
  refine ⟨fun _ => rfl, ?_, ?_, fun _ h => ?_, hi.served⟩
  · intro h
    rcases hw with hw | hw <;> simp [Ikev2.setNextProfile, hw, Worker.handling] at h
  · intro h
    rcases hw with hw | hw <;> simp [Ikev2.setNextProfile, hw] at h
  · simp [Ikev2.setNextProfile] at h

/-- A step of the worker inside `stopCurrentConnection` leaves the request alone. -/
theorem Coherent.stay (hi : Coherent s) (hw : s.worker.handling = true)
    (hw' : s'.worker.handling = true) (hu : s'.mProfileUpdated = s.mProfileUpdated)
    (hn : s'.mNextProfile = s.mNextProfile) (hl : s'.lastRequest = s.lastRequest)
    (hc : s'.cleared = s.cleared) (hs : s'.served = s.served) : Coherent s' := by
  obtain ⟨h1, h2, h3⟩ := hi.handling hw
  refine ⟨?_, fun _ => ?_, ?_, ?_, ?_⟩
  · rw [hu, h1]
    simp
  · rw [hu, hl, hn, hc]
    exact ⟨h1, h2, h3⟩
  · intro h
    simp [h, Worker.handling] at hw'
  · intro h
    simp [h, Worker.handling] at hw'
  · rw [hs]
    exact hi.served

/-- The end of `initializeCharon` ends the request of the profile in use. -/
theorem Coherent.end (hi : Coherent s) (hw : s.worker = .initializing) (hw' : s'.worker = .waiting)
    (hu : s'.mProfileUpdated = s.mProfileUpdated) (hl : s'.lastRequest = s.lastRequest)
    (hs : s'.served = s.served ++ [(s.mCurrentProfile, s.cleared)]) : Coherent s' := by
  obtain ⟨h1, h2, h3, h4⟩ := hi.initializing hw
  refine ⟨?_, ?_, ?_, fun _ _ => ?_, ?_⟩
  · rw [hu, h1]
    simp
  · intro h
    simp [hw', Worker.handling] at h
  · intro h
    simp [hw'] at h
  · rw [hl, h2]
    simpa using h4
  · rw [hs]
    intro x hx
    rcases List.mem_append.1 hx with hx | hx
    · exact hi.served x hx
    · rw [List.mem_singleton.1 hx]
      exact h3.trans h2

theorem Coherent.move (hi : Coherent s) (hm : Move s e s') : Coherent s' := by
  cases hm with
  | startCommand hmain hfree => exact hi.setNextProfile hfree _
  | onRevoke hfree => exact hi.setNextProfile hfree _
  | wake hmain hfree =>
    have h := hi.setNextProfile hfree none
    exact ⟨h.pending, h.handling, h.initializing, h.waiting, h.served⟩
  | take hw hu =>
    refine ⟨fun h => by simp at h, fun _ => ⟨rfl, hi.pending hu, rfl⟩, fun h => by simp at h,
      fun h => by simp at h, hi.served⟩
  | reset hw hnext =>
    refine hi.stay (by simp [hw, Worker.handling]) ?_ rfl rfl rfl rfl rfl
    rcases hnext with ⟨rfl, -⟩ | rfl <;> rfl
  | stop hw => exact hi.stay (by simp [hw, Worker.handling]) rfl rfl rfl rfl rfl rfl
  | mark hw => exact hi.stay (by simp [hw, Worker.handling]) rfl rfl rfl rfl rfl rfl
  | charonStops hw hn => exact hi.stay (by simp [hw, Worker.handling]) rfl rfl rfl rfl rfl rfl
  | disconnect hw hn => exact hi.stay (by simp [hw, Worker.handling]) rfl rfl rfl rfl rfl rfl
  | finish hw hn =>
    obtain ⟨h1, h2, h3⟩ := hi.handling (by simp [hw, Worker.handling])
    refine ⟨hi.pending, fun h => by simp [Worker.handling] at h, fun h => by simp at h,
      fun h => by simp at h, fun x hx => ?_⟩
    rcases List.mem_append.1 hx with hx | hx
    · exact hi.served x hx
    · rw [List.mem_singleton.1 hx]
      exact h3.trans (h2.trans (by rw [hn]))
  | attempt hw hn =>
    obtain ⟨h1, h2, h3⟩ := hi.handling (by simp [hw, Worker.handling])
    refine ⟨fun h => ?_, fun h => by simp [Worker.handling] at h, fun _ => ?_,
      fun h => by simp at h, hi.served⟩
    · exact absurd (h1.symm.trans h) (by simp)
    · exact ⟨h1, h2.trans (by rw [hn]), h3, by simp⟩
  | failed hw => exact hi.end hw rfl rfl rfl rfl
  | missing hw => exact hi.end hw rfl rfl rfl rfl
  | initiated hw => exact hi.end hw rfl rfl rfl rfl
  | _ => exact ⟨hi.pending, hi.handling, hi.initializing, hi.waiting, hi.served⟩

theorem Coherent.step (hi : Coherent s) (e : Event V) : Coherent (step s e) := by
  rcases step_move s e with h | h
  · rw [h]
    exact hi
  · exact hi.move h

/-! ## Lost requests -/

/-- A pending request with a profile still has its worker. -/
def NoneLost (s : Service V) : Prop :=
  s.mProfileUpdated = true → s.mNextProfile ≠ none → s.worker ≠ .returned

/-- Every request the worker has handled was the last one made before it cleared the flag. -/
def ServedLast (s : Service V) : Prop := ∀ x ∈ s.served, x.2 = some x.1

/-- A start command with a profile finds the worker alive. -/
def StartsAlive (s : Service V) : Event V → Prop
  | .startCommand (some _) => s.main = .idle → s.worker ≠ .returned
  | _ => True

theorem NoneLost.move (hl : NoneLost s) (hm : Move s e s')
    (he : StartsAlive s e) : NoneLost s' := by
  cases hm with
  | @startCommand profile hmain hfree =>
    cases profile with
    | none => exact fun _ h => absurd rfl h
    | some p => exact fun _ _ => he hmain
  | onRevoke hfree => exact fun _ h => absurd rfl h
  | wake hmain hfree => exact fun _ h => absurd rfl h
  | take hw hu => exact fun h => by simp at h
  | reset hw hnext => rcases hnext with ⟨rfl, -⟩ | rfl <;> exact fun _ _ => by simp
  | stop hw => exact fun _ _ => by simp
  | mark hw => exact fun _ _ => by simp
  | charonStops hw hn => exact fun _ _ => by simp
  | disconnect hw hn => exact fun _ _ => by simp [post]
  | finish hw hn => exact fun _ h => absurd hn h
  | attempt hw hn => exact fun _ _ => by simp
  | failed hw => exact fun _ _ => by simp
  | missing hw => exact fun _ _ => by simp
  | initiated hw => exact fun _ _ => by simp
  | _ => exact hl

/-- **Every run.**  No request with a profile is left without a worker, and every handled request is
the last one made before the flag was cleared, exactly if no start command with a profile comes after
the worker has returned. -/
theorem noneLost_iff_startsAlive (es : List (Event V)) :
    Throughout step (fun _ s => NoneLost s ∧ ServedLast s) created es ↔
      Along step StartsAlive created es := by
  refine throughout_iff_along (I := fun s => Coherent s ∧ NoneLost s)
    (fun s h => ⟨h.2, h.1.served⟩) ?_ ?_ es created ⟨coherent_created, fun h => by simp [created] at h⟩
  · rintro s e ⟨hi, hl⟩ he
    refine ⟨hi.step e, ?_⟩
    rcases step_move s e with h | h
    · rw [h]
      exact hl
    · exact hl.move h he
  · rintro s e ⟨hi, hl⟩ ⟨hl', -⟩
    cases e with
    | startCommand profile =>
      cases profile with
      | none => trivial
      | some p =>
        intro hmain hw
        have hfree : s.worker.free = true := Worker.free_iff.2 (.inr hw)
        rw [step, if_pos ⟨hmain, hfree⟩] at hl'
        exact hl' rfl (by simp [setNextProfile]) hw
    | _ => trivial

/-- The user connects and disconnects, the worker returns, and the next start command of the same
service object is never handled. -/
theorem start_after_disconnect_lost :
    ¬ NoneLost (run step (created : Service Unit)
      [.startCommand (some ()), .worker .initiated, .worker .initiated, .worker .initiated,
       .worker .initiated, .startCommand none, .worker .initiated, .worker .initiated,
       .worker .initiated, .worker .initiated, .worker .initiated, .worker .initiated,
       .startCommand (some ())]) := by
  unfold NoneLost
  decide

/-! ## `onDestroy` -/

/-- A request without a profile is pending or being handled. -/
def NullInFlight (s : Service V) : Prop :=
  s.mNextProfile = none ∧ (s.mProfileUpdated = true ∨ s.worker.handling = true)

/-- In `join`, the worker has returned or is on its way to return. -/
def Joinable (s : Service V) : Prop :=
  s.main = .joining →
    (s.worker = .returned ∨ NullInFlight s) ∧ ¬ (s.worker = .waiting ∧ s.mProfileUpdated = false)

/-- Where the state is or becomes `DISABLED`, the worker has returned or charon has failed to start. -/
def DisabledSince (s : Service V) : Prop :=
  s.mState = some .disabled ∨ .setState .disabled ∈ s.mHandler →
    s.initFailed = true ∨ s.worker = .returned

/-- In `join`, the worker has returned or the last request had no profile. -/
def JoinAsked (s : Service V) : Prop :=
  s.main = .joining → s.worker = .returned ∨ s.lastRequest = some none

/-- `onDestroy` does not find `DISABLED` after a failed `initializeCharon`, unless the last request
was to disconnect. -/
def DestroysSafely (s : Service V) : Event V → Prop
  | .onDestroy => s.mState = some .disabled → s.initFailed = true → s.lastRequest = some none
  | _ => True

instance [DecidableEq V] (s : Service V) : DecidablePred (DestroysSafely s)
  | .onDestroy => inferInstanceAs (Decidable (_ → _ → _))
  | .startCommand _ | .onRevoke | .callback | .wake | .joined | .worker _
  | .updateStatus _ | .timeout | .timeoutRun => inferInstanceAs (Decidable True)

theorem Joinable.of_joinAsked (hi : Coherent s) (h : JoinAsked s) : Joinable s := by
  intro hmain
  rcases h hmain with hw | hl
  · exact ⟨.inl hw, by simp [hw]⟩
  by_cases hu : s.mProfileUpdated = true
  · have hn := hi.pending hu
    rw [hl] at hn
    exact ⟨.inr ⟨(Option.some_injective _ hn).symm, .inl hu⟩, by simp [hu]⟩
  have hu' : s.mProfileUpdated = false := by simpa using hu
  have hhandling : s.worker.handling = true → Joinable s := by
    intro hh _
    have hn := (hi.handling hh).2.1
    rw [hl] at hn
    refine ⟨.inr ⟨(Option.some_injective _ hn).symm, .inr hh⟩, fun h => ?_⟩
    simp [h.1, Worker.handling] at hh
  cases hw : s.worker with
  | waiting => exact absurd hl (hi.waiting hw hu')
  | initializing =>
    obtain ⟨-, h2, -, h4⟩ := hi.initializing hw
    rw [hl] at h2
    exact absurd (Option.some_injective _ h2).symm h4
  | returned => exact ⟨.inl rfl, by simp⟩
  | _ => exact hw ▸ hhandling (by simp [hw, Worker.handling]) hmain

theorem DisabledSince.of_pop {c : Change} {rest : List Change} (hd : DisabledSince s)
    (hq : s.mHandler = c :: rest) (hr : s'.mHandler = rest)
    (hst : s'.mState = some .disabled → s.mState = some .disabled ∨ c = .setState .disabled)
    (hf : s'.initFailed = s.initFailed) (hw : s'.worker = s.worker) : DisabledSince s' := by
  intro h
  rw [hf, hw]
  apply hd
  rw [hq]
  rcases h with h | h
  · rcases hst h with h | rfl
    · exact .inl h
    · exact .inr List.mem_cons_self
  · exact .inr (List.mem_cons_of_mem _ (hr ▸ h))

theorem DisabledSince.of_post {c : Change} (hd : DisabledSince s) (hc : c ≠ .setState .disabled)
    (hr : s'.mHandler = s.mHandler ++ [c]) (hst : s'.mState = s.mState)
    (hf : s'.initFailed = s.initFailed) (hw : s.worker = .returned → s'.worker = .returned) :
    DisabledSince s' := by
  intro h
  rw [hf]
  refine (hd ?_).imp_right hw
  rw [hst, hr] at h
  rcases h with h | h
  · exact .inl h
  · rcases List.mem_append.1 h with h | h
    · exact .inr h
    · exact absurd (List.mem_singleton.1 h).symm hc

/-- A step of a worker that has not returned and posts nothing. -/
theorem DisabledSince.of_quiet (hd : DisabledSince s) (hw : s.worker ≠ .returned)
    (hr : s'.mHandler = s.mHandler) (hst : s'.mState = s.mState)
    (hf : s'.initFailed = s.initFailed) : DisabledSince s' := by
  intro h
  rw [hst, hr] at h
  rw [hf]
  exact .inl ((hd h).resolve_right hw)

theorem DisabledSince.move (hd : DisabledSince s) (hm : Move s e s') : DisabledSince s' := by
  cases hm with
  | settle hq hs =>
    refine hd.of_pop hq rfl (fun h => .inr ?_) rfl rfl
    rw [Option.some_injective _ h]
  | pass hq hs =>
    refine hd.of_pop hq rfl (fun h => .inr ?_) rfl rfl
    rw [Option.some_injective _ h]
  | settleError hq hs => exact hd.of_pop hq rfl .inl rfl rfl
  | passError hq hs => exact hd.of_pop hq rfl .inl rfl rfl
  | start hmain hq => exact hd.of_pop hq rfl (fun h => by simp at h) rfl rfl
  | startLate hmain hq => exact hd.of_pop hq rfl (fun h => by simp at h) rfl rfl
  | removeNotification hq => exact hd.of_pop hq rfl .inl rfl rfl
  | take hw hu => exact hd.of_quiet (by simp [hw]) rfl rfl rfl
  | reset hw hnext => exact hd.of_quiet (by simp [hw]) rfl rfl rfl
  | stop hw => exact hd.of_post (by simp) rfl rfl rfl (by simp [hw])
  | mark hw => exact hd.of_quiet (by simp [hw]) rfl rfl rfl
  | charonStops hw hn => exact hd.of_quiet (by simp [hw]) rfl rfl rfl
  | disconnect hw hn => exact hd.of_post (by simp) rfl rfl rfl (by simp [hw])
  | finish hw hn => exact fun _ => .inr rfl
  | attempt hw hn => exact hd.of_post (by simp) rfl rfl rfl (by simp [hw])
  | failed hw => exact fun _ => .inl rfl
  | missing hw => exact hd.of_post (by simp) rfl rfl rfl (by simp [hw])
  | initiated hw => exact hd.of_quiet (by simp [hw]) rfl rfl rfl
  | error hcharon => exact hd.of_post (by simp) rfl rfl rfl id
  | up hcharon => exact hd.of_post (by simp) rfl rfl rfl id
  | down hcharon => exact hd.of_post (by simp) rfl rfl rfl id
  | _ => exact hd

/-- A step of a worker that has not returned. -/
theorem JoinAsked.of_alive (hj : JoinAsked s) (hw : s.worker ≠ .returned) (hmain : s'.main = s.main)
    (hl : s'.lastRequest = s.lastRequest) : JoinAsked s' := by
  intro h
  rw [hmain] at h
  rw [hl]
  exact .inr ((hj h).resolve_left hw)

theorem JoinAsked.move (hd : DisabledSince s) (hj : JoinAsked s) (hm : Move s e s')
    (he : DestroysSafely s e) : JoinAsked s' := by
  cases hm with
  | startCommand hmain hfree => exact fun h => absurd (hmain.symm.trans h) (by simp)
  | onRevoke hfree => exact fun _ => .inr rfl
  | destroyWaking hmain hs => exact fun h => by simp at h
  | destroyJoining hmain hs =>
    intro _
    rcases hd (.inl hs) with hf | hw
    · exact .inr (he hs hf)
    · exact .inl hw
  | wake hmain hfree => exact fun _ => .inr rfl
  | joined hmain hw => exact fun h => by simp at h
  | finish hw hn => exact fun _ => .inl rfl
  | take hw hu => exact hj.of_alive (by simp [hw]) rfl rfl
  | reset hw hnext => exact hj.of_alive (by simp [hw]) rfl rfl
  | stop hw => exact hj.of_alive (by simp [hw]) rfl rfl
  | mark hw => exact hj.of_alive (by simp [hw]) rfl rfl
  | charonStops hw hn => exact hj.of_alive (by simp [hw]) rfl rfl
  | disconnect hw hn => exact hj.of_alive (by simp [hw]) rfl rfl
  | attempt hw hn => exact hj.of_alive (by simp [hw]) rfl rfl
  | failed hw => exact hj.of_alive (by simp [hw]) rfl rfl
  | missing hw => exact hj.of_alive (by simp [hw]) rfl rfl
  | initiated hw => exact hj.of_alive (by simp [hw]) rfl rfl
  | _ => exact hj

/-- What a run keeps in which `onDestroy` comes only where it is safe. -/
def Destroyable (s : Service V) : Prop := Coherent s ∧ DisabledSince s ∧ JoinAsked s

theorem destroyable_created : Destroyable (created : Service V) :=
  ⟨coherent_created, fun h => by simp [created] at h, fun h => by simp [created] at h⟩

theorem Destroyable.step (h : Destroyable s) (e : Event V) (he : DestroysSafely s e) :
    Destroyable (step s e) := by
  obtain ⟨hi, hd, hj⟩ := h
  rcases step_move s e with hs | hm
  · rw [hs]
    exact ⟨hi, hd, hj⟩
  · exact ⟨hi.move hm, hd.move hm, hj.move hd hm he⟩

/-- **Every run.**  As long as `onDestroy` does not find `DISABLED` after a failed `initializeCharon`
(unless the last request was to disconnect), it never joins a worker that waits for a request. -/
theorem joinable_of_destroysSafely (es : List (Event V))
    (h : Along step DestroysSafely created es) :
    Throughout step (fun _ s => Joinable s) created es := by
  have hall : Throughout step (fun _ s => Destroyable s) (created : Service V) es :=
    throughout_of_step destroyable_created (fun _ s e hs he => hs.step e he) es h
  intro past hpast
  obtain ⟨hi, -, hj⟩ := hall past hpast
  exact .of_joinAsked hi hj

/-- The user connects, and the service is destroyed with the connection up. -/
theorem joinable_after_connection :
    Throughout step (fun _ s => Joinable s) (created : Service Unit)
      [.startCommand (some ()), .worker .initiated, .worker .initiated, .worker .initiated,
       .worker .initiated, .callback, .updateStatus .childSaUp, .callback, .onDestroy, .wake] :=
  joinable_of_destroysSafely _ (by decide +kernel)

/-- Charon fails to start; once `DISABLED` has been applied, `onDestroy` joins a worker that nobody
wakes. -/
theorem destroy_after_failed_start_blocks :
    ¬ Joinable (run step (created : Service Unit)
      [.startCommand (some ()), .worker .failed, .worker .failed, .worker .failed,
       .worker .failed, .callback, .callback, .callback, .onDestroy]) := by
  unfold Joinable NullInFlight
  decide

end VpnCore.Ikev2
