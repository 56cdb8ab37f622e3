import Mathlib.Data.List.Basic
import Mathlib.Tactic

/-!
# VpnCore.Lib.Runs — runs of an event-driven machine

A machine is a step function `step : σ → ε → σ`; a run folds it over a list of events.  The rules
below are the ones the protocol modules use: the invariant rule under a side condition on every
step (`run_inv`), and the monitor rule (`run_log_iff`) for a machine that keeps a log which every
step extends.
-/

namespace VpnCore.Lib

variable {σ ε α : Type*}

/-- The state reached from `s` by the events `es`, in order. -/
def run (step : σ → ε → σ) (s : σ) (es : List ε) : σ := es.foldl step s

@[simp] theorem run_nil (step : σ → ε → σ) (s : σ) : run step s [] = s := rfl

@[simp] theorem run_cons (step : σ → ε → σ) (s : σ) (e : ε) (es : List ε) :
    run step s (e :: es) = run step (step s e) es := rfl

theorem run_append (step : σ → ε → σ) (s : σ) (es fs : List ε) :
    run step s (es ++ fs) = run step (run step s es) fs := by
  simp [run, List.foldl_append]

/-- Every step of the run of `es` from `s` meets `P` (a condition on the state before the step and
the event). -/
def Along (step : σ → ε → σ) (P : σ → ε → Prop) : σ → List ε → Prop
  | _, [] => True
  | s, e :: es => P s e ∧ Along step P (step s e) es

instance Along.decidable (step : σ → ε → σ) (P : σ → ε → Prop) [∀ s e, Decidable (P s e)] :
    ∀ s es, Decidable (Along step P s es)
  | _, [] => isTrue trivial
  | s, e :: es =>
    have := Along.decidable step P (step s e) es
    inferInstanceAs (Decidable (P s e ∧ Along step P (step s e) es))

theorem Along.mono {step : σ → ε → σ} {P Q : σ → ε → Prop} (hPQ : ∀ s e, P s e → Q s e) :
    ∀ {es : List ε} {s : σ}, Along step P s es → Along step Q s es
  | [], _, _ => trivial
  | _ :: _, _, ⟨hP, hrest⟩ => ⟨hPQ _ _ hP, Along.mono hPQ hrest⟩

theorem along_of_forall {step : σ → ε → σ} {P : σ → ε → Prop} (h : ∀ s e, P s e) :
    ∀ (es : List ε) (s : σ), Along step P s es
  | [], _ => trivial
  | e :: es, s => ⟨h s e, along_of_forall h es (step s e)⟩

theorem along_append {step : σ → ε → σ} {P : σ → ε → Prop} : ∀ {es fs : List ε} {s : σ},
    Along step P s (es ++ fs) ↔ Along step P s es ∧ Along step P (run step s es) fs
  | [], _, _ => (and_iff_right trivial).symm
  | _ :: _, _, _ => (and_congr_right' along_append).trans and_assoc.symm

/-- A condition on the events alone joins one on the steps. -/
theorem Along.and_mem {step : σ → ε → σ} {P : σ → ε → Prop} {Q : ε → Prop} :
    ∀ {es : List ε} {s : σ}, Along step P s es → (∀ e ∈ es, Q e) →
      Along step (fun s e => P s e ∧ Q e) s es
  | [], _, _, _ => trivial
  | e :: _, _, ⟨hP, hrest⟩, hQ =>
    ⟨⟨hP, hQ e List.mem_cons_self⟩, hrest.and_mem fun x hx => hQ x (List.mem_cons_of_mem e hx)⟩

/-- **Invariant rule.** -/
theorem run_inv {step : σ → ε → σ} {P : σ → ε → Prop} {I : σ → Prop}
    (hstep : ∀ s e, I s → P s e → I (step s e)) :
    ∀ (es : List ε) (s : σ), I s → Along step P s es → I (run step s es)
  | [], _, hI, _ => hI
  | e :: es, s, hI, ⟨hP, hrest⟩ => run_inv hstep es (step s e) (hstep s e hI hP) hrest

/-- **Termination rule.**  A measure that decreases in every step until the machine has ended bounds the
number of steps. -/
theorem run_ends {step : σ → ε → σ} {P : σ → ε → Prop} {I E : σ → Prop} {μ : σ → ℕ}
    (hstep : ∀ s e, I s → P s e → I (step s e))
    (hless : ∀ s e, I s → P s e → E s ∨ μ (step s e) < μ s)
    (hzero : ∀ s, I s → μ s = 0 → E s) (hstay : ∀ s e, E s → E (step s e)) :
    ∀ (es : List ε) (s : σ), I s → Along step P s es → μ s ≤ es.length → E (run step s es)
  | [], s, hI, _, hle => hzero s hI (Nat.le_zero.mp hle)
  | e :: es, s, hI, ⟨hP, hrest⟩, hle => by
    rcases hless s e hI hP with hend | hlt
    · have hstays : ∀ (es : List ε) (s : σ), E s → E (run step s es) := by
        intro es
        induction es with
        | nil => exact fun s hs => hs
        | cons e es ih => exact fun s hs => ih _ (hstay s e hs)
      exact hstays es _ (hstay s e hend)
    · rw [List.length_cons] at hle
      exact run_ends hstep hless hzero hstay es _ (hstep s e hI hP) hrest (by omega)

/-- Two conditions on the steps that agree in the states of an invariant agree on runs. -/
theorem along_congr {step : σ → ε → σ} {P Q : σ → ε → Prop} {I : σ → Prop}
    (hPQ : ∀ s e, I s → (P s e ↔ Q s e)) (hstep : ∀ s e, I s → P s e → I (step s e)) :
    ∀ (es : List ε) (s : σ), I s → (Along step P s es ↔ Along step Q s es)
  | [], _, _ => Iff.rfl
  | e :: es, s, hI => by
    have hrest : P s e → (Along step P (step s e) es ↔ Along step Q (step s e) es) :=
      fun hP => along_congr hPQ hstep es (step s e) (hstep s e hI hP)
    unfold Along
    rw [← hPQ s e hI]
    exact and_congr_right hrest

/-- **Simulation rule.**  Two machines related by `R` stay related. -/
theorem run_rel {τ : Type*} {step : σ → ε → σ} {step' : τ → ε → τ} {R : σ → τ → Prop}
    (hstep : ∀ s t e, R s t → R (step s e) (step' t e)) :
    ∀ (es : List ε) (s : σ) (t : τ), R s t → R (run step s es) (run step' t es)
  | [], _, _, h => h
  | e :: es, s, t, h => run_rel hstep es (step s e) (step' t e) (hstep s t e h)

/-- What holds of every state that the run of `es` from `s` reaches, in terms of the events up to
there. -/
def Throughout (step : σ → ε → σ) (P : List ε → σ → Prop) (s : σ) (es : List ε) : Prop :=
  ∀ past, past <+: es → P past (run step s past)

/-- **Invariant rule with a history.** -/
theorem throughout_of_step {step : σ → ε → σ} {Q : σ → ε → Prop} {P : List ε → σ → Prop} {s : σ}
    (hinit : P [] s)
    (hstep : ∀ past s e, P past s → Q s e → P (past ++ [e]) (step s e)) (es : List ε)
    (h : Along step Q s es) : Throughout step P s es := by
  have hall : ∀ (es past : List ε) (s : σ), P past s → Along step Q s es →
      ∀ next, next <+: es → P (past ++ next) (run step s next) := by
    intro es
    induction es with
    | nil =>
      intro past s hP _ next hnext
      rw [List.prefix_nil.1 hnext, List.append_nil]
      exact hP
    | cons e es ih =>
      rintro past s hP ⟨hQ, hrest⟩ next hnext
      rcases List.prefix_cons_iff.1 hnext with rfl | ⟨t, rfl, ht⟩
      · rw [List.append_nil]
        exact hP
      · have := ih (past ++ [e]) (step s e) (hstep past s e hP hQ) hrest t ht
        rwa [List.append_assoc] at this
  exact hall es [] s hinit h

/-- **Exactness rule.**  If `Q` keeps the invariant and no step outside `Q` reaches a state with `P`,
then `P` holds throughout a run exactly if all its steps meet `Q`. -/
theorem throughout_iff_along {step : σ → ε → σ} {P I : σ → Prop} {Q : σ → ε → Prop}
    (hP : ∀ s, I s → P s) (hstep : ∀ s e, I s → Q s e → I (step s e))
    (hexact : ∀ s e, I s → P (step s e) → Q s e) :
    ∀ (es : List ε) (s : σ), I s → (Throughout step (fun _ s => P s) s es ↔ Along step Q s es)
  | [], s, hI => by
    refine ⟨fun _ => trivial, fun _ past hpast => ?_⟩
    rw [List.prefix_nil.1 hpast]
    exact hP s hI
  | e :: es, s, hI => by
    constructor
    · intro h
      have hQ : Q s e := hexact s e hI (h [e] (by simp))
      refine ⟨hQ, (throughout_iff_along hP hstep hexact es _ (hstep s e hI hQ)).1 ?_⟩
      intro past hpast
      exact h (e :: past) ((List.prefix_cons_inj e).2 hpast)
    · rintro ⟨hQ, hrest⟩ past hpast
      rcases List.prefix_cons_iff.1 hpast with rfl | ⟨t, rfl, ht⟩
      · exact hP s hI
      · exact (throughout_iff_along hP hstep hexact es _ (hstep s e hI hQ)).2 hrest t ht

/-- **Tracking rule.**  The view `f` of the states follows the machine `step'` throughout a run
exactly if it follows it in every step. -/
theorem throughout_view_iff {τ : Type*} (step : σ → ε → σ) (step' : τ → ε → τ) (f : σ → τ) :
    ∀ (es : List ε) (s : σ),
      Throughout step (fun past s' => f s' = run step' (f s) past) s es ↔
        Along step (fun s e => f (step s e) = step' (f s) e) s es
  | [], s => by
    refine ⟨fun _ => trivial, fun _ past hpast => ?_⟩
    rw [List.prefix_nil.1 hpast]
    rfl
  | e :: es, s => by
    have ih := throughout_view_iff step step' f es (step s e)
    constructor
    · intro h
      have hfirst : f (step s e) = step' (f s) e := h [e] (by simp)
      refine ⟨hfirst, ih.1 fun past hpast => ?_⟩
      rw [hfirst]
      exact h (e :: past) ((List.prefix_cons_inj e).2 hpast)
    · rintro ⟨hfirst, hrest⟩ past hpast
      rcases List.prefix_cons_iff.1 hpast with rfl | ⟨t, rfl, ht⟩
      · rfl
      · have := ih.2 hrest t ht
        rwa [hfirst] at this

/-! ## Since the last event of a kind -/

/-- A `good` event happened, and no `bad` one after it. -/
def Since (good bad : ε → Prop) (past : List ε) : Prop :=
  ∃ before e since, past = before ++ e :: since ∧ good e ∧ ∀ d ∈ since, ¬ bad d

theorem since_nil (good bad : ε → Prop) : ¬ Since good bad [] := by
  rintro ⟨before, e, since, h, -, -⟩
  simp at h

theorem since_append {good bad : ε → Prop} {past : List ε} {e : ε} :
    Since good bad (past ++ [e]) ↔ good e ∨ ¬ bad e ∧ Since good bad past := by
  constructor
  · rintro ⟨before, g, since, heq, hg, hbad⟩
    rcases List.eq_nil_or_concat since with rfl | ⟨since, d, rfl⟩
    · obtain rfl : e = g := List.singleton_inj.1 (List.append_inj' heq rfl).2
      exact .inl hg
    · have hsplit : past ++ [e] = (before ++ g :: since) ++ [d] := by simpa using heq
      obtain ⟨hpast, hed⟩ := List.append_inj' hsplit rfl
      obtain rfl : e = d := List.singleton_inj.1 hed
      simp only [List.concat_eq_append, List.mem_append, List.mem_singleton] at hbad
      exact .inr ⟨hbad e (.inr rfl), before, g, since, hpast, hg, fun x hx => hbad x (.inl hx)⟩
  · rintro (hg | ⟨hbad, before, g, since, rfl, hg, hsince⟩)
    · exact ⟨past, e, [], rfl, hg, by simp⟩
    · refine ⟨before, g, since ++ [e], by simp, hg, fun d hd => ?_⟩
      rcases List.mem_append.1 hd with hd | hd
      · exact hsince d hd
      · rw [List.mem_singleton.1 hd]
        exact hbad

theorem since_iff_foldl (good bad : ε → Prop) [DecidablePred good] [DecidablePred bad]
    (past : List ε) :
    Since good bad past ↔
      past.foldl (fun b e => decide (good e) || (!decide (bad e) && b)) false = true := by
  induction past using List.reverseRecOn with
  | nil => simp [since_nil]
  | append_singleton past e ih => simp [since_append, ih]

instance (good bad : ε → Prop) [DecidablePred good] [DecidablePred bad] (past : List ε) :
    Decidable (Since good bad past) :=
  decidable_of_iff _ (since_iff_foldl good bad past).symm

/-! ## Machines that answer -/

/-- The answers of a machine to the events `es`, in order. -/
def replies {ρ : Type*} (perform : σ → ε → σ × ρ) : σ → List ε → List ρ
  | _, [] => []
  | s, e :: es => (perform s e).2 :: replies perform (perform s e).1 es

theorem replies_append {ρ : Type*} (perform : σ → ε → σ × ρ) : ∀ (es : List ε) (s : σ) (e : ε),
    replies perform s (es ++ [e]) =
      replies perform s es ++ [(perform (run (fun s e => (perform s e).1) s es) e).2]
  | [], _, _ => rfl
  | _ :: es, _, e => congrArg (List.cons _) (replies_append perform es _ e)

/-- **Simulation rule.**  Two machines related by `R` give the same answers along the runs whose steps
meet `P`, if under `P` they answer alike and stay related. -/
theorem replies_eq {τ ρ : Type*} {perform : σ → ε → σ × ρ} {perform' : τ → ε → τ × ρ}
    {P : σ → ε → Prop} {R : σ → τ → Prop}
    (hstep : ∀ s t e, R s t → P s e →
      (perform s e).2 = (perform' t e).2 ∧ R (perform s e).1 (perform' t e).1) :
    ∀ (es : List ε) (s : σ) (t : τ), R s t → Along (fun s e => (perform s e).1) P s es →
      replies perform s es = replies perform' t es
  | [], _, _, _, _ => rfl
  | e :: es, s, t, hR, ⟨hP, hrest⟩ => by
    obtain ⟨hreply, hnext⟩ := hstep s t e hR hP
    rw [replies, replies, hreply, replies_eq hstep es _ _ hnext hrest]

/-! ## Monitors -/

/-- From `s` to `s'` the log is extended, by good entries only exactly when `p` holds. -/
def Emits (log : σ → List α) (Good : α → Prop) (s s' : σ) (p : Prop) : Prop :=
  ∃ out, log s' = log s ++ out ∧ ((∀ x ∈ out, Good x) ↔ p)

section Emits

variable {log : σ → List α} {Good : α → Prop} {s s₁ s' : σ} {p q : Prop}

theorem Emits.none (h : log s' = log s) (hp : p) : Emits log Good s s' p :=
  ⟨[], by simp [h], by simpa using hp⟩

theorem Emits.single {a : α} (h : log s' = log s ++ [a]) : Emits log Good s s' (Good a) :=
  ⟨[a], h, by simp⟩

theorem Emits.congr (h : Emits log Good s s' p) (hpq : p ↔ q) : Emits log Good s s' q := by
  obtain ⟨out, h1, h2⟩ := h
  exact ⟨out, h1, h2.trans hpq⟩

/-- A prefix of a handler that logs nothing can be skipped. -/
theorem Emits.of_log (h : Emits log Good s₁ s' p) (h₁ : log s₁ = log s) : Emits log Good s s' p := by
  obtain ⟨out, h2, h3⟩ := h
  exact ⟨out, by rw [h2, h₁], h3⟩

end Emits

/-- **Monitor rule.**  If every step extends the log, and what it appends is good exactly when the
step meets `P`, then the log of a run is good exactly when every step of the run meets `P`. -/
theorem run_log_iff {step : σ → ε → σ} {log : σ → List α} {Good : α → Prop} {P : σ → ε → Prop}
    (hstep : ∀ s e, Emits log Good s (step s e) (P s e)) :
    ∀ (es : List ε) (s : σ),
      (∀ x ∈ log (run step s es), Good x) ↔ (∀ x ∈ log s, Good x) ∧ Along step P s es
  | [], s => by simp [Along]
  | e :: es, s => by
    obtain ⟨out, hlog, hout⟩ := hstep s e
    rw [run_cons, run_log_iff hstep es (step s e), hlog, Along, ← hout]
    constructor
    · rintro ⟨hall, hrest⟩
      exact ⟨fun x hx => hall x (List.mem_append_left _ hx),
        fun x hx => hall x (List.mem_append_right _ hx), hrest⟩
    · rintro ⟨hold, hnew, hrest⟩
      refine ⟨fun x hx => ?_, hrest⟩
      rcases List.mem_append.mp hx with h | h
      · exact hold x h
      · exact hnew x h

end VpnCore.Lib
