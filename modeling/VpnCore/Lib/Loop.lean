import Mathlib.Tactic

/-!
# VpnCore.Lib.Loop — a loop over a list with `break` and early `return`

`loop body s xs` runs the body once for every element, until it leaves the loop (`stopped`) or the
enclosing function (`failed`).  `loop_append` cuts a loop in two; `loop_sim` compares two loops over
corresponding inputs.
-/

namespace VpnCore.Lib

/-- How an iteration ended: on to the next one, by `break`, or by a `return` with an error. -/
inductive Loop (σ ε : Type*)
  | running (s : σ)
  | stopped (s : σ)
  | failed (e : ε)
  deriving DecidableEq, Repr

variable {σ τ ε δ α β : Type*}

def loop (body : σ → α → Loop σ ε) : σ → List α → Loop σ ε
  | s, [] => .running s
  | s, x :: xs =>
    match body s x with
    | .running s' => loop body s' xs
    | .stopped s' => .stopped s'
    | .failed e => .failed e

@[simp] theorem loop_nil (body : σ → α → Loop σ ε) (s : σ) : loop body s [] = .running s := rfl

theorem loop_cons_running {body : σ → α → Loop σ ε} {s s' : σ} {x : α} {xs : List α}
    (h : body s x = .running s') : loop body s (x :: xs) = loop body s' xs := by
  simp only [loop, h]

theorem loop_cons_stopped {body : σ → α → Loop σ ε} {s s' : σ} {x : α} {xs : List α}
    (h : body s x = .stopped s') : loop body s (x :: xs) = .stopped s' := by
  simp only [loop, h]

theorem loop_cons_failed {body : σ → α → Loop σ ε} {s : σ} {e : ε} {x : α} {xs : List α}
    (h : body s x = .failed e) : loop body s (x :: xs) = .failed e := by
  simp only [loop, h]

theorem loop_append {body : σ → α → Loop σ ε} {s s' : σ} {xs ys : List α}
    (h : loop body s xs = .running s') : loop body s (xs ++ ys) = loop body s' ys := by
  induction xs generalizing s with
  | nil =>
    obtain rfl := Loop.running.inj h
    rfl
  | cons x xs ih =>
    simp only [loop] at h
    cases hb : body s x with
    | running t =>
      rw [hb] at h
      rw [List.cons_append, loop_cons_running hb]
      exact ih h
    | stopped t => rw [hb] at h; cases h
    | failed e => rw [hb] at h; cases h

theorem loop_append_stopped {body : σ → α → Loop σ ε} {s s' : σ} {xs : List α} (ys : List α)
    (h : loop body s xs = .stopped s') : loop body s (xs ++ ys) = .stopped s' := by
  induction xs generalizing s with
  | nil => cases h
  | cons x xs ih =>
    simp only [List.cons_append, loop] at h ⊢
    cases hb : body s x with
    | running t => rw [hb] at h; exact ih h
    | stopped t => rw [hb] at h; exact h
    | failed e => rw [hb] at h; cases h

theorem loop_append_failed {body : σ → α → Loop σ ε} {s : σ} {e : ε} {xs : List α} (ys : List α)
    (h : loop body s xs = .failed e) : loop body s (xs ++ ys) = .failed e := by
  induction xs generalizing s with
  | nil => cases h
  | cons x xs ih =>
    simp only [List.cons_append, loop] at h ⊢
    cases hb : body s x with
    | running t => rw [hb] at h; exact ih h
    | stopped t => rw [hb] at h; cases h
    | failed e' => rw [hb] at h; exact h

/-- Every iteration that is reached meets `P` (a condition on the state before it and the
element). -/
def LoopAlong (body : σ → α → Loop σ ε) (P : σ → α → Prop) : σ → List α → Prop
  | _, [] => True
  | s, x :: xs =>
    P s x ∧
      match body s x with
      | .running s' => LoopAlong body P s' xs
      | .stopped _ => True
      | .failed _ => True

instance LoopAlong.decidable (body : σ → α → Loop σ ε) (P : σ → α → Prop)
    [∀ s x, Decidable (P s x)] : ∀ s xs, Decidable (LoopAlong body P s xs)
  | _, [] => isTrue trivial
  | s, x :: xs =>
    have : Decidable (match body s x with
        | .running s' => LoopAlong body P s' xs
        | .stopped _ => True
        | .failed _ => True) :=
      match body s x with
      | .running s' => LoopAlong.decidable body P s' xs
      | .stopped _ => isTrue trivial
      | .failed _ => isTrue trivial
    inferInstanceAs (Decidable (P s x ∧ _))

theorem LoopAlong.and {body : σ → α → Loop σ ε} {P Q : σ → α → Prop} :
    ∀ {xs : List α} {s : σ}, LoopAlong body P s xs → LoopAlong body Q s xs →
      LoopAlong body (fun s x => P s x ∧ Q s x) s xs
  | [], _, _, _ => trivial
  | x :: xs, s, ⟨hP, hP'⟩, ⟨hQ, hQ'⟩ => by
    refine ⟨⟨hP, hQ⟩, ?_⟩
    cases hb : body s x with
    | running s' =>
      rw [hb] at hP' hQ'
      exact hP'.and hQ'
    | stopped s' => trivial
    | failed e => trivial

/-- Two loops end an iteration alike, in related states or with related errors. -/
inductive Loop.Rel (R : σ → τ → Prop) (E : ε → δ → Prop) : Loop σ ε → Loop τ δ → Prop
  | running {s t} (h : R s t) : Loop.Rel R E (.running s) (.running t)
  | stopped {s t} (h : R s t) : Loop.Rel R E (.stopped s) (.stopped t)
  | failed {e d} (h : E e d) : Loop.Rel R E (.failed e) (.failed d)

/-- **Simulation rule.**  The relation carries a proposition `p` that records whether all
iterations so far met `P`; `G` is what the first loop guarantees. -/
theorem loop_sim {body : σ → α → Loop σ ε} {body' : τ → β → Loop τ δ} {f : β → α}
    {R : Prop → σ → τ → Prop} {E : ε → δ → Prop} {G P : σ → α → Prop} {M : β → Prop}
    (hbody : ∀ p s t x, M x → R p s t → G s (f x) →
      Loop.Rel (R (p ∧ P s (f x))) E (body s (f x)) (body' t x))
    (hR : ∀ p q s t, (p ↔ q) → R p s t → R q s t) :
    ∀ (xs : List β) (p : Prop) (s : σ) (t : τ), (∀ x ∈ xs, M x) → R p s t →
      LoopAlong body G s (xs.map f) →
      Loop.Rel (R (p ∧ LoopAlong body P s (xs.map f))) E (loop body s (xs.map f)) (loop body' t xs)
  | [], p, s, t, _, h, _ => .running (hR _ _ s t (by simp [LoopAlong]) h)
  | x :: xs, p, s, t, hM, h, hG => by
    obtain ⟨hGx, hGrest⟩ := hG
    have hstep := hbody p s t x (hM x List.mem_cons_self) h hGx
    simp only [List.map_cons, loop, LoopAlong]
    generalize hb : body s (f x) = l at hstep hGrest
    generalize body' t x = l' at hstep
    cases hstep with
    | @running s' t' h' =>
      have hrest := loop_sim hbody hR xs _ s' t' (fun y hy => hM y (List.mem_cons_of_mem x hy)) h'
        hGrest
      simpa only [and_assoc] using hrest
    | @stopped s' t' h' => exact .stopped (by simpa using h')
    | failed h' => exact .failed h'

end VpnCore.Lib
