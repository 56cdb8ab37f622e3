import Mathlib.Data.List.Basic
import Mathlib.Tactic

/-!
# VpnCore.Lib.Endings — how a computation with exceptions ends

Some exceptions are declared, all others escape.  `Ends declared pass escape post x` says that `x` returns
with `post` iff `pass`, that an exception that is not declared escapes iff `escape`, and that it ends with a
declared one otherwise.  The rules follow the structure of the computation: what comes after a step
counts only if the step returns, and a loop escapes iff the first element that does not pass does.
-/

namespace VpnCore.Lib

universe u v

variable {ε : Type v} {α β σ : Type u}

theorem ok_bind (a : α) (f : α → Except ε β) : (Except.ok a >>= f) = f a := rfl

/-- A sequence returns iff its first step does, and what comes after it. -/
theorem bind_eq_ok {x : Except ε α} {f : α → Except ε β} {b : β} :
    x >>= f = .ok b ↔ ∃ a, x = .ok a ∧ f a = .ok b := by
  cases x with
  | ok a => simp [bind, Except.bind]
  | error e => simp [bind, Except.bind]

/-- What each step keeps holds at the end of a loop that returns. -/
theorem foldlM_inv {f : σ → α → Except ε σ} {I : σ → Prop} : ∀ {l : List α} {s s' : σ},
    (∀ a ∈ l, ∀ s s', I s → f s a = .ok s' → I s') → I s → l.foldlM f s = .ok s' → I s'
  | [], _, _, _, hs, h => Except.ok.inj h ▸ hs
  | a :: l, s, s', hstep, hs, h => by
    rw [List.foldlM_cons] at h
    obtain ⟨s₁, h₁, h⟩ := bind_eq_ok.mp h
    rw [List.forall_mem_cons] at hstep
    exact foldlM_inv hstep.2 (hstep.1 s s₁ hs h₁) h

/-- A computation returns, or throws, exactly as the conditions say. -/
inductive Ends (declared : ε → Prop) (pass escape : Prop) (post : α → Prop) : Except ε α → Prop
  | returns {a : α} : pass → ¬ escape → post a → Ends declared pass escape post (.ok a)
  | declared {e : ε} : ¬ pass → ¬ escape → declared e → Ends declared pass escape post (.error e)
  | escapes {e : ε} : ¬ pass → escape → ¬ declared e → Ends declared pass escape post (.error e)

variable {declared : ε → Prop} {p e q d : Prop} {post : α → Prop} {post' : β → Prop}
  {x : Except ε α}

theorem Ends.of_iff (h : Ends declared p e post x) (hp : p ↔ q) (he : e ↔ d) :
    Ends declared q d post x := by
  rw [← hp, ← he]
  exact h

theorem Ends.weaken {post' : α → Prop} (h : Ends declared p e post x)
    (hpost : ∀ a, p → post a → post' a) : Ends declared p e post' x := by
  cases h with
  | returns hp he ha => exact .returns hp he (hpost _ hp ha)
  | declared hp he hd => exact .declared hp he hd
  | escapes hp he hd => exact .escapes hp he hd

theorem ends_ok {a : α} (h : post a) : Ends declared True False post (.ok a) :=
  .returns trivial id h

/-- What comes after a step counts only if the step returns. -/
theorem Ends.bind {f : α → Except ε β} (h : Ends declared p e post x)
    (hf : ∀ a, p → post a → Ends declared q d post' (f a)) :
    Ends declared (p ∧ q) (e ∨ p ∧ d) post' (x >>= f) := by
  cases h with
  | returns hp he ha =>
    exact (hf _ hp ha).of_iff ⟨fun h => ⟨hp, h⟩, And.right⟩
      ⟨fun h => .inr ⟨hp, h⟩, fun h => h.elim (fun h => absurd h he) And.right⟩
  | declared hp he hd =>
    exact .declared (fun h => hp h.1) (fun h => h.elim he fun h => hp h.1) hd
  | escapes hp he hd => exact .escapes (fun h => hp h.1) (.inl he) hd

/-- After a step that never escapes. -/
theorem Ends.andThen {f : α → Except ε β} (h : Ends declared p False post x)
    (hf : ∀ a, p → post a → Ends declared q d post' (f a)) :
    Ends declared (p ∧ q) (p ∧ d) post' (x >>= f) :=
  (h.bind hf).of_iff Iff.rfl (by simp)

/-- Two steps that never escape. -/
theorem Ends.fine {f : α → Except ε β} (h : Ends declared p False post x)
    (hf : ∀ a, p → post a → Ends declared q False post' (f a)) :
    Ends declared (p ∧ q) False post' (x >>= f) :=
  (h.bind hf).of_iff Iff.rfl (by simp)

/-! ## Declared exceptions only -/

/-- Nothing but a declared exception is thrown; what is returned meets `post`. -/
def Declares (declared : ε → Prop) (post : α → Prop) : Except ε α → Prop
  | .ok a => post a
  | .error err => declared err

theorem Declares.bind {f : α → Except ε β} (h : Declares declared post x)
    (hf : ∀ a, post a → Declares declared post' (f a)) : Declares declared post' (x >>= f) := by
  cases x with
  | ok a => exact hf a h
  | error err => exact h

theorem declares_foldlM {f : σ → α → Except ε σ} {inv : σ → Prop}
    (hstep : ∀ s a, inv s → Declares declared inv (f s a)) :
    ∀ (l : List α) (s : σ), inv s → Declares declared inv (l.foldlM f s)
  | [], _, hs => hs
  | a :: l, s, hs => by
    rw [List.foldlM_cons]
    exact (hstep s a hs).bind fun s' hs' => declares_foldlM hstep l s' hs'

/-! ## What escapes in the end

In a long sequence of steps only the exceptions that escape are of interest.  The condition `out` for
them is fixed at the start; every step shows that it implies that the step is passed. -/

/-- An undeclared exception escapes exactly if `out`. -/
inductive EndsUnless (declared : ε → Prop) (out : Prop) : Except ε α → Prop
  | returns {a : α} : ¬ out → EndsUnless declared out (.ok a)
  | declared {err : ε} : ¬ out → declared err → EndsUnless declared out (.error err)
  | escapes {err : ε} : out → ¬ declared err → EndsUnless declared out (.error err)

variable {out : Prop}

/-- Returning or throwing a declared exception. -/
theorem EndsUnless.iff_not (h : EndsUnless declared out x) :
    ((∃ a, x = .ok a) ∨ ∃ err, declared err ∧ x = .error err) ↔ ¬ out := by
  cases h with
  | returns hout => simp [hout]
  | declared hout hd => simpa [hout] using hd
  | escapes hout hd => simpa [hout] using hd

/-- A step that may escape. -/
theorem EndsUnless.bind {f : α → Except ε β} (h : Ends declared p e post x) (hto : e → out)
    (hfrom : out → e ∨ p) (hf : ∀ a, p → ¬ e → post a → EndsUnless declared out (f a)) :
    EndsUnless declared out (x >>= f) := by
  cases h with
  | returns hp he ha => exact hf _ hp he ha
  | declared hp he hd => exact .declared (fun hout => (hfrom hout).elim he hp) hd
  | escapes hp he hd => exact .escapes (hto he) hd

/-- A step that never escapes. -/
theorem EndsUnless.andThen {f : α → Except ε β} (h : Ends declared p False post x)
    (hfrom : out → p) (hf : ∀ a, p → post a → EndsUnless declared out (f a)) :
    EndsUnless declared out (x >>= f) :=
  .bind h False.elim (fun hout => .inr (hfrom hout)) fun a hp _ ha => hf a hp ha

/-- After the last step that may escape. -/
theorem EndsUnless.finish {f : α → Except ε β} (h : EndsUnless declared out x)
    (hf : ∀ a, Declares declared (fun _ => True) (f a)) : EndsUnless declared out (x >>= f) := by
  cases h with
  | @returns a hout =>
    have ha := hf a
    change EndsUnless declared out (f a)
    cases hfa : f a with
    | ok b => exact .returns hout
    | error err => exact .declared hout (by rw [hfa] at ha; exact ha)
  | declared hout hd => exact .declared hout hd
  | escapes hout hd => exact .escapes hout hd

/-! ## Loops -/

/-- The first element that does not pass escapes. -/
def FirstEscapes (pass escape : α → Prop) (l : List α) : Prop :=
  ∃ before a after, l = before ++ a :: after ∧ (∀ b ∈ before, pass b) ∧ escape a

theorem firstEscapes_cons {pass escape : α → Prop} {a : α} {l : List α} :
    FirstEscapes pass escape (a :: l) ↔ escape a ∨ pass a ∧ FirstEscapes pass escape l := by
  constructor
  · rintro ⟨_ | ⟨b, before⟩, c, after, heq, hbefore, hc⟩
    · obtain ⟨rfl, rfl⟩ := List.cons.inj heq
      exact .inl hc
    · obtain ⟨rfl, rfl⟩ := List.cons.inj heq
      rw [List.forall_mem_cons] at hbefore
      exact .inr ⟨hbefore.1, before, c, after, rfl, hbefore.2, hc⟩
  · rintro (h | ⟨h, before, c, after, rfl, hbefore, hc⟩)
    · exact ⟨[], a, l, rfl, by simp, h⟩
    · exact ⟨a :: before, c, after, rfl, List.forall_mem_cons.mpr ⟨h, hbefore⟩, hc⟩

theorem firstEscapes_false {pass : α → Prop} {l : List α} :
    ¬ FirstEscapes pass (fun _ => False) l := fun ⟨_, _, _, _, _, h⟩ => h

section

variable {pass escape : α → Prop}

theorem ends_foldlM {f : σ → α → Except ε σ} : ∀ {l : List α} (s : σ),
    (∀ a ∈ l, ∀ s, Ends declared (pass a) (escape a) (fun _ => True) (f s a)) →
      Ends declared (∀ a ∈ l, pass a) (FirstEscapes pass escape l) (fun _ => True) (l.foldlM f s)
  | [], s, _ => (ends_ok trivial).of_iff (by simp) (by simp [FirstEscapes])
  | a :: l, s, h => by
    rw [List.foldlM_cons]
    refine Ends.of_iff (Ends.bind (h a List.mem_cons_self s) fun s' _ _ =>
      ends_foldlM s' fun b hb => h b (List.mem_cons_of_mem a hb)) ?_ firstEscapes_cons.symm
    rw [List.forall_mem_cons]

theorem ends_mapM {f : α → Except ε β} : ∀ {l : List α},
    (∀ a ∈ l, Ends declared (pass a) (escape a) (fun _ => True) (f a)) →
      Ends declared (∀ a ∈ l, pass a) (FirstEscapes pass escape l)
        (fun r => r.length = l.length) (l.mapM f)
  | [], _ => Ends.of_iff (p := True) (e := False) (ends_ok rfl) (by simp) (by simp [FirstEscapes])
  | a :: l, h => by
    rw [List.mapM_cons]
    have htail := ends_mapM fun b hb => h b (List.mem_cons_of_mem a hb)
    refine Ends.of_iff (Ends.bind (h a List.mem_cons_self) fun b _ _ =>
      Ends.bind htail fun r _ hr => ends_ok ?_) ?_ ?_
    · rw [List.length_cons, List.length_cons, hr]
    · rw [List.forall_mem_cons, and_true]
    · rw [firstEscapes_cons, and_false, or_false]

end

end VpnCore.Lib
