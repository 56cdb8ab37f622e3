import VpnCore.Config.Convert
import VpnCore.Lib.Endings

/-!
# VpnCore.Config.Options — reading options

Every method of `convertProfile` reads an option at most once and removes it, so that what it finds is
what the file gave: `LeftBy o K s` says that `s` has every option as the file, but for those in `K`.
Reading ends with a `ConfigParseError` iff some line has a wrong number of arguments.
-/

namespace VpnCore.Config

open VpnCore.Lib

/-! ## The lines of an option -/

/-- The lines that give an option. -/
def linesOf (o : OptionMap) (option : String) : List OptionLine := (o.get option.toList).getD []

/-- Every line of the option has a number of arguments between `minarg` and `maxarg`. -/
def Arity (o : OptionMap) (option : String) (minarg maxarg : ℕ) : Prop :=
  ∀ line ∈ linesOf o option, wrongLength minarg maxarg line = false

/-- The options of a table, each with the bounds for the number of its arguments. -/
def Arities (o : OptionMap) : List (String × ℕ × ℕ) → Prop
  | [] => True
  | (option, minarg, maxarg) :: table => Arity o option minarg maxarg ∧ Arities o table

/-- The argument of the last line of an option at the place `i`. -/
def lastArg (o : OptionMap) (option : String) (i : ℕ) : Option Text :=
  (linesOf o option).getLast?.bind (·[i]?)

/-- The options but those in `K` are as in the file. -/
def LeftBy (o : OptionMap) (K : List String) (s : OptionMap) : Prop :=
  ∀ option ∉ K, s.get option.toList = o.get option.toList

variable {o s : OptionMap} {K : List String} {option : String} {minarg maxarg : ℕ}

theorem lookup_filter {α : Type*} (p : Text × α → Bool) (key : Text) : ∀ l : List (Text × α),
    (∀ e ∈ l, e.1 = key → p e = true) → (l.filter p).lookup key = l.lookup key
  | [], _ => rfl
  | e :: l, h => by
    have ih := lookup_filter p key l fun e he => h e (List.mem_cons_of_mem _ he)
    by_cases hp : p e = true
    · rw [List.filter_cons_of_pos hp]
      obtain ⟨k, v⟩ := e
      rw [List.lookup_cons, List.lookup_cons, ih]
    · have hne : e.1 ≠ key := fun heq => hp (h e List.mem_cons_self heq)
      rw [List.filter_cons_of_neg hp, ih]
      obtain ⟨k, v⟩ := e
      rw [List.lookup_cons, beq_eq_false_iff_ne.mpr (Ne.symm hne)]

theorem leftBy_nil (o : OptionMap) : LeftBy o [] o := fun _ _ => rfl

theorem LeftBy.mono {K' : List String} (h : LeftBy o K s) (hK : ∀ k ∈ K, k ∈ K') : LeftBy o K' s :=
  fun option hoption => h option fun hmem => hoption (hK option hmem)

/-- Entries that are filtered out belong to options that count as read. -/
theorem LeftBy.filter {p : Text × List OptionLine → Bool} (h : LeftBy o K s) (K' : List String)
    (hp : ∀ option ∉ K', ∀ e ∈ s, e.1 = option.toList → p e = true) :
    LeftBy o (K' ++ K) (s.filter p) := by
  intro option hoption
  rw [List.mem_append, not_or] at hoption
  rw [← h option hoption.2]
  exact lookup_filter p option.toList s (hp option hoption.1)

theorem LeftBy.remove (h : LeftBy o K s) (option : String) :
    LeftBy o (option :: K) (s.remove option.toList) := by
  refine h.filter [option] fun k hk e _ he => ?_
  rw [bne_iff_ne, he]
  exact fun heq => hk (List.mem_singleton.mpr (String.toList_inj.mp heq))

theorem lookup_append_of_ne {α : Type*} {key k : Text} {v : α} (h : key ≠ k) :
    ∀ l : List (Text × α), (l ++ [(k, v)]).lookup key = l.lookup key
  | [] => by rw [List.nil_append, List.lookup_cons, beq_eq_false_iff_ne.mpr h]
  | e :: l => by rw [List.cons_append, List.lookup_cons, List.lookup_cons, lookup_append_of_ne h l]

theorem LeftBy.put (h : LeftBy o K s) (option : String) (lines : List OptionLine) :
    LeftBy o (option :: K) (s.put option.toList lines) := by
  intro k hk
  have hne : k.toList ≠ option.toList := fun heq =>
    hk (List.mem_cons.mpr (.inl (String.toList_inj.mp heq)))
  rw [← h.remove option k hk]
  exact lookup_append_of_ne hne _

/-! ## Lines with a number of arguments -/

theorem shape_of_wrongLength_one_one {line : OptionLine} (h : wrongLength 1 1 line = false) :
    ∃ a b, line = [a, b] := by
  rw [wrongLength] at h
  match line with
  | [] => simp at h
  | [_] => simp at h
  | [a, b] => exact ⟨a, b, rfl⟩
  | _ :: _ :: _ :: _ => simp at h

theorem shape_of_wrongLength_one_two {line : OptionLine} (h : wrongLength 1 2 line = false) :
    (∃ a b, line = [a, b]) ∨ ∃ a b c, line = [a, b, c] := by
  rw [wrongLength] at h
  match line with
  | [] => simp at h
  | [_] => simp at h
  | [a, b] => exact .inl ⟨a, b, rfl⟩
  | [a, b, c] => exact .inr ⟨a, b, c, rfl⟩
  | _ :: _ :: _ :: _ :: _ => simp at h

theorem shape_of_wrongLength_zero_one {line : OptionLine} (h : wrongLength 0 1 line = false) :
    (∃ a, line = [a]) ∨ ∃ a b, line = [a, b] := by
  rw [wrongLength] at h
  match line with
  | [] => simp at h
  | [a] => exact .inl ⟨a, rfl⟩
  | [a, b] => exact .inr ⟨a, b, rfl⟩
  | _ :: _ :: _ :: _ => simp at h

theorem shape_of_wrongLength_two_two {line : OptionLine} (h : wrongLength 2 2 line = false) :
    ∃ a b c, line = [a, b, c] := by
  rw [wrongLength] at h
  match line with
  | [] => simp at h
  | [_] => simp at h
  | [_, _] => simp at h
  | [a, b, c] => exact ⟨a, b, c, rfl⟩
  | _ :: _ :: _ :: _ :: _ => simp at h

/-! ## Declared errors -/

/-- `ConfigParseError` is the only exception that the methods declare and throw themselves. -/
def Thrown.IsDeclared : Thrown → Prop
  | .configParseError _ => True
  | _ => False

/-- `Ends` for the exceptions of the import. -/
abbrev EndsIn {α : Type} (pass escape : Prop) (post : α → Prop) (x : Except Thrown α) : Prop :=
  Ends Thrown.IsDeclared pass escape post x

/-- A step without options. -/
theorem ends_lift {α β : Type} {p e q d : Prop} {post : α → Prop} {post' : β × OptionMap → Prop}
    {x : Except Thrown α} {f : α → Convert β} {s : OptionMap} (h : EndsIn p e post x)
    (hf : ∀ a, p → post a → EndsIn q d post' ((f a).run s)) :
    EndsIn (p ∧ q) (e ∨ p ∧ d) post' ((liftM x >>= f : Convert β).run s) := by
  have heq : (liftM x >>= f : Convert β).run s = x >>= fun a => (f a).run s := by cases x <;> rfl
  rw [heq]
  exact h.bind hf

theorem ends_liftM {α : Type} {p e : Prop} {post : α → Prop} {post' : α × OptionMap → Prop}
    {x : Except Thrown α} (h : EndsIn p e post x) (hpost : ∀ a, post a → post' (a, s)) :
    EndsIn p e post' ((liftM x : Convert α).run s) := by
  cases h with
  | returns hp he ha => exact .returns hp he (hpost _ ha)
  | declared hp he hd => exact .declared hp he hd
  | escapes hp he hd => exact .escapes hp he hd

/-! ## Reading -/

theorem getAllOption_ends (hs : LeftBy o K s) (h : option ∉ K) :
    EndsIn (Arity o option minarg maxarg) False
      (fun r => r.1 = o.get option.toList ∧ LeftBy o (option :: K) r.2)
      ((getAllOption option minarg maxarg).run s) := by
  change EndsIn _ _ _ (getAllOption option minarg maxarg s)
  rw [getAllOption, hs option h]
  cases hget : o.get option.toList with
  | none =>
    refine .returns ?_ id ⟨rfl, hs.mono fun k hk => List.mem_cons_of_mem _ hk⟩
    simp [Arity, linesOf, hget]
  | some args =>
    have hlines : linesOf o option = args := by rw [linesOf, hget, Option.getD_some]
    dsimp only
    cases hfind : args.find? (wrongLength minarg maxarg) with
    | some line =>
      refine .declared (fun hall => ?_) id trivial
      have hwrong := List.find?_some hfind
      rw [hall line (hlines ▸ List.mem_of_find?_eq_some hfind)] at hwrong
      cases hwrong
    | none =>
      refine .returns ?_ id ⟨rfl, hs.remove option⟩
      rw [Arity, hlines]
      simpa using hfind

theorem getOption_ends (hs : LeftBy o K s) (h : option ∉ K) :
    EndsIn (Arity o option minarg maxarg) False
      (fun r => r.1 = (linesOf o option).getLast? ∧ LeftBy o (option :: K) r.2)
      ((getOption option minarg maxarg).run s) := by
  refine Ends.of_iff ((getAllOption_ends hs h).andThen (q := True) (d := False) fun r _ hr =>
    ends_ok ⟨?_, hr.2⟩) (by simp) (by simp)
  rw [hr.1, linesOf]
  cases o.get option.toList <;> rfl

/-- An option with one argument. -/
theorem getArgument_ends (hs : LeftBy o K s) (h : option ∉ K) :
    EndsIn (Arity o option 1 1) False
      (fun r => r.1 = lastArg o option 1 ∧ LeftBy o (option :: K) r.2)
      ((getArgument option).run s) := by
  refine Ends.of_iff ((getOption_ends hs h).andThen (q := True) (d := False) ?_) (by simp)
    (by simp)
  rintro ⟨line, s⟩ harity ⟨hline, hs⟩
  dsimp only at hline hs ⊢
  rw [lastArg, ← hline]
  cases line with
  | none => exact ends_ok ⟨rfl, hs⟩
  | some line =>
    have hlen := harity line (List.mem_of_getLast? hline.symm)
    obtain ⟨name, arg, rfl⟩ := shape_of_wrongLength_one_one hlen
    exact ends_ok ⟨rfl, hs⟩

theorem getFlag_ends (hs : LeftBy o K s) (h : option ∉ K) :
    EndsIn (Arity o option 0 maxarg) False
      (fun r => r.1 = (linesOf o option).getLast?.isSome ∧ LeftBy o (option :: K) r.2)
      ((getFlag option maxarg).run s) := by
  refine Ends.of_iff ((getOption_ends hs h).andThen (q := True) (d := False) fun r _ hr =>
    ends_ok ⟨?_, hr.2⟩) (by simp) (by simp)
  rw [hr.1]

end VpnCore.Config
