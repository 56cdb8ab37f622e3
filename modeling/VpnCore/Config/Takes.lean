import VpnCore.Config.Parsing

/-!
# VpnCore.Config.Takes — what a method of `convertProfile` returns and takes

`Takes o K x K' post`: if the options in `K` have been taken out of the map `o` and the method `x`
returns, then those in `K'` have been, and what it returns meets `post`.  The rules follow the sequence of
the method; whether it returns is not their subject (`Config.Options`).
-/

namespace VpnCore.Config

open VpnCore.Lib

/-! ## The options that are left -/

/-- The map without the options that have been taken. -/
def OptionMap.without (o : OptionMap) (K : List String) : OptionMap :=
  o.filter fun e => !(K.map String.toList).contains e.1

variable {o : OptionMap} {K K' K'' : List String} {option : String}

theorem without_nil (o : OptionMap) : o.without [] = o := List.filter_true o

theorem without_without (o : OptionMap) (K K' : List String) :
    (o.without K).without K' = o.without (K' ++ K) := by
  unfold OptionMap.without
  rw [List.filter_filter]
  refine List.filter_congr fun e _ => ?_
  simp [Bool.and_comm]

theorem remove_eq_without (o : OptionMap) (option : String) :
    o.remove option.toList = o.without [option] := by
  refine List.filter_congr fun e _ => ?_
  by_cases he : e.1 = option.toList <;> simp [he]

theorem remove_without (o : OptionMap) (K : List String) (option : String) :
    (o.without K).remove option.toList = o.without (option :: K) := by
  rw [remove_eq_without, without_without]
  rfl

theorem get_without (h : option ∉ K) : (o.without K).get option.toList = o.get option.toList := by
  refine lookup_filter _ option.toList o fun e _ he => ?_
  rw [Bool.not_eq_true', List.contains_eq_mem, decide_eq_false_iff_not, he, List.mem_map]
  rintro ⟨k, hk, heq⟩
  exact h (String.toList_inj.mp heq ▸ hk)

/-- Nothing is removed with an option that is not there. -/
theorem remove_of_get_eq_none {key : Text} (h : o.get key = none) : o.remove key = o := by
  rw [OptionMap.get, List.lookup_eq_none_iff] at h
  refine List.filter_eq_self.mpr fun e he => ?_
  rw [bne_iff_ne]
  exact fun heq => by simpa [heq] using h e he

/-! ## The rules -/

/-- `x` takes the options from `K` to `K'` and returns something that meets `post`. -/
def Takes {α : Type} (o : OptionMap) (K : List String) (x : Convert α) (K' : List String)
    (post : α → Prop) : Prop :=
  ∀ a s', x.run (o.without K) = .ok (a, s') → s' = o.without K' ∧ post a

variable {α β : Type} {x : Convert α} {f : α → Convert β} {post : α → Prop} {post' : β → Prop}

theorem run_bind_ok {s : OptionMap} {r : β × OptionMap} :
    (x >>= f).run s = .ok r ↔ ∃ a s₁, x.run s = .ok (a, s₁) ∧ (f a).run s₁ = .ok r := by
  rw [StateT.run_bind, bind_eq_ok]
  exact ⟨fun ⟨⟨a, s₁⟩, h⟩ => ⟨a, s₁, h⟩, fun ⟨a, s₁, h⟩ => ⟨(a, s₁), h⟩⟩

theorem Takes.bind (h : Takes o K x K' post) (hf : ∀ a, post a → Takes o K' (f a) K'' post') :
    Takes o K (x >>= f) K'' post' := by
  intro b s' hrun
  obtain ⟨a, s₁, hx, hb⟩ := run_bind_ok.mp hrun
  obtain ⟨rfl, ha⟩ := h a s₁ hx
  exact hf a ha b s' hb

theorem takes_pure {a : α} (h : post a) : Takes o K (pure a) K post := by
  intro b s' hrun
  obtain ⟨rfl, rfl⟩ := Prod.mk.inj (Except.ok.inj hrun)
  exact ⟨rfl, h⟩

/-- A step without options. -/
theorem takes_lift {y : Except Thrown α} (h : ∀ a, y = .ok a → post a) :
    Takes o K (liftM y : Convert α) K post := by
  intro a s' hrun
  cases y with
  | error e => cases hrun
  | ok b =>
    obtain ⟨rfl, rfl⟩ := Prod.mk.inj (Except.ok.inj hrun)
    exact ⟨rfl, h b rfl⟩

theorem takes_any {y : Except Thrown α} : Takes o K (liftM y : Convert α) K fun _ => True :=
  takes_lift fun _ _ => trivial

theorem takes_throw {e : Thrown} : Takes o K (throw e : Convert α) K' post := fun _ _ h => by cases h

/-! ## Options and arguments -/

variable {minarg maxarg : ℕ}

theorem getAllOption_takes (h : option ∉ K) :
    Takes o K (getAllOption option minarg maxarg) (option :: K)
      fun r => r = o.get option.toList ∧ Arity o option minarg maxarg := by
  intro r s' hrun
  change getAllOption option minarg maxarg (o.without K) = _ at hrun
  rw [getAllOption, get_without h] at hrun
  rw [← remove_without]
  cases hget : o.get option.toList with
  | none =>
    rw [hget] at hrun
    obtain ⟨rfl, rfl⟩ := Prod.mk.inj (Except.ok.inj hrun)
    rw [remove_of_get_eq_none (by rw [get_without h, hget])]
    exact ⟨rfl, rfl, by simp [Arity, linesOf, hget]⟩
  | some args =>
    rw [hget] at hrun
    dsimp only at hrun
    cases hfind : args.find? (wrongLength minarg maxarg) with
    | some line =>
      rw [hfind] at hrun
      cases hrun
    | none =>
      rw [hfind] at hrun
      obtain ⟨rfl, rfl⟩ := Prod.mk.inj (Except.ok.inj hrun)
      refine ⟨rfl, rfl, ?_⟩
      rw [Arity, linesOf, hget, Option.getD_some]
      simpa using hfind

theorem getOption_takes (h : option ∉ K) :
    Takes o K (getOption option minarg maxarg) (option :: K)
      fun r => r = (linesOf o option).getLast? ∧ Arity o option minarg maxarg := by
  refine (getAllOption_takes h).bind fun r hr => takes_pure ⟨?_, hr.2⟩
  rw [hr.1, linesOf]
  cases o.get option.toList <;> rfl

theorem getArgument_takes (h : option ∉ K) :
    Takes o K (getArgument option) (option :: K)
      fun r => r = lastArg o option 1 ∧ Arity o option 1 1 := by
  refine (getOption_takes h).bind fun line hline => ?_
  rw [lastArg, ← hline.1]
  cases line with
  | none => exact takes_pure ⟨rfl, hline.2⟩
  | some line =>
    have hlen := hline.2 line (List.mem_of_getLast? hline.1.symm)
    obtain ⟨name, arg, rfl⟩ := shape_of_wrongLength_one_one hlen
    exact takes_pure ⟨rfl, hline.2⟩

theorem getFlag_takes (h : option ∉ K) :
    Takes o K (getFlag option maxarg) (option :: K)
      fun r => r = (linesOf o option).getLast?.isSome := by
  refine (getOption_takes h).bind fun line hline => takes_pure ?_
  rw [hline.1]

end VpnCore.Config
