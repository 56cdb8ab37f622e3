import VpnCore.Apps.Filter

/-!
# VpnCore.Apps.Rows — the rows of `AppProxyActivity` and the selection

A view holder that is bound anew has the listener of the row it showed before while its check box is set
to the value of the new row.  If that changes the check box, the listener takes it for a choice of the user:
the app of the old row gets the value of the new one.  `rows_selection_iff` says that this is the only way
in which scrolling changes the selection; in particular a click on the box for all is never undone
(`quiet_after_click`).
-/

namespace VpnCore.Apps

open Config (Text)
open Data (DefaultDataStore)
open Lib

/-! ## The adapter -/

/-- `Holder`: its check box, and the position its `OnCheckedChangeListener` was made for, which is the row that
it shows.  A new one is not checked and has no listener. -/
structure Holder where
  checked : Bool := false
  listener : Option ℕ := none
  deriving DecidableEq

/-- The screen with its recycled row views. -/
structure Rows where
  screen : Screen
  holders : List Holder := []

/-- The user toggles a row or clicks on the box for all, everything else is done by the list.  After a
click `notifyDataSetChanged` binds the holders again, in steps of their own. -/
inductive Step
  | onCreateViewHolder
  | onBindViewHolder (holder position : ℕ)
  | toggle (holder : ℕ)
  | clickSelectAll
  deriving DecidableEq

/-- `mAppCheck.setChecked`, also by the user: the listener is called iff the value changes. -/
def Rows.setChecked (s : Rows) (i : ℕ) (holder : Holder) (isChecked : Bool) : Rows :=
  if holder.checked = isChecked then s
  else
    { screen :=
        match holder.listener with
        | none => s.screen
        | some position => (Operation.checkedChange position isChecked).perform s.screen
      holders := s.holders.set i { holder with checked := isChecked } }

/-- `mAppCheck.setOnCheckedChangeListener` -/
def Rows.setOnCheckedChangeListener (s : Rows) (i position : ℕ) : Rows :=
  { s with holders := s.holders.modify i fun holder => { holder with listener := some position } }

/-- Positions outside of the list are never bound, and only rows that are shown are toggled. -/
def Rows.step (s : Rows) : Step → Rows
  | .onCreateViewHolder => { s with holders := s.holders ++ [{}] }
  | .onBindViewHolder i position =>
    match s.holders[i]?, s.screen.data[position]? with
    | some holder, some appInfo =>
      (s.setChecked i holder appInfo.isSelected).setOnCheckedChangeListener i position
    | _, _ => s
  | .toggle i =>
    match s.holders[i]? with
    | some holder => if holder.listener.isSome then s.setChecked i holder (!holder.checked) else s
    | none => s
  | .clickSelectAll => { s with screen := Operation.clickSelectAll.perform s.screen }

/-! ## The choices of the user -/

/-- What the user chose. -/
inductive Choice
  | app (position : ℕ) (isSelected : Bool)
  | all (isSelected : Bool)

/-- What a choice says about the app at the position. -/
def Choice.value (position : ℕ) : Choice → Option Bool
  | .app p isSelected => if p = position then some isSelected else none
  | .all isSelected => some isSelected

/-- The choice that a step makes: the new value of the box that the user touched. -/
def Rows.choice (s : Rows) : Step → Option Choice
  | .toggle i => (s.holders[i]?).bind fun holder =>
    holder.listener.map fun position => .app position (!holder.checked)
  | .clickSelectAll => some (.all (!s.screen.checkBox))
  | _ => none

def choices : Rows → List Step → List Choice
  | _, [] => []
  | s, e :: es => (s.choice e).toList ++ choices (s.step e) es

/-- The last choice for the app at the position, or its value at the start. -/
def chosen (position : ℕ) (initial : Bool) (cs : List Choice) : Bool :=
  (cs.filterMap (Choice.value position)).getLast?.getD initial

/-- Only the user changes the selection and the stored flag, and a toggled row changes no other app. -/
def KeepsSelection (s : Rows) (e : Step) : Prop :=
  match e with
  | .onCreateViewHolder | .onBindViewHolder _ _ =>
    (s.step e).screen.data = s.screen.data ∧
      storedSelectAll (s.step e).screen.store = storedSelectAll s.screen.store
  | .toggle i =>
    ∀ position, (∀ holder, s.holders[i]? = some holder → holder.listener ≠ some position) →
      (s.step e).screen.data[position]? = s.screen.data[position]?
  | .clickSelectAll => True

/-- Every app has the value that the user gave it last. -/
def SelectionChosen (s : Rows) (es : List Step) : Prop :=
  ∀ position appInfo, s.screen.data[position]? = some appInfo →
    ((run Rows.step s es).screen.data[position]?).map AppInfo.isSelected =
      some (chosen position appInfo.isSelected (choices s es))

/-- The holder is new, or its check box has the value of the row already, or the row that it showed has that
value, and the stored flag says whether all apps are selected. -/
def Quiet (s : Rows) : Step → Prop
  | .onBindViewHolder i position =>
    ∀ holder ∈ s.holders[i]?, ∀ old ∈ holder.listener, ∀ appInfo ∈ s.screen.data[position]?,
      holder.checked = appInfo.isSelected ∨
        (∀ oldInfo ∈ s.screen.data[old]?, oldInfo.isSelected = appInfo.isSelected) ∧
          storedSelectAll s.screen.store = checkSelectAll s.screen.data
  | _ => True

/-! ## The listener -/

section

variable {s : Rows} {i position : ℕ} {holder : Holder} {appInfo : AppInfo}

theorem storedSelectAll_save (m : DefaultDataStore) (b : Bool) :
    storedSelectAll (saveSelectAll m b) = b := by
  have hget := Data.getNumericalData_some (m := saveSelectAll m b)
    (by rw [saveSelectAll_eq]; exact Function.update_self _ _ m) (Data.decimal_ne_nil _)
    (Data.parseInt32_decimal (Data.DataStore.bit b)) (Data.DataStore.bit true)
  have hbit : (Data.DataStore.bit b == 1) = b := by cases b <;> rfl
  exact (congrArg (· == 1) hget).trans hbit

/-- The data after the listener of the position. -/
theorem getElem?_checkedChange (t : Screen) (q p : ℕ) (b : Bool) :
    ((Operation.checkedChange q b).perform t).data[p]? =
      (t.data[p]?).map fun info => if q = p then { info with isSelected := b } else info := by
  change (t.data.modify q _)[p]? = _
  rw [List.getElem?_modify]
  cases t.data[p]? with
  | none => rfl
  | some info => split_ifs <;> rfl

theorem checkedChange_data_iff (t : Screen) (q : ℕ) (b : Bool) :
    ((Operation.checkedChange q b).perform t).data = t.data ↔
      ∀ info ∈ t.data[q]?, info.isSelected = b := by
  constructor
  · intro h info hinfo
    have hq := getElem?_checkedChange t q q b
    rw [h, Option.mem_def.mp hinfo, Option.map_some, if_pos rfl] at hq
    rw [Option.some.inj hq]
  · intro h
    refine List.ext_getElem? fun p => ?_
    rw [getElem?_checkedChange]
    cases hp : t.data[p]? with
    | none => rfl
    | some info =>
      rw [Option.map_some]
      split_ifs with hq
      · subst hq
        rw [← h info hp]
      · rfl

theorem checkedChange_stored (t : Screen) (q : ℕ) (b : Bool) :
    storedSelectAll ((Operation.checkedChange q b).perform t).store =
      (b && checkSelectAll ((Operation.checkedChange q b).perform t).data) := by
  refine (storedSelectAll_save _ _).trans ?_
  cases b <;> rfl

theorem checkSelectAll_of_not (h : appInfo ∈ s.screen.data) (hno : appInfo.isSelected = false) :
    checkSelectAll s.screen.data = false := by
  rw [checkSelectAll, List.all_eq_false]
  exact ⟨appInfo, h, by simp [hno]⟩

/-! ## The steps -/

/-- The screen after `setChecked`. -/
theorem setChecked_screen (s : Rows) (i : ℕ) (holder : Holder) (b : Bool) :
    (holder.checked = b ∨ holder.listener = none) ∧ (s.setChecked i holder b).screen = s.screen ∨
      ∃ old, holder.listener = some old ∧ holder.checked ≠ b ∧
        (s.setChecked i holder b).screen = (Operation.checkedChange old b).perform s.screen := by
  rw [Rows.setChecked]
  by_cases hc : holder.checked = b
  · rw [if_pos hc]
    exact .inl ⟨.inl hc, rfl⟩
  · rw [if_neg hc]
    cases hl : holder.listener with
    | none => exact .inl ⟨.inr rfl, rfl⟩
    | some old => exact .inr ⟨old, rfl, hc, rfl⟩

/-- A bound holder: the old listener is called or the screen stays. -/
theorem step_bind (hi : s.holders[i]? = some holder) (hp : s.screen.data[position]? = some appInfo) :
    (s.step (.onBindViewHolder i position)).screen =
      (s.setChecked i holder appInfo.isSelected).screen := by
  rw [Rows.step, hi, hp]
  rfl

theorem step_bind_of_none (h : s.holders[i]? = none ∨ s.screen.data[position]? = none) :
    s.step (.onBindViewHolder i position) = s := by
  rw [Rows.step]
  rcases h with h | h
  · rw [h]
  · rw [h]
    cases s.holders[i]? <;> rfl

/-- The old listener leaves the selection and the flag iff it says nothing new. -/
theorem checkedChange_keeps_iff (h : appInfo ∈ s.screen.data) (old : ℕ) :
    (((Operation.checkedChange old appInfo.isSelected).perform s.screen).data = s.screen.data ∧
        storedSelectAll ((Operation.checkedChange old appInfo.isSelected).perform s.screen).store =
          storedSelectAll s.screen.store) ↔
      (∀ oldInfo ∈ s.screen.data[old]?, oldInfo.isSelected = appInfo.isSelected) ∧
        storedSelectAll s.screen.store = checkSelectAll s.screen.data := by
  rw [← checkedChange_data_iff, checkedChange_stored]
  refine and_congr_right fun hdata => ?_
  rw [hdata]
  have hall : (appInfo.isSelected && checkSelectAll s.screen.data) = checkSelectAll s.screen.data := by
    cases hb : appInfo.isSelected with
    | true => rfl
    | false => exact (checkSelectAll_of_not h hb).symm
  rw [hall, eq_comm]

/-- Binding keeps the selection iff the old listener says nothing new. -/
theorem bind_keeps_iff :
    KeepsSelection s (.onBindViewHolder i position) ↔ Quiet s (.onBindViewHolder i position) := by
  cases hi : s.holders[i]? with
  | none =>
    refine iff_of_true ?_ (by simp [Quiet, hi])
    rw [KeepsSelection, step_bind_of_none (.inl hi)]
    exact ⟨rfl, rfl⟩
  | some holder =>
    cases hp : s.screen.data[position]? with
    | none =>
      refine iff_of_true ?_ (by simp [Quiet, hp])
      rw [KeepsSelection, step_bind_of_none (.inr hp)]
      exact ⟨rfl, rfl⟩
    | some appInfo =>
      rw [KeepsSelection, step_bind hi hp]
      rcases setChecked_screen s i holder appInfo.isSelected with ⟨hsame, hscreen⟩ | ⟨old, hl, hc, hscreen⟩
      · rw [hscreen]
        refine iff_of_true ⟨rfl, rfl⟩ ?_
        simp only [Quiet, hi, hp, Option.mem_def, Option.some.injEq, forall_eq']
        intro old hl
        exact .inl (hsame.resolve_right (by simp [hl]))
      · rw [hscreen, checkedChange_keeps_iff (List.mem_of_getElem? hp)]
        simp only [Quiet, hi, hp, hl, Option.mem_def, Option.some.injEq, forall_eq', hc, false_or]

theorem keeps_iff_quiet (s : Rows) (e : Step) : KeepsSelection s e ↔ Quiet s e := by
  cases e with
  | onCreateViewHolder => exact iff_of_true ⟨rfl, rfl⟩ trivial
  | onBindViewHolder i position => exact bind_keeps_iff
  | toggle i =>
    refine iff_of_true (fun position hother => ?_) trivial
    rw [Rows.step]
    cases hi : s.holders[i]? with
    | none => rfl
    | some holder =>
      dsimp only
      split_ifs
      · rcases setChecked_screen s i holder (!holder.checked) with ⟨-, hscreen⟩ | ⟨old, hl, -, hscreen⟩
        · rw [hscreen]
        · have hne : old ≠ position := fun heq => hother holder hi (heq ▸ hl)
          rw [hscreen, getElem?_checkedChange]
          simp [hne]
      · rfl
  | clickSelectAll => exact iff_of_true trivial trivial

end

/-! ## Runs -/

theorem chosen_append (position : ℕ) (initial : Bool) (cs ds : List Choice) :
    chosen position initial (cs ++ ds) = chosen position (chosen position initial cs) ds := by
  rw [chosen, chosen, chosen, List.filterMap_append, List.getLast?_append]
  cases (ds.filterMap (Choice.value position)).getLast? <;> rfl

/-- A step gives an app the value that the user chose, if any. -/
theorem step_chosen {s : Rows} {e : Step} (he : Quiet s e) {position : ℕ} {appInfo : AppInfo}
    (h : s.screen.data[position]? = some appInfo) :
    ((s.step e).screen.data[position]?).map AppInfo.isSelected =
      some (chosen position appInfo.isSelected (s.choice e).toList) := by
  cases e with
  | onCreateViewHolder => simp [Rows.step, h, Rows.choice, chosen]
  | onBindViewHolder i p =>
    rw [(bind_keeps_iff.mpr he).1, h]
    rfl
  | toggle i =>
    rw [Rows.step, Rows.choice]
    cases hi : s.holders[i]? with
    | none => simp [h, chosen]
    | some holder =>
      cases hl : holder.listener with
      | none => simp [hl, h, chosen]
      | some old =>
        have hscreen : (s.setChecked i holder (!holder.checked)).screen =
            (Operation.checkedChange old (!holder.checked)).perform s.screen := by
          simp [Rows.setChecked, hl]
        simp only [hl, Option.isSome_some, if_true, hscreen, getElem?_checkedChange, h, Option.map_some,
          Option.bind_some, Option.toList_some, chosen]
        by_cases hp : old = position
        · simp [hp, Choice.value]
        · simp [hp, Choice.value]
  | clickSelectAll =>
    simp [Rows.step, Operation.perform, h, Rows.choice, chosen, Choice.value]

theorem selectionChosen_of_quiet : ∀ (es : List Step) (s : Rows),
    Along Rows.step Quiet s es → SelectionChosen s es
  | [], s, _ => fun position appInfo h => by simp [h, choices, chosen]
  | e :: es, s, ⟨he, hrest⟩ => by
    intro position appInfo h
    have hstep := step_chosen he h
    obtain ⟨info, hinfo, hvalue⟩ := Option.map_eq_some_iff.mp hstep
    rw [run_cons, selectionChosen_of_quiet es _ hrest position info hinfo, hvalue, choices,
      chosen_append]

/-- **Scrolling and the selection.**  In a run the selection changes by the user only, and ends as the user
chose it, iff no holder is bound whose old listener says something new. -/
theorem rows_selection_iff (s : Rows) (es : List Step) :
    Along Rows.step KeepsSelection s es ∧ SelectionChosen s es ↔ Along Rows.step Quiet s es := by
  have hiff : Along Rows.step KeepsSelection s es ↔ Along Rows.step Quiet s es :=
    along_congr (I := fun _ => True) (fun s e _ => keeps_iff_quiet s e) (fun _ _ _ _ => trivial) es s
      trivial
  rw [hiff]
  exact ⟨And.left, fun h => ⟨h, selectionChosen_of_quiet es s h⟩⟩

/-- Two apps, all selected. -/
def freshRows : Rows := ⟨onCreate twoApps DefaultDataStore.empty, []⟩

/-- The first app is taken out; then its holder shows the second one, and the first app is selected again. -/
theorem scrolling_selects :
    ¬ Along Rows.step KeepsSelection freshRows
        [.onCreateViewHolder, .onBindViewHolder 0 0, .toggle 0, .onBindViewHolder 0 1] ∧
      (run Rows.step freshRows [.onCreateViewHolder, .onBindViewHolder 0 0, .toggle 0]).screen.data.map
        AppInfo.isSelected = [false, true] ∧
      (run Rows.step freshRows [.onCreateViewHolder, .onBindViewHolder 0 0, .toggle 0,
        .onBindViewHolder 0 1]).screen.data.map AppInfo.isSelected = [true, true] := by
  have hbefore : (run Rows.step freshRows [.onCreateViewHolder, .onBindViewHolder 0 0,
      .toggle 0]).screen.data.map AppInfo.isSelected = [false, true] := by decide +kernel
  have hafter : (run Rows.step freshRows [.onCreateViewHolder, .onBindViewHolder 0 0, .toggle 0,
      .onBindViewHolder 0 1]).screen.data.map AppInfo.isSelected = [true, true] := by decide +kernel
  refine ⟨fun ⟨_, _, _, hbind, _⟩ => ?_, hbefore, hafter⟩
  have hsame := congrArg (List.map AppInfo.isSelected) hbind.1
  exact absurd ((hafter.symm.trans hsame).trans hbefore) (by decide)

/-! ## After a click on the box for all -/

/-- All apps have the value of the stored flag. -/
def Uniform (s : Rows) : Prop :=
  ∀ info ∈ s.screen.data, info.isSelected = storedSelectAll s.screen.store

theorem Uniform.quiet {s : Rows} (h : Uniform s) (i position : ℕ) :
    Quiet s (.onBindViewHolder i position) := by
  intro holder _ old _ appInfo happ
  have hmem : appInfo ∈ s.screen.data := List.mem_of_getElem? happ
  refine .inr ⟨fun oldInfo hold => (h oldInfo (List.mem_of_getElem? hold)).trans (h appInfo hmem).symm, ?_⟩
  cases hb : storedSelectAll s.screen.store with
  | true =>
    rw [checkSelectAll, eq_comm, List.all_eq_true]
    exact fun info hinfo => (h info hinfo).trans hb
  | false => exact (checkSelectAll_of_not hmem ((h appInfo hmem).trans hb)).symm

/-- The holders are bound again without a change, to whatever rows. -/
theorem quiet_after_click (s : Rows) (binds : List (ℕ × ℕ)) :
    Along Rows.step Quiet (s.step .clickSelectAll)
      (binds.map fun b => .onBindViewHolder b.1 b.2) := by
  have hrun : ∀ (binds : List (ℕ × ℕ)) (s : Rows), Uniform s →
      Along Rows.step Quiet s (binds.map fun b => .onBindViewHolder b.1 b.2) := by
    intro binds
    induction binds with
    | nil => exact fun _ _ => trivial
    | cons b binds ih =>
      intro s h
      obtain ⟨hdata, hstored⟩ := bind_keeps_iff.mpr (h.quiet b.1 b.2)
      refine ⟨h.quiet b.1 b.2, ih _ ?_⟩
      rw [Uniform, hdata, hstored]
      exact h
  refine hrun binds _ fun info hinfo => ?_
  obtain ⟨old, -, rfl⟩ := List.mem_map.mp hinfo
  exact (storedSelectAll_save _ _).symm

end VpnCore.Apps
