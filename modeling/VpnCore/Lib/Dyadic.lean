import Mathlib.Data.Nat.Bitwise
import Mathlib.Tactic

/-!
# VpnCore.Lib.Dyadic — an interval of numbers as aligned blocks

A block of `2 ^ j` numbers is aligned if it begins at a multiple of `2 ^ j`.  The blocks of an
interval are found by climbing from both ends (`leftBlocks`, `rightBlocks`): bit by bit from the
lowest one, the right half of the enclosing block is recorded wherever the lower end lies in the left
half, and the other way round for the upper end.  The climb stops below the highest bit in which the
ends differ.  The blocks cover the interval (`mem_intervalBlocks`), each once (`nodup_intervalBlocks`), and
none can be made larger (`maximal_intervalBlocks`).  Blocks that cannot be made larger inside a set
do not meet, and no aligned blocks cover the set with fewer (`length_le_of_maximal`).
-/

namespace VpnCore.Lib

/-- The `2 ^ bits` numbers from `base` on. -/
structure Block where
  base : ℕ
  bits : ℕ
  deriving DecidableEq

/-- The number without its lowest `j` bits. -/
def clearLow (j x : ℕ) : ℕ := x / 2 ^ j * 2 ^ j

namespace Block

/-- The numbers of a block. -/
def Mem (b : Block) (x : ℕ) : Prop := b.base ≤ x ∧ x < b.base + 2 ^ b.bits

/-- The base is a multiple of the size. -/
def Aligned (b : Block) : Prop := 2 ^ b.bits ∣ b.base

/-- The aligned block of twice the size. -/
def parent (b : Block) : Block := ⟨clearLow (b.bits + 1) b.base, b.bits + 1⟩

end Block

variable {j x y F T J : ℕ} {b : Block}

theorem clearLow_le (j x : ℕ) : clearLow j x ≤ x := Nat.div_mul_le_self x (2 ^ j)

theorem lt_clearLow_add (j x : ℕ) : x < clearLow j x + 2 ^ j := by
  have := Nat.lt_div_mul_add (a := x) (Nat.two_pow_pos j)
  exact this

theorem clearLow_eq_iff : clearLow j x = clearLow j y ↔ x / 2 ^ j = y / 2 ^ j :=
  Nat.mul_left_inj (Nat.two_pow_pos j).ne'

theorem dvd_clearLow (j x : ℕ) : 2 ^ j ∣ clearLow j x := Dvd.intro_left (x / 2 ^ j) rfl

/-- An aligned block has the numbers with the same upper bits. -/
theorem mem_iff_clearLow (h : b.Aligned) : b.Mem x ↔ clearLow b.bits x = b.base := by
  obtain ⟨q, hq⟩ := h
  have hpos := Nat.two_pow_pos b.bits
  unfold Block.Mem
  rw [hq]
  constructor
  · rintro ⟨h1, h2⟩
    have hdiv : x / 2 ^ b.bits = q := by
      refine Nat.div_eq_of_lt_le (by rwa [Nat.mul_comm]) ?_
      rw [Nat.add_mul, Nat.one_mul, Nat.mul_comm]
      exact h2
    rw [clearLow, hdiv, Nat.mul_comm]
  · intro hx
    rw [← hx]
    exact ⟨clearLow_le _ _, lt_clearLow_add _ _⟩

theorem clearLow_eq (hd : 2 ^ j ∣ y) (h1 : y ≤ x) (h2 : x < y + 2 ^ j) : clearLow j x = y :=
  (mem_iff_clearLow (b := ⟨y, j⟩) hd).mp ⟨h1, h2⟩

/-- One bit more. -/
theorem clearLow_succ (j x : ℕ) :
    clearLow j x = clearLow (j + 1) x + if x.testBit j then 2 ^ j else 0 := by
  have hdiv : x / 2 ^ (j + 1) = x / 2 ^ j / 2 := by rw [pow_succ, Nat.div_div_eq_div_mul]
  unfold clearLow
  rw [hdiv, Nat.testBit_eq_decide_div_mod_eq, pow_succ]
  generalize x / 2 ^ j = q
  have hq : q = q / 2 * 2 + q % 2 := (Nat.div_add_mod' q 2).symm
  generalize q / 2 = r at hq ⊢
  by_cases hbit : q % 2 = 1
  · simp only [hbit, decide_true, if_true]
    rw [hq, hbit]
    ring
  · have h0 : q % 2 = 0 := by omega
    simp only [hbit, decide_false, Bool.false_eq_true, if_false]
    rw [hq, h0]
    ring

theorem clearLow_clearLow {i j : ℕ} (h : i ≤ j) (x : ℕ) : clearLow j (clearLow i x) = clearLow j x := by
  obtain ⟨k, rfl⟩ := Nat.exists_eq_add_of_le h
  unfold clearLow
  have hdiv : x / 2 ^ i * 2 ^ i / 2 ^ (i + k) = x / 2 ^ (i + k) := by
    rw [pow_add, ← Nat.div_div_eq_div_mul, Nat.mul_div_cancel _ (Nat.two_pow_pos i),
      Nat.div_div_eq_div_mul]
  rw [hdiv]

/-- What agrees above the bit `i` agrees above every higher one. -/
theorem clearLow_mono {i j : ℕ} (h : i ≤ j) (hxy : clearLow i x = clearLow i y) :
    clearLow j x = clearLow j y := by
  rw [← clearLow_clearLow h x, hxy, clearLow_clearLow h]

/-- The lowest `j` bits are zero. -/
theorem clearLow_eq_self (j x : ℕ) : clearLow j x = x ↔ ∀ i < j, x.testBit i = false := by
  induction j with
  | zero => simp [clearLow]
  | succ j ih =>
    have hsucc := clearLow_succ j x
    have hle := clearLow_le (j + 1) x
    have hle' := clearLow_le j x
    have hpos := Nat.two_pow_pos j
    rw [Nat.forall_lt_succ_right, ← ih]
    cases hbit : x.testBit j <;> simp only [hbit, if_true, Bool.false_eq_true, if_false] at hsucc
    · exact ⟨fun h => ⟨by omega, rfl⟩, fun h => by omega⟩
    · exact ⟨fun h => by omega, fun h => absurd h.2 (by decide)⟩

/-- The lowest `j` bits are one. -/
theorem add_one_eq_clearLow (j x : ℕ) :
    x + 1 = clearLow j x + 2 ^ j ↔ ∀ i < j, x.testBit i = true := by
  induction j with
  | zero => simp [clearLow]
  | succ j ih =>
    have hsucc := clearLow_succ j x
    have hlt := lt_clearLow_add j x
    have hpow : 2 ^ (j + 1) = 2 * 2 ^ j := by rw [pow_succ, Nat.mul_comm]
    have hpos := Nat.two_pow_pos j
    rw [Nat.forall_lt_succ_right, ← ih]
    cases hbit : x.testBit j <;> simp only [hbit, if_true, Bool.false_eq_true, if_false] at hsucc
    · exact ⟨fun h => by omega, fun h => absurd h.2 (by decide)⟩
    · exact ⟨fun h => ⟨by omega, rfl⟩, fun h => by omega⟩

theorem testBit_clearLow (j x : ℕ) : (clearLow j x).testBit j = x.testBit j := by
  rw [clearLow, Nat.mul_comm, Nat.testBit_two_pow_mul]
  simp [Nat.testBit_eq_decide_div_mod_eq]

/-! ## The climb from the lower end -/

/-- Whether a bit of `F` below `j` is set, and the blocks recorded below `j`. -/
def leftBlocks (F : ℕ) : ℕ → Bool × List Block
  | 0 => (false, [])
  | j + 1 =>
    let (prev, blocks) := leftBlocks F j
    if !prev && F.testBit j then (true, blocks ++ [⟨clearLow j F, j⟩])
    else if prev && !F.testBit j then (true, blocks ++ [⟨clearLow j F + 2 ^ j, j⟩])
    else (prev, blocks)

/-- What the climb has recorded below `j`: from `F` to the end of its block of `2 ^ j` numbers. -/
structure Left (F j : ℕ) (prev : Bool) (blocks : List Block) : Prop where
  full : prev = false → clearLow j F = F ∧ blocks = []
  part : prev = true → clearLow j F < F ∧
    ∀ x, (∃ b ∈ blocks, b.Mem x) ↔ F ≤ x ∧ x < clearLow j F + 2 ^ j
  maximal : ∀ b ∈ blocks, b.Aligned ∧ b.parent.base < F

theorem exists_mem_append {p : Block → Prop} {l : List Block} {c : Block} :
    (∃ b ∈ l ++ [c], p b) ↔ (∃ b ∈ l, p b) ∨ p c := by
  constructor
  · rintro ⟨b, hb, hp⟩
    rcases List.mem_append.mp hb with hb | hb
    · exact .inl ⟨b, hb, hp⟩
    · exact .inr (List.mem_singleton.mp hb ▸ hp)
  · rintro (⟨b, hb, hp⟩ | hp)
    · exact ⟨b, List.mem_append_left _ hb, hp⟩
    · exact ⟨c, by simp, hp⟩

theorem forall_mem_append {p : Block → Prop} {l : List Block} {c : Block} (h : ∀ b ∈ l, p b)
    (hc : p c) : ∀ b ∈ l ++ [c], p b := by
  intro b hb
  rcases List.mem_append.mp hb with hb | hb
  · exact h b hb
  · exact List.mem_singleton.mp hb ▸ hc

theorem left_leftBlocks (F : ℕ) : ∀ j, Left F j (leftBlocks F j).1 (leftBlocks F j).2
  | 0 => ⟨fun _ => ⟨by simp [clearLow], rfl⟩, fun h => (by cases h), fun b hb => (by cases hb)⟩
  | j + 1 => by
    obtain ⟨hfull, hpart, hmax⟩ := left_leftBlocks F j
    have hsucc := clearLow_succ j F
    have hpow : 2 ^ (j + 1) = 2 * 2 ^ j := by rw [pow_succ, Nat.mul_comm]
    have hpos := Nat.two_pow_pos j
    rw [leftBlocks]
    rcases hl : leftBlocks F j with ⟨prev, blocks⟩
    rw [hl] at hfull hpart hmax
    dsimp only at hfull hpart hmax ⊢
    cases prev with
    | false =>
      obtain ⟨hF, rfl⟩ := hfull rfl
      cases hbit : F.testBit j with
      | false =>
        rw [hbit] at hsucc
        simp only [Bool.false_eq_true, if_false, Nat.add_zero] at hsucc
        simp only [Bool.not_false, Bool.true_and, Bool.false_eq_true, if_false, Bool.false_and]
        exact ⟨fun _ => ⟨by omega, rfl⟩, fun h => (by cases h), by simp⟩
      | true =>
        -- the lower end is the right half of the next block
        rw [hbit] at hsucc
        simp only [if_true] at hsucc
        simp only [Bool.not_false, Bool.true_and, if_true, List.nil_append]
        refine ⟨fun h => (by cases h), fun _ => ⟨by omega, fun x => ?_⟩, ?_⟩
        · simp only [List.mem_singleton, exists_eq_left, Block.Mem]
          omega
        · intro b hb
          obtain rfl := List.mem_singleton.mp hb
          refine ⟨dvd_clearLow j F, ?_⟩
          change clearLow (j + 1) (clearLow j F) < F
          rw [clearLow_clearLow (Nat.le_add_right j 1)]
          omega
    | true =>
      obtain ⟨hlt, hcover⟩ := hpart rfl
      cases hbit : F.testBit j with
      | false =>
        -- the right half of the next block is recorded
        rw [hbit] at hsucc
        simp only [Bool.false_eq_true, if_false, Nat.add_zero] at hsucc
        simp only [Bool.not_true, Bool.false_and, Bool.false_eq_true, if_false, Bool.not_false,
          Bool.true_and, if_true]
        have hF := lt_clearLow_add j F
        refine ⟨fun h => (by cases h), fun _ => ⟨by omega, fun x => ?_⟩, ?_⟩
        · rw [exists_mem_append, hcover]
          simp only [Block.Mem]
          omega
        · refine forall_mem_append hmax ⟨?_, ?_⟩
          · exact Nat.dvd_add (dvd_clearLow j F) (dvd_refl _)
          · change clearLow (j + 1) (clearLow j F + 2 ^ j) < F
            rw [clearLow_eq (dvd_clearLow (j + 1) F) (by omega) (by omega)]
            omega
      | true =>
        rw [hbit] at hsucc
        simp only [if_true] at hsucc
        simp only [Bool.not_true, Bool.false_and, Bool.false_eq_true, if_false, Bool.and_false]
        refine ⟨fun h => (by cases h), fun _ => ⟨by omega, fun x => ?_⟩, hmax⟩
        rw [hcover]
        omega

/-! ## The climb from the upper end -/

/-- Whether all bits of `T` below `j` are set, and the blocks recorded below `j`. -/
def rightBlocks (T : ℕ) : ℕ → Bool × List Block
  | 0 => (true, [])
  | j + 1 =>
    let (prev, blocks) := rightBlocks T j
    if prev && !T.testBit j then (false, blocks ++ [⟨clearLow j T, j⟩])
    else if !prev && T.testBit j then (false, blocks ++ [⟨clearLow j T - 2 ^ j, j⟩])
    else (prev, blocks)

/-- What the climb has recorded below `j`: from the beginning of the block of `2 ^ j` numbers of `T`
to `T`. -/
structure Right (T j : ℕ) (prev : Bool) (blocks : List Block) : Prop where
  full : prev = true → T + 1 = clearLow j T + 2 ^ j ∧ blocks = []
  part : prev = false → T + 1 < clearLow j T + 2 ^ j ∧
    ∀ x, (∃ b ∈ blocks, b.Mem x) ↔ clearLow j T ≤ x ∧ x ≤ T
  maximal : ∀ b ∈ blocks, b.Aligned ∧ T + 1 < b.parent.base + 2 ^ b.parent.bits

theorem right_rightBlocks (T : ℕ) : ∀ j, Right T j (rightBlocks T j).1 (rightBlocks T j).2
  | 0 => ⟨fun _ => ⟨by simp [clearLow], rfl⟩, fun h => (by cases h), fun b hb => (by cases hb)⟩
  | j + 1 => by
    obtain ⟨hfull, hpart, hmax⟩ := right_rightBlocks T j
    have hsucc := clearLow_succ j T
    have hpow : 2 ^ (j + 1) = 2 * 2 ^ j := by rw [pow_succ, Nat.mul_comm]
    have hpos := Nat.two_pow_pos j
    have hT := clearLow_le j T
    rw [rightBlocks]
    rcases hr : rightBlocks T j with ⟨prev, blocks⟩
    rw [hr] at hfull hpart hmax
    dsimp only at hfull hpart hmax ⊢
    cases prev with
    | true =>
      obtain ⟨hlast, rfl⟩ := hfull rfl
      cases hbit : T.testBit j with
      | true =>
        rw [hbit] at hsucc
        simp only [if_true] at hsucc
        simp only [Bool.not_true, Bool.and_false, Bool.false_eq_true, if_false, Bool.false_and]
        exact ⟨fun _ => ⟨by omega, rfl⟩, fun h => (by cases h), by simp⟩
      | false =>
        -- the upper end is the left half of the next block
        rw [hbit] at hsucc
        simp only [Bool.false_eq_true, if_false, Nat.add_zero] at hsucc
        simp only [Bool.not_false, Bool.and_true, if_true, List.nil_append]
        refine ⟨fun h => (by cases h), fun _ => ⟨by omega, fun x => ?_⟩, ?_⟩
        · simp only [List.mem_singleton, exists_eq_left, Block.Mem]
          omega
        · intro b hb
          obtain rfl := List.mem_singleton.mp hb
          refine ⟨dvd_clearLow j T, ?_⟩
          change T + 1 < clearLow (j + 1) (clearLow j T) + 2 ^ (j + 1)
          rw [clearLow_clearLow (Nat.le_add_right j 1)]
          omega
    | false =>
      obtain ⟨hlt, hcover⟩ := hpart rfl
      cases hbit : T.testBit j with
      | true =>
        -- the left half of the next block is recorded
        rw [hbit] at hsucc
        simp only [if_true] at hsucc
        simp only [Bool.false_and, Bool.false_eq_true, if_false, Bool.not_false, Bool.true_and,
          if_true]
        have hhalf : clearLow j T - 2 ^ j = clearLow (j + 1) T := by omega
        rw [hhalf]
        refine ⟨fun h => (by cases h), fun _ => ⟨by omega, fun x => ?_⟩, ?_⟩
        · rw [exists_mem_append, hcover]
          simp only [Block.Mem]
          omega
        · refine forall_mem_append hmax ⟨?_, ?_⟩
          · exact (pow_dvd_pow 2 (Nat.le_succ j)).trans (dvd_clearLow (j + 1) T)
          · change T + 1 < clearLow (j + 1) (clearLow (j + 1) T) + 2 ^ (j + 1)
            rw [clearLow_clearLow le_rfl]
            omega
      | false =>
        rw [hbit] at hsucc
        simp only [Bool.false_eq_true, if_false, Nat.add_zero] at hsucc
        simp only [Bool.false_and, Bool.false_eq_true, if_false, Bool.and_false]
        refine ⟨fun h => (by cases h), fun _ => ⟨by omega, fun x => ?_⟩, hmax⟩
        rw [hcover]
        omega

/-! ## The interval -/

/-- The blocks of both climbs below the bit `J`, and the halves of the enclosing block that are
full. -/
def intervalBlocks (F T J : ℕ) : List Block :=
  let (left, lefts) := leftBlocks F J
  let (right, rights) := rightBlocks T J
  lefts ++ rights ++
    if !left && right then [⟨clearLow J F, J + 1⟩]
    else if !left then [⟨clearLow J F, J⟩]
    else if right then [⟨clearLow J T, J⟩]
    else []

/-- The ends lie in the two halves of an aligned block of `2 ^ (J + 1)` numbers. -/
structure Splits (F T J : ℕ) : Prop where
  common : clearLow (J + 1) F = clearLow (J + 1) T
  lower : F.testBit J = false
  upper : T.testBit J = true

theorem Splits.halves (h : Splits F T J) :
    clearLow J F = clearLow (J + 1) F ∧ clearLow J T = clearLow (J + 1) F + 2 ^ J := by
  have hF := clearLow_succ J F
  have hT := clearLow_succ J T
  rw [h.lower] at hF
  rw [h.upper] at hT
  simp only [Bool.false_eq_true, if_false, if_true, Nat.add_zero] at hF hT
  exact ⟨hF, by rw [hT, h.common]⟩

/-- **The blocks cover the interval.** -/
theorem mem_intervalBlocks (h : Splits F T J) (x : ℕ) :
    (∃ b ∈ intervalBlocks F T J, b.Mem x) ↔ F ≤ x ∧ x ≤ T := by
  obtain ⟨hF, hT⟩ := h.halves
  have hpow : 2 ^ (J + 1) = 2 * 2 ^ J := by rw [pow_succ, Nat.mul_comm]
  obtain ⟨hlfull, hlpart, -⟩ := left_leftBlocks F J
  obtain ⟨hrfull, hrpart, -⟩ := right_rightBlocks T J
  have hF1 := clearLow_le J F
  have hF2 := lt_clearLow_add J F
  have hT1 := clearLow_le J T
  have hT2 := lt_clearLow_add J T
  unfold intervalBlocks
  rcases hl : leftBlocks F J with ⟨left, lefts⟩
  rcases hr : rightBlocks T J with ⟨right, rights⟩
  rw [hl] at hlfull hlpart
  rw [hr] at hrfull hrpart
  dsimp only at hlfull hlpart hrfull hrpart ⊢
  have hsplit : ∀ {tail : List Block}, (∃ b ∈ lefts ++ rights ++ tail, b.Mem x) ↔
      (∃ b ∈ lefts, b.Mem x) ∨ (∃ b ∈ rights, b.Mem x) ∨ ∃ b ∈ tail, b.Mem x := by
    intro tail
    simp only [List.mem_append, or_and_right, exists_or, or_assoc]
  rw [hsplit]
  cases left with
  | false =>
    obtain ⟨hfull, rfl⟩ := hlfull rfl
    cases right with
    | true =>
      obtain ⟨hlast, rfl⟩ := hrfull rfl
      simp [Block.Mem]
      omega
    | false =>
      obtain ⟨-, hcover⟩ := hrpart rfl
      rw [hcover]
      simp [Block.Mem]
      omega
  | true =>
    obtain ⟨-, hcover⟩ := hlpart rfl
    rw [hcover]
    cases right with
    | true =>
      obtain ⟨hlast, rfl⟩ := hrfull rfl
      simp [Block.Mem]
      omega
    | false =>
      obtain ⟨-, hcover'⟩ := hrpart rfl
      rw [hcover']
      simp
      omega

theorem clearLow_of_dvd (h : 2 ^ j ∣ x) : clearLow j x = x := Nat.div_mul_cancel h

/-- A block whose parent begins before the interval or ends after it. -/
theorem exists_parent_mem (h : b.parent.base < F ∨ T + 1 < b.parent.base + 2 ^ b.parent.bits) :
    ∃ x, b.parent.Mem x ∧ ¬ (F ≤ x ∧ x ≤ T) := by
  have hpos := Nat.two_pow_pos b.parent.bits
  rcases h with h | h
  · exact ⟨b.parent.base, ⟨le_rfl, by omega⟩, by omega⟩
  · exact ⟨b.parent.base + 2 ^ b.parent.bits - 1, ⟨by omega, by omega⟩, by omega⟩

/-- A block that is the whole interval. -/
theorem exists_parent_mem_of_whole (h : T + 1 = b.base + 2 ^ b.bits) :
    ∃ x, b.parent.Mem x ∧ ¬ (b.base ≤ x ∧ x ≤ T) := by
  refine exists_parent_mem ?_
  have hle := clearLow_le (b.bits + 1) b.base
  have hpow : 2 ^ (b.bits + 1) = 2 * 2 ^ b.bits := by rw [pow_succ, Nat.mul_comm]
  have hpos := Nat.two_pow_pos b.bits
  change clearLow (b.bits + 1) b.base < b.base ∨
    T + 1 < clearLow (b.bits + 1) b.base + 2 ^ (b.bits + 1)
  omega

/-- **The blocks are aligned, and none can be made larger.** -/
theorem maximal_intervalBlocks (h : Splits F T J) (hb : b ∈ intervalBlocks F T J) :
    b.Aligned ∧ ∃ x, b.parent.Mem x ∧ ¬ (F ≤ x ∧ x ≤ T) := by
  obtain ⟨hF, hT⟩ := h.halves
  obtain ⟨hlfull, hlpart, hlmax⟩ := left_leftBlocks F J
  obtain ⟨hrfull, hrpart, hrmax⟩ := right_rightBlocks T J
  have hpow : 2 ^ (J + 1) = 2 * 2 ^ J := by rw [pow_succ, Nat.mul_comm]
  have hpos := Nat.two_pow_pos J
  unfold intervalBlocks at hb
  rcases hl : leftBlocks F J with ⟨left, lefts⟩
  rcases hr : rightBlocks T J with ⟨right, rights⟩
  rw [hl] at hlfull hlpart hlmax hb
  rw [hr] at hrfull hrpart hrmax hb
  dsimp only at hlfull hlpart hlmax hrfull hrpart hrmax hb
  rcases List.mem_append.mp hb with hb | hb
  · rcases List.mem_append.mp hb with hb | hb
    · exact (hlmax b hb).imp id fun h => exists_parent_mem (.inl h)
    · exact (hrmax b hb).imp id fun h => exists_parent_mem (.inr h)
  -- the halves of the enclosing block
  have hhalf : clearLow (J + 1) (clearLow J F) = clearLow (J + 1) F ∧
      clearLow (J + 1) (clearLow J T) = clearLow (J + 1) F := by
    rw [clearLow_clearLow (Nat.le_add_right J 1), clearLow_clearLow (Nat.le_add_right J 1), h.common]
    exact ⟨rfl, rfl⟩
  cases left with
  | false =>
    obtain ⟨hfull, -⟩ := hlfull rfl
    cases right with
    | true =>
      obtain ⟨hlast, -⟩ := hrfull rfl
      obtain rfl := List.mem_singleton.mp hb
      refine ⟨hF ▸ dvd_clearLow (J + 1) F, ?_⟩
      have hwhole := exists_parent_mem_of_whole (T := T) (b := ⟨clearLow J F, J + 1⟩) (by
        dsimp only
        omega)
      rwa [hfull] at hwhole ⊢
    | false =>
      obtain ⟨hlast, -⟩ := hrpart rfl
      obtain rfl := List.mem_singleton.mp hb
      refine ⟨dvd_clearLow J F, exists_parent_mem (.inr ?_)⟩
      change T + 1 < clearLow (J + 1) (clearLow J F) + 2 ^ (J + 1)
      omega
  | true =>
    obtain ⟨hfirst, -⟩ := hlpart rfl
    cases right with
    | true =>
      obtain rfl := List.mem_singleton.mp hb
      refine ⟨dvd_clearLow J T, exists_parent_mem (.inl ?_)⟩
      change clearLow (J + 1) (clearLow J T) < F
      omega
    | false => cases hb

/-! ## No block twice -/

/-- Blocks of growing size, all smaller than `2 ^ j`. -/
structure Growing (j : ℕ) (blocks : List Block) : Prop where
  pairwise : blocks.Pairwise fun b c => b.bits < c.bits
  lt : ∀ b ∈ blocks, b.bits < j

theorem Growing.succ {blocks : List Block} (h : Growing j blocks) : Growing (j + 1) blocks :=
  ⟨h.pairwise, fun b hb => Nat.lt_succ_of_lt (h.lt b hb)⟩

theorem Growing.add {blocks : List Block} (h : Growing j blocks) (hb : b.bits = j) :
    Growing (j + 1) (blocks ++ [b]) := by
  subst hb
  refine ⟨List.pairwise_append.mpr ⟨h.pairwise, List.pairwise_singleton _ _, fun c hc d hd => ?_⟩,
    forall_mem_append h.succ.lt (Nat.lt_succ_self _)⟩
  exact List.mem_singleton.mp hd ▸ h.lt c hc

theorem Growing.nodup {blocks : List Block} (h : Growing j blocks) : blocks.Nodup :=
  h.pairwise.imp fun hlt heq => hlt.ne (congrArg Block.bits heq)

theorem growing_leftBlocks (F : ℕ) : ∀ j, Growing j (leftBlocks F j).2
  | 0 => ⟨List.Pairwise.nil, by simp [leftBlocks]⟩
  | j + 1 => by
    have ih := growing_leftBlocks F j
    rw [leftBlocks]
    dsimp only
    split_ifs
    · exact ih.add rfl
    · exact ih.add rfl
    · exact ih.succ

theorem growing_rightBlocks (T : ℕ) : ∀ j, Growing j (rightBlocks T j).2
  | 0 => ⟨List.Pairwise.nil, by simp [rightBlocks]⟩
  | j + 1 => by
    have ih := growing_rightBlocks T j
    rw [rightBlocks]
    dsimp only
    split_ifs
    · exact ih.add rfl
    · exact ih.add rfl
    · exact ih.succ

theorem Block.mem_base (b : Block) : b.Mem b.base := ⟨le_rfl, by
  have := Nat.two_pow_pos b.bits
  omega⟩

/-- **No block is recorded twice.** -/
theorem nodup_intervalBlocks (h : Splits F T J) : (intervalBlocks F T J).Nodup := by
  obtain ⟨hF, hT⟩ := h.halves
  obtain ⟨hlfull, hlpart, -⟩ := left_leftBlocks F J
  obtain ⟨hrfull, hrpart, -⟩ := right_rightBlocks T J
  have hlefts := growing_leftBlocks F J
  have hrights := growing_rightBlocks T J
  unfold intervalBlocks
  rcases hl : leftBlocks F J with ⟨left, lefts⟩
  rcases hr : rightBlocks T J with ⟨right, rights⟩
  rw [hl] at hlfull hlpart hlefts
  rw [hr] at hrfull hrpart hrights
  dsimp only at hlfull hlpart hlefts hrfull hrpart hrights ⊢
  -- the blocks of the two climbs lie in the two halves
  have hsides : (lefts ++ rights).Nodup := by
    refine List.nodup_append.mpr ⟨hlefts.nodup, hrights.nodup, fun b hb c hc heq => ?_⟩
    subst heq
    cases left with
    | false =>
      rw [(hlfull rfl).2] at hb
      cases hb
    | true =>
      cases right with
      | true =>
        rw [(hrfull rfl).2] at hc
        cases hc
      | false =>
        have h1 := ((hlpart rfl).2 b.base).mp ⟨b, hb, b.mem_base⟩
        have h2 := ((hrpart rfl).2 b.base).mp ⟨b, hc, b.mem_base⟩
        omega
  -- a half is larger than all of them
  have hlast : ∀ c : Block, J ≤ c.bits → (lefts ++ rights ++ [c]).Nodup := by
    intro c hc
    refine List.nodup_append.mpr ⟨hsides, List.nodup_singleton c, fun b hb d hd heq => ?_⟩
    rw [heq, List.mem_singleton.mp hd] at hb
    rcases List.mem_append.mp hb with hb | hb
    · exact absurd (hlefts.lt c hb) (by omega)
    · exact absurd (hrights.lt c hb) (by omega)
  split_ifs
  · exact hlast _ (Nat.le_succ J)
  · exact hlast _ le_rfl
  · exact hlast _ le_rfl
  · rwa [List.append_nil]

/-! ## Covers with aligned blocks -/

/-- Aligned blocks with a number in common are nested. -/
theorem Block.Mem.mono {b c : Block} (hb : b.Aligned) (hc : c.Aligned) (hle : b.bits ≤ c.bits)
    (hxb : b.Mem x) (hxc : c.Mem x) (hy : b.Mem y) : c.Mem y := by
  rw [mem_iff_clearLow hb] at hxb hy
  rw [mem_iff_clearLow hc] at hxc ⊢
  rw [← hxc]
  exact clearLow_mono hle (hy.trans hxb.symm)

theorem Block.Mem.parent {b : Block} (hb : b.Aligned) (hx : b.Mem x) : b.parent.Mem x := by
  rw [mem_iff_clearLow (dvd_clearLow _ _)]
  rw [mem_iff_clearLow hb] at hx
  change clearLow (b.bits + 1) x = clearLow (b.bits + 1) b.base
  rw [← hx, clearLow_clearLow (Nat.le_succ _)]

/-- A block inside the set `S` that cannot be made larger. -/
structure Maximal (S : ℕ → Prop) (b : Block) : Prop where
  aligned : b.Aligned
  inside : ∀ x, b.Mem x → S x
  parent : ∃ x, b.parent.Mem x ∧ ¬ S x

variable {S : ℕ → Prop} {c : Block}

/-- An aligned block inside the set that meets a maximal one lies in it. -/
theorem Maximal.contains (hb : Maximal S b) (hc : c.Aligned) (hin : ∀ x, c.Mem x → S x)
    (hxb : b.Mem x) (hxc : c.Mem x) (hy : c.Mem y) : b.Mem y := by
  by_cases hle : c.bits ≤ b.bits
  · exact Block.Mem.mono hc hb.aligned hle hxc hxb hy
  · obtain ⟨z, hz, hnot⟩ := hb.parent
    have hzc : c.Mem z := Block.Mem.mono (b := b.parent) (dvd_clearLow _ _) hc (by
      change b.bits + 1 ≤ c.bits
      omega) (hxb.parent hb.aligned) hxc hz
    exact absurd (hin z hzc) hnot

theorem Block.eq_of_mem_iff {b c : Block} (h : ∀ x, b.Mem x ↔ c.Mem x) : b = c := by
  have hb := Nat.two_pow_pos b.bits
  have hc := Nat.two_pow_pos c.bits
  have h1 := (h b.base).mp b.mem_base
  have h2 := (h c.base).mpr c.mem_base
  have h3 := (h (b.base + 2 ^ b.bits - 1)).mp ⟨by omega, by omega⟩
  have h4 := (h (c.base + 2 ^ c.bits - 1)).mpr ⟨by omega, by omega⟩
  unfold Block.Mem at h1 h2 h3 h4
  have hbase : b.base = c.base := by omega
  have hbits : b.bits = c.bits := Nat.pow_right_injective le_rfl (by
    change 2 ^ b.bits = 2 ^ c.bits
    omega)
  cases b
  cases c
  rw [Block.mk.injEq]
  exact ⟨hbase, hbits⟩

/-- Maximal blocks do not meet. -/
theorem Maximal.eq (hb : Maximal S b) (hc : Maximal S c) (hxb : b.Mem x) (hxc : c.Mem x) : b = c :=
  Block.eq_of_mem_iff fun _ =>
    ⟨hc.contains hb.aligned hb.inside hxc hxb, hb.contains hc.aligned hc.inside hxb hxc⟩

/-- **No cover is shorter.**  Each maximal block holds a block of every other cover, and none holds the
same. -/
theorem length_le_of_maximal {l m : List Block} (hl : ∀ b ∈ l, Maximal S b) (hnodup : l.Nodup)
    (hm : ∀ c ∈ m, c.Aligned) (hcover : ∀ x, (∃ c ∈ m, c.Mem x) ↔ S x) : l.length ≤ m.length := by
  have hpick : ∀ b ∈ l, ∃ c ∈ m, c.Mem b.base := fun b hb =>
    (hcover b.base).mpr ((hl b hb).inside b.base b.mem_base)
  choose! f hf hmem using hpick
  have hsub : l.map f ⊆ m := by
    intro c hc
    obtain ⟨b, hb, rfl⟩ := List.mem_map.mp hc
    exact hf b hb
  have hinj : ∀ b ∈ l, ∀ c ∈ l, f b = f c → b = c := by
    intro b hb c hc heq
    have hin : ∀ x, (f b).Mem x → S x := fun x hx => (hcover x).mp ⟨f b, hf b hb, hx⟩
    have hx : b.Mem (f b).base :=
      (hl b hb).contains (hm _ (hf b hb)) hin b.mem_base (hmem b hb) (f b).mem_base
    have hy : c.Mem (f b).base := by
      refine (hl c hc).contains (hm _ (hf b hb)) hin c.mem_base ?_ (f b).mem_base
      rw [heq]
      exact hmem c hc
    exact (hl b hb).eq (hl c hc) hx hy
  have hmap : (l.map f).Nodup := List.Nodup.map_on hinj hnodup
  calc l.length = (l.map f).length := (List.length_map f).symm
    _ ≤ m.length := (hmap.subperm hsub).length_le

end VpnCore.Lib
