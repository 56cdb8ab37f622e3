import Mathlib.Tactic

/-!
# VpnCore.Lib.Codec — writers and readers of a byte buffer

A writer appends to a buffer with a limited capacity, a reader takes from the front of one; both may
throw.  `Writes` and `Reads` say which bytes they write or read; the rules follow the way they are
composed, so that a reader that mirrors a writer is checked against it piece by piece.
-/

namespace VpnCore.Lib

section

variable {β ε α γ : Type}

/-- If the writer ends, it has appended `bs`, and that was within the capacity. -/
def Writes (capacity : ℕ) (p : StateT (List β) (Except ε) Unit) (bs : List β) : Prop :=
  ∀ buf r, buf.length ≤ capacity → p.run buf = .ok r →
    r = ((), buf ++ bs) ∧ (buf ++ bs).length ≤ capacity

/-- On a buffer that begins with `bs` the reader takes them and returns `a`. -/
def Reads (p : StateT (List β) (Except ε) α) (bs : List β) (a : α) : Prop :=
  ∀ rest, p.run (bs ++ rest) = .ok (a, rest)

/-- `put`, which throws if there is no room. -/
def putBytes (capacity : ℕ) (overflow : ε) (bs : List β) : StateT (List β) (Except ε) Unit :=
  fun buf => if capacity < (buf ++ bs).length then .error overflow else .ok ((), buf ++ bs)

/-- `get`, which throws if there are not enough bytes. -/
def getBytes (underflow : ε) (n : ℕ) : StateT (List β) (Except ε) (List β) :=
  fun buf => if buf.length < n then .error underflow else .ok (buf.take n, buf.drop n)

/-- Where two steps end without an exception, both do. -/
theorem run_bind_eq_ok {σ : Type} {p : StateT σ (Except ε) α} {f : α → StateT σ (Except ε) γ} {s : σ}
    {r : γ × σ} (h : (p >>= f).run s = .ok r) :
    ∃ a t, p.run s = .ok (a, t) ∧ (f a).run t = .ok r := by
  rw [StateT.run_bind] at h
  rcases hrun : p.run s with e | ⟨a, t⟩ <;> rw [hrun] at h
  · cases h
  · exact ⟨a, t, rfl, h⟩

variable {capacity : ℕ}

theorem writes_putBytes (overflow : ε) (bs : List β) :
    Writes capacity (putBytes capacity overflow bs) bs := by
  intro buf r _ h
  change (if _ then _ else _) = _ at h
  split_ifs at h with hfits
  obtain rfl := Except.ok.inj h
  exact ⟨rfl, Nat.not_lt.1 hfits⟩

theorem writes_throw (e : ε) (bs : List β) :
    Writes capacity (throw e : StateT (List β) (Except ε) Unit) bs := by
  intro buf r _ h
  cases h

theorem writes_pure : Writes capacity (pure () : StateT (List β) (Except ε) Unit) [] := by
  intro buf r hbuf h
  obtain rfl := Except.ok.inj h
  rw [List.append_nil]
  exact ⟨rfl, hbuf⟩

theorem Writes.bind {p q : StateT (List β) (Except ε) Unit} {bs bs' : List β}
    (hp : Writes capacity p bs) (hq : Writes capacity q bs') :
    Writes capacity (p >>= fun _ => q) (bs ++ bs') := by
  intro buf r hbuf h
  obtain ⟨⟨⟩, t, hrun, h⟩ := run_bind_eq_ok h
  obtain ⟨hpair, hfits⟩ := hp buf _ hbuf hrun
  obtain rfl := (Prod.mk.inj hpair).2
  rw [← List.append_assoc]
  exact hq _ r hfits h

theorem writes_forM {f : γ → StateT (List β) (Except ε) Unit} {g : γ → List β}
    (h : ∀ x, Writes capacity (f x) (g x)) :
    ∀ l : List γ, Writes capacity (l.forM f) (l.flatMap g)
  | [] => writes_pure
  | x :: l => (h x).bind (writes_forM h l)

/-- The whole buffer is read. -/
theorem Reads.run_eq {p : StateT (List β) (Except ε) α} {bs : List β} {a : α} (h : Reads p bs a) :
    p.run bs = .ok (a, []) := by
  have hrun := h []
  rwa [List.append_nil] at hrun

theorem reads_pure (a : α) : Reads (pure a : StateT (List β) (Except ε) α) [] a :=
  fun _ => rfl

theorem reads_getBytes (underflow : ε) (bs : List β) :
    Reads (getBytes underflow bs.length) bs bs := by
  intro rest
  change (if _ then _ else _) = _
  rw [if_neg (by rw [List.length_append]; omega), List.take_left, List.drop_left]

theorem length_of_getBytes {underflow : ε} {n : ℕ} {buf bs rest : List β}
    (h : (getBytes underflow n).run buf = .ok (bs, rest)) : bs.length = n := by
  change (if _ then _ else _) = _ at h
  split_ifs at h with hshort
  obtain ⟨rfl, -⟩ := Prod.mk.inj (Except.ok.inj h)
  rw [List.length_take]
  omega

theorem Reads.bind {p : StateT (List β) (Except ε) α} {f : α → StateT (List β) (Except ε) γ}
    {bs bs' : List β} {a : α} {c : γ} (hp : Reads p bs a) (hf : Reads (f a) bs' c) :
    Reads (p >>= f) (bs ++ bs') c := by
  intro rest
  rw [StateT.run_bind, List.append_assoc, hp]
  exact hf rest

theorem Reads.map {p : StateT (List β) (Except ε) α} {bs : List β} {a : α} (hp : Reads p bs a)
    (f : α → γ) : Reads (f <$> p) bs (f a) := by
  intro rest
  rw [StateT.run_map, hp]
  rfl

end

/-! ## Numbers -/

/-- The last `w` bytes of a number, the most significant first. -/
def numberBytes : ℕ → ℕ → List UInt8
  | 0, _ => []
  | w + 1, n => numberBytes w (n / 256) ++ [UInt8.ofNat n]

/-- The number with these bytes. -/
def bytesNumber (bs : List UInt8) : ℕ := bs.foldl (fun n b => n * 256 + b.toNat) 0

theorem length_numberBytes : ∀ w n, (numberBytes w n).length = w
  | 0, _ => rfl
  | w + 1, n => by rw [numberBytes, List.length_append, length_numberBytes, List.length_singleton]

theorem bytesNumber_numberBytes : ∀ w n, n < 256 ^ w → bytesNumber (numberBytes w n) = n
  | 0, n, h => by
    rw [Nat.pow_zero, Nat.lt_one_iff] at h
    rw [h]
    rfl
  | w + 1, n, h => by
    have hdiv : n / 256 < 256 ^ w := by
      rw [Nat.div_lt_iff_lt_mul (by decide)]
      rwa [Nat.pow_succ] at h
    have ih := bytesNumber_numberBytes w (n / 256) hdiv
    unfold bytesNumber at ih ⊢
    rw [numberBytes, List.foldl_append, ih, List.foldl_cons, List.foldl_nil, UInt8.toNat_ofNat']
    exact Nat.div_add_mod' n 256

theorem bytesNumber_lt (bs : List UInt8) : bytesNumber bs < 256 ^ bs.length := by
  induction bs using List.reverseRecOn with
  | nil => exact Nat.one_pos
  | append_singleton bs b ih =>
    have hb := b.toNat_lt
    unfold bytesNumber at ih ⊢
    rw [List.foldl_append, List.foldl_cons, List.foldl_nil, List.length_append, List.length_singleton,
      Nat.pow_succ]
    omega

theorem numberBytes_one (n : ℕ) : numberBytes 1 n = [UInt8.ofNat n] := rfl

theorem numberBytes_add (v n : ℕ) : ∀ w, numberBytes (v + w) n = numberBytes v (n / 256 ^ w) ++ numberBytes w n
  | 0 => by rw [Nat.pow_zero, Nat.div_one, numberBytes, List.append_nil, Nat.add_zero]
  | w + 1 => by
    rw [← Nat.add_assoc, numberBytes, numberBytes_add v (n / 256) w, numberBytes, Nat.div_div_eq_div_mul,
      ← Nat.pow_succ', List.append_assoc]

/-- Only the last bytes matter. -/
theorem numberBytes_mod (n : ℕ) : ∀ w, numberBytes w (n % 256 ^ w) = numberBytes w n
  | 0 => rfl
  | w + 1 => by
    have hbyte : UInt8.ofNat (n % 256 ^ (w + 1)) = UInt8.ofNat n := by
      rw [← UInt8.toNat_inj, UInt8.toNat_ofNat', UInt8.toNat_ofNat', Nat.pow_succ']
      exact Nat.mod_mul_right_mod n 256 (256 ^ w)
    rw [numberBytes, numberBytes, hbyte, Nat.pow_succ', Nat.mod_mul_right_div_self, numberBytes_mod _ w]

/-- A number extended by its sign keeps its bits. -/
theorem toNat_signExtend_mod {w v : ℕ} (h : w ≤ v) (x : BitVec w) :
    (x.signExtend v).toNat % 2 ^ w = x.toNat := by
  have hx := x.isLt
  rw [BitVec.toNat_signExtend, BitVec.toNat_setWidth_of_le h]
  split_ifs
  · obtain ⟨k, hk⟩ := Nat.pow_dvd_pow 2 h
    have hsub : 2 ^ v - 2 ^ w = 2 ^ w * (k - 1) := by rw [hk, Nat.mul_sub, Nat.mul_one]
    rw [hsub, Nat.add_mul_mod_self_left, Nat.mod_eq_of_lt hx]
  · rw [Nat.add_zero, Nat.mod_eq_of_lt hx]

/-- The mask of its width undoes the extension. -/
theorem toNat_signExtend_and {w v : ℕ} (h : w ≤ v) (x : BitVec w) (mask : BitVec v)
    (hmask : mask.toNat = 2 ^ w - 1) : (x.signExtend v &&& mask).toNat = x.toNat := by
  rw [BitVec.toNat_and, hmask, Nat.and_two_pow_sub_one_eq_mod, toNat_signExtend_mod h]

/-- `getChar`, `getInt` and `getLong` as numbers without a sign. -/
def getNumber {ε : Type} (underflow : ε) (w : ℕ) : StateT (List UInt8) (Except ε) ℕ :=
  bytesNumber <$> getBytes underflow w

theorem reads_getNumber {ε : Type} (underflow : ε) {w n : ℕ} (h : n < 256 ^ w) :
    Reads (getNumber underflow w) (numberBytes w n) n := by
  have hread := (reads_getBytes underflow (numberBytes w n)).map bytesNumber
  rwa [bytesNumber_numberBytes w n h, length_numberBytes] at hread

/-- A number has at most the bytes that are read. -/
theorem lt_of_getNumber {ε : Type} {underflow : ε} {w n : ℕ} {buf rest : List UInt8}
    (h : (getNumber underflow w).run buf = .ok (n, rest)) : n < 256 ^ w := by
  rw [getNumber, map_eq_pure_bind] at h
  obtain ⟨bs, t, hbytes, h⟩ := run_bind_eq_ok h
  obtain ⟨rfl, -⟩ := Prod.mk.inj (Except.ok.inj h)
  rw [← length_of_getBytes hbytes]
  exact bytesNumber_lt bs

end VpnCore.Lib
