import Mathlib.Data.List.Basic

/-!
# VpnCore.Lib.Cbc — chained blocks

A step turns a block into another one and says what the next step gets.  In cipher block chaining this is
the ciphertext, so that decryption, which has it as input, follows the same chain.
-/

namespace VpnCore.Lib

variable {B : Type*}

def chain (f : B → B → B × B) : B → List B → List B
  | _, [] => []
  | iv, b :: bs => (f iv b).1 :: chain f (f iv b).2 bs

theorem length_chain (f : B → B → B × B) : ∀ (iv : B) (bs : List B),
    (chain f iv bs).length = bs.length
  | _, [] => rfl
  | _, _ :: bs => congrArg Nat.succ (length_chain f _ bs)

/-- **A chain is inverted by steps that give the block back and hand on the same value.** -/
theorem chain_chain {f g : B → B → B × B} (h : ∀ iv b, g iv (f iv b).1 = (b, (f iv b).2)) :
    ∀ (iv : B) (bs : List B), chain g iv (chain f iv bs) = bs
  | _, [] => rfl
  | iv, b :: bs => by rw [chain, chain, h, chain_chain h]

end VpnCore.Lib
