import VpnCore.Config.Strings

/-!
# VpnCore.Route.Cidr — `CIDRIP`

An IPv4 address as text, with a prefix length.
-/

namespace VpnCore.Route

open VpnCore.Config

/-- An address and a prefix length. -/
structure CIDRIP where
  mIp : Text
  len : ℤ
  deriving DecidableEq, Repr

/-- The static `getInt`.  The first part is shifted as a `long`, the others as an `int`. -/
def getInt (ipaddr : Text) : Except Thrown ℤ := do
  let ipt := split '.' ipaddr
  let a ← parseLong (← elementAt ipt 0)
  let b ← parseInt (← elementAt ipt 1)
  let c ← parseInt (← elementAt ipt 2)
  let d ← parseInt (← elementAt ipt 3)
  return wrap 64 (wrap 64 (a * 2 ^ 24) + wrap 32 (b * 2 ^ 16) + wrap 32 (c * 2 ^ 8) + d)

/-- The shift loop of `calculateLenFromMask`: the number of zeros at the end and what is left.
Every number but 0 has its lowest 1 among 64 bits. -/
def shiftOut : ℕ → ℕ → ℤ → ℕ × ℤ
  | 0, lenZeros, netmask => (lenZeros, netmask)
  | fuel + 1, lenZeros, netmask =>
    if netmask % 2 = 0 then shiftOut fuel (lenZeros + 1) (netmask / 2) else (lenZeros, netmask)

/-- The prefix length of a netmask. -/
def calculateLenFromMask (mask : Text) : Except Thrown ℤ := do
  let netmask := wrap 64 ((← getInt mask) + 2 ^ 32)
  -- the bit that is added for the loop to end may be cancelled by a negative number
  if netmask = 0 then throw .endless
  let (lenZeros, rest) := shiftOut 64 0 netmask
  return if rest ≠ 0x1ffffffff / 2 ^ lenZeros then 32 else 32 - lenZeros

/-- The constructor with a netmask. -/
def CIDRIP.ofMask (ip mask : Text) : Except Thrown CIDRIP := do
  return ⟨ip, ← calculateLenFromMask mask⟩

def CIDRIP.getInt (ip : CIDRIP) : Except Thrown ℤ := Route.getInt ip.mIp

/-- `%d.%d.%d.%d` -/
def dotted (a b c d : ℤ) : Text :=
  decimal a ++ '.' :: decimal b ++ '.' :: decimal c ++ '.' :: decimal d

/-- `newip & (0xffffffffL << (32 - len))`; a shift of a `long` is by the distance modulo 64. -/
def CIDRIP.masked (len ip : ℤ) : ℤ :=
  (BitVec.ofInt 64 ip &&& (0xffffffff#64 <<< ((32 - len) % 64).toNat)).toInt

/-- `normalise` returns whether the address changed.  `0xff000000` is a negative `int`, so that the
first part keeps every higher bit. -/
def CIDRIP.normalise (ip : CIDRIP) : Except Thrown (CIDRIP × Bool) := do
  let n ← ip.getInt
  let newip := CIDRIP.masked ip.len n
  if newip ≠ n then
    return (⟨dotted (newip / 2 ^ 24) (newip / 2 ^ 16 % 256) (newip / 2 ^ 8 % 256) (newip % 256),
      ip.len⟩, true)
  else return (ip, false)

/-- `toString` -/
def CIDRIP.text (ip : CIDRIP) : Text := ip.mIp ++ '/' :: decimal ip.len

end VpnCore.Route
