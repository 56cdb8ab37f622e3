import VpnCore.Imc.ByteWriter
import VpnCore.Lib.Decode

/-!
# VpnCore.Imc.Attributes — measurements for the verifier

The attributes with the installed packages and the settings are a count and pairs of fields, each field
with its length before it.  A length, and the count of packages, is cut to its width while the
bytes are written in full, so the documented layout gives the pairs back iff every length and the count
fit, and the size of the buffer never overflows while it grows (`decodes_iff`).
-/

namespace VpnCore.Imc

open Config (Text)
open Lib BufferedByteWriter

/-! ## The code -/

/-- A new writer, the calls, and what `toByteArray` returns. -/
def encodingOf (calls : Method Unit) : Except Exception Bytes :=
  ((calls >>= fun _ => toByteArray).run (new [] 0)).map fun (ref, writer) => writer.array ref

namespace InstalledPackagesAttribute

def RESERVED : Int16 := 0

/-- `getEncoding`, with the packages in the order of `addPackage`. -/
def getEncoding (mPackages : List (Text × Text)) : Except Exception Bytes :=
  encodingOf do
    put16 RESERVED
    put16 (Int32.ofNat mPackages.length).toInt16
    mPackages.forM fun pair => do
      putLen8 (encode pair.1)
      putLen8 (encode pair.2)

end InstalledPackagesAttribute

namespace SettingsAttribute

/-- `getEncoding`, with the settings in the order of `addSetting`. -/
def getEncoding (mSettings : List (Text × Text)) : Except Exception Bytes :=
  encodingOf do
    put32 (Int32.ofNat mSettings.length)
    mSettings.forM fun pair => do
      putLen16 (encode pair.1)
      putLen16 (encode pair.2)

end SettingsAttribute

/-! ## The layout -/

/-- A reader of the layout; it fails if there are not enough bytes. -/
abbrev Reader := StateT Bytes (Except Unit)

/-- A length of `width` bytes, and as many bytes. -/
def readField (width : ℕ) : Reader Bytes := do
  let length ← getNumber () width
  getBytes () length

def readPairs (width : ℕ) : ℕ → Reader (List (Bytes × Bytes))
  | 0 => pure []
  | count + 1 => do
    let first ← readField width
    let second ← readField width
    let pairs ← readPairs width count
    return (first, second) :: pairs

/-- Two reserved bytes, the count in two bytes, fields with a length of one byte. -/
def readPackages : Reader (List (Bytes × Bytes)) := do
  let _ ← getNumber () 2
  let count ← getNumber () 2
  readPairs 1 count

/-- The count in four bytes, fields with a length of two bytes. -/
def readSettings : Reader (List (Bytes × Bytes)) := do
  let count ← getNumber () 4
  readPairs 2 count

/-- The bytes of a pair. -/
def utf8 (pair : Text × Text) : Bytes × Bytes := (encode pair.1, encode pair.2)

/-- The layout reads the whole encoding, and gives the pairs. -/
def Decodes (encoding : Except Exception Bytes) (reader : Reader (List (Bytes × Bytes)))
    (pairs : List (Text × Text)) : Prop :=
  ∃ enc, encoding = .ok enc ∧ reader.run enc = .ok (pairs.map utf8, [])

/-! ## What is written -/

/-- A field as it is written. -/
def fieldBytes (width : ℕ) (bs : Bytes) : Bytes := numberBytes width bs.length ++ bs

def pairBytes (width : ℕ) (pair : Text × Text) : Bytes :=
  fieldBytes width (encode pair.1) ++ fieldBytes width (encode pair.2)

theorem new_holds : (new [] 0).Holds [] := ⟨rfl, by simp [new], List.nil_prefix, rfl⟩

theorem encodingOf_ok {calls : Method Unit} {w : BufferedByteWriter} {bs : Bytes}
    (hrun : calls.run (new [] 0) = .ok ((), w)) (hholds : w.Holds bs) : encodingOf calls = .ok bs := by
  obtain ⟨ref, w', hrun', -, -, hreturned⟩ := toByteArray_spec hholds
  rw [encodingOf, StateT.run_bind, hrun]
  change (toByteArray.run w).map _ = _
  rw [hrun']
  exact congrArg Except.ok hreturned.eq

theorem encodingOf_eq {calls : Method Unit} {bs : Bytes} (h : Appends calls bs)
    (hsmall : bs.length < 2 ^ 28) : encodingOf calls = .ok bs := by
  obtain ⟨w, hrun, hholds, -⟩ := h _ [] new_holds (by simpa using hsmall)
  exact encodingOf_ok hrun hholds

/-- The count, cut to two bytes. -/
theorem numberBytes_count (n : ℕ) :
    numberBytes 2 (Int32.ofNat n).toInt16.toUInt16.toNat = numberBytes 2 n := by
  have hmod : (Int32.ofNat n).toUInt32.toNat = n % 2 ^ 32 := rfl
  rw [toNat_toInt16, hmod, Nat.mod_mod_of_dvd n (by decide : 256 ^ 2 ∣ 2 ^ 32), numberBytes_mod]

theorem packages_getEncoding {packages : List (Text × Text)}
    (hsmall : 4 + (packages.flatMap (pairBytes 1)).length < 2 ^ 28) :
    InstalledPackagesAttribute.getEncoding packages =
      .ok (numberBytes 2 0 ++ (numberBytes 2 packages.length ++ packages.flatMap (pairBytes 1))) := by
  have hpairs := appends_forM (fun pair : Text × Text =>
    (appends_putLen8 (encode pair.1)).bind (appends_putLen8 (encode pair.2))) packages
  have hcount := appends_put16 (Int32.ofNat packages.length).toInt16
  rw [numberBytes_count] at hcount
  refine encodingOf_eq ((appends_put16 _).bind (hcount.bind hpairs)) ?_
  rw [List.length_append, List.length_append, length_numberBytes, length_numberBytes, ← Nat.add_assoc]
  exact hsmall

/-! ## What is read -/

section

variable {width : ℕ}

theorem reads_readField {bs : Bytes} (h : bs.length < 256 ^ width) :
    Reads (readField width) (fieldBytes width bs) bs :=
  (reads_getNumber () h).bind (reads_getBytes () bs)

/-- Both fields fit into lengths of `width` bytes. -/
def PairFits (width : ℕ) (pair : Text × Text) : Prop :=
  (encode pair.1).length < 256 ^ width ∧ (encode pair.2).length < 256 ^ width

theorem reads_readPairs : ∀ {pairs : List (Text × Text)}, (∀ pair ∈ pairs, PairFits width pair) →
    Reads (readPairs width pairs.length) (pairs.flatMap (pairBytes width)) (pairs.map utf8)
  | [], _ => reads_pure []
  | pair :: pairs, h => by
    rw [List.forall_mem_cons] at h
    rw [List.flatMap_cons, pairBytes, List.append_assoc]
    have hrest := (reads_readPairs h.2).map fun more => utf8 pair :: more
    exact (reads_readField h.1.1).bind ((reads_readField h.1.2).bind hrest)

/-- A field that was read is as short as its length says. -/
theorem length_of_readField {buf bs rest : Bytes} (h : (readField width).run buf = .ok (bs, rest)) :
    bs.length < 256 ^ width := by
  obtain ⟨n, t, hnumber, h⟩ := run_bind_eq_ok h
  rw [length_of_getBytes h]
  exact lt_of_getNumber hnumber

/-- So are the pairs, and there are as many as the count says. -/
theorem of_readPairs : ∀ {count : ℕ} {buf rest : Bytes} {read : List (Bytes × Bytes)},
    (readPairs width count).run buf = .ok (read, rest) →
      read.length = count ∧ ∀ p ∈ read, p.1.length < 256 ^ width ∧ p.2.length < 256 ^ width
  | 0, _, _, _, h => by
    obtain ⟨rfl, -⟩ := Prod.mk.inj (Except.ok.inj h)
    exact ⟨rfl, by simp⟩
  | count + 1, buf, rest, read, h => by
    obtain ⟨first, t₁, hfirst, h⟩ := run_bind_eq_ok h
    obtain ⟨second, t₂, hsecond, h⟩ := run_bind_eq_ok h
    obtain ⟨pairs, t₃, hpairs, h⟩ := run_bind_eq_ok h
    obtain ⟨rfl, -⟩ := Prod.mk.inj (Except.ok.inj h)
    obtain ⟨hcount, hall⟩ := of_readPairs hpairs
    exact ⟨congrArg Nat.succ hcount,
      List.forall_mem_cons.mpr ⟨⟨length_of_readField hfirst, length_of_readField hsecond⟩, hall⟩⟩

end

/-! ## Decoding -/

/-- The numbers of bytes that are put for the settings one after the other. -/
def settingSizes (settings : List (Text × Text)) : List ℕ :=
  4 :: settings.flatMap fun pair => [2 + (encode pair.1).length, 2 + (encode pair.2).length]

/-- The pieces that are put for a setting. -/
def pieces (pair : Text × Text) : List Bytes := [fieldBytes 2 (encode pair.1), fieldBytes 2 (encode pair.2)]

theorem flatten_pieces (settings : List (Text × Text)) :
    (settings.flatMap pieces).flatten = settings.flatMap (pairBytes 2) := by
  induction settings with
  | nil => rfl
  | cons pair settings ih =>
    rw [List.flatMap_cons, List.flatten_append, ih, List.flatMap_cons]
    simp [pieces, pairBytes]

theorem map_length_pieces (settings : List (Text × Text)) (n : ℕ) :
    ([numberBytes 4 n] ++ settings.flatMap pieces).map List.length = settingSizes settings := by
  simp [settingSizes, pieces, fieldBytes, List.map_flatMap, length_numberBytes]

theorem puts_settings {settings : List (Text × Text)} (hfits : ∀ pair ∈ settings, PairFits 2 pair) :
    Puts (do
      put32 (Int32.ofNat settings.length)
      settings.forM fun pair => do
        putLen16 (encode pair.1)
        putLen16 (encode pair.2)) ([numberBytes 4 settings.length] ++ settings.flatMap pieces) := by
  have hfield : ∀ {bs : Bytes}, bs.length < 256 ^ 2 → Puts (putLen16 bs) [fieldBytes 2 bs] := by
    intro bs hbs
    refine puts_putLen16 ?_
    rw [List.length_append, length_numberBytes]
    omega
  have hcount := puts_put32 (Int32.ofNat settings.length)
  have hmod : (Int32.ofNat settings.length).toUInt32.toNat = settings.length % 256 ^ 4 := rfl
  rw [hmod, numberBytes_mod] at hcount
  exact hcount.bind (puts_forM fun pair hpair =>
    (hfield (hfits pair hpair).1).bind (hfield (hfits pair hpair).2))

/-- The settings are written in full, if the size of the buffer does not overflow. -/
theorem settings_getEncoding {settings : List (Text × Text)} (hfits : ∀ pair ∈ settings, PairFits 2 pair)
    {c : ℕ} (hgrowth : growth 32 0 (settingSizes settings) = some c) :
    SettingsAttribute.getEncoding settings =
      .ok (numberBytes 4 settings.length ++ settings.flatMap (pairBytes 2)) := by
  rw [← map_length_pieces settings settings.length] at hgrowth
  obtain ⟨w, hrun, hholds, -⟩ := (puts_settings hfits).fits new_holds (by decide) hgrowth
  refine encodingOf_ok hrun ?_
  rwa [List.nil_append, List.flatten_append, List.flatten_singleton, flatten_pieces] at hholds

theorem settings_getEncoding_throws {settings : List (Text × Text)}
    (hfits : ∀ pair ∈ settings, PairFits 2 pair) (hgrowth : growth 32 0 (settingSizes settings) = none) :
    ∃ e, SettingsAttribute.getEncoding settings = .error e := by
  rw [← map_length_pieces settings settings.length] at hgrowth
  obtain ⟨e, herror⟩ := (puts_settings hfits).overflows new_holds (by decide) hgrowth
  refine ⟨e, ?_⟩
  rw [SettingsAttribute.getEncoding, encodingOf, StateT.run_bind]
  exact congrArg (fun r => (r >>= fun p => toByteArray.run p.2).map fun (ref, writer) => writer.array ref)
    herror

theorem length_pairBytes_le {width : ℕ} {pair : Text × Text} (h : PairFits width pair) :
    (pairBytes width pair).length ≤ 2 * (width + 256 ^ width) := by
  obtain ⟨h1, h2⟩ := h
  simp only [pairBytes, fieldBytes, List.length_append, length_numberBytes]
  omega

theorem length_le_settingSizes : ∀ settings : List (Text × Text),
    settings.length ≤ (settingSizes settings).sum
  | [] => Nat.zero_le _
  | pair :: settings => by
    have := length_le_settingSizes settings
    simp only [settingSizes, List.sum_cons, List.flatMap_cons, List.sum_append, List.length_cons,
      List.sum_nil] at this ⊢
    omega

/-- Attributes with few packages are small. -/
theorem packages_small {packages : List (Text × Text)} (hcount : packages.length < 2 ^ 16)
    (h : ∀ pair ∈ packages, PairFits 1 pair) :
    4 + (packages.flatMap (pairBytes 1)).length < 2 ^ 28 := by
  have hsum : (packages.flatMap (pairBytes 1)).length ≤ packages.length * (2 * (1 + 256 ^ 1)) := by
    rw [List.length_flatMap]
    refine (List.sum_le_card_nsmul _ (2 * (1 + 256 ^ 1)) fun n hn => ?_).trans (by simp)
    obtain ⟨pair, hpair, rfl⟩ := List.mem_map.mp hn
    exact length_pairBytes_le (h pair hpair)
  omega

theorem packages_decode_iff (packages : List (Text × Text)) :
    Decodes (InstalledPackagesAttribute.getEncoding packages) readPackages packages ↔
      packages.length < 2 ^ 16 ∧ ∀ pair ∈ packages, PairFits 1 pair := by
  constructor
  · rintro ⟨enc, -, hread⟩
    obtain ⟨reserved, t, -, hread⟩ := run_bind_eq_ok hread
    obtain ⟨count, t, hcount, hread⟩ := run_bind_eq_ok hread
    obtain ⟨hlen, hfits⟩ := of_readPairs hread
    rw [List.length_map] at hlen
    exact ⟨hlen ▸ lt_of_getNumber hcount, fun pair hpair => hfits _ (List.mem_map_of_mem hpair)⟩
  · rintro ⟨hcount, hfits⟩
    refine ⟨_, packages_getEncoding (packages_small hcount hfits), ?_⟩
    have hzero : 0 < 256 ^ 2 := by decide
    have hreads := (reads_getNumber () (w := 2) hcount).bind (reads_readPairs hfits)
    exact ((reads_getNumber () hzero).bind hreads).run_eq

theorem settings_decode_iff (settings : List (Text × Text)) :
    Decodes (SettingsAttribute.getEncoding settings) readSettings settings ↔
      (∀ pair ∈ settings, PairFits 2 pair) ∧ (growth 32 0 (settingSizes settings)).isSome := by
  constructor
  · rintro ⟨enc, hencoding, hread⟩
    obtain ⟨count, t, -, hread⟩ := run_bind_eq_ok hread
    have hfits : ∀ pair ∈ settings, PairFits 2 pair := fun pair hpair =>
      (of_readPairs hread).2 _ (List.mem_map_of_mem hpair)
    refine ⟨hfits, ?_⟩
    by_contra hnone
    obtain ⟨e, herror⟩ := settings_getEncoding_throws hfits (Option.not_isSome_iff_eq_none.mp hnone)
    rw [hencoding] at herror
    cases herror
  · rintro ⟨hfits, hgrowth⟩
    obtain ⟨c, hc⟩ := Option.isSome_iff_exists.mp hgrowth
    have hcount : settings.length < 256 ^ 4 := by
      have hlength := length_le_settingSizes settings
      have hsum := sum_le_growth (Nat.zero_le _) hc
      have hlt := growth_lt (by decide) hc
      omega
    exact ⟨_, settings_getEncoding hfits hc, ((reads_getNumber () hcount).bind (reads_readPairs hfits)).run_eq⟩

/-- **Measurements that can be decoded.**  Packages: there are less than 2^16, and every name and version
has less than 2^8 bytes.  Settings: every name and value has less than 2^16 bytes, and the buffer never
needs a size of 2^31 bytes or more. -/
theorem decodes_iff (packages settings : List (Text × Text)) :
    (Decodes (InstalledPackagesAttribute.getEncoding packages) readPackages packages ↔
        packages.length < 2 ^ 16 ∧ ∀ pair ∈ packages, PairFits 1 pair) ∧
      (Decodes (SettingsAttribute.getEncoding settings) readSettings settings ↔
        (∀ pair ∈ settings, PairFits 2 pair) ∧ (growth 32 0 (settingSizes settings)).isSome) :=
  ⟨packages_decode_iff packages, settings_decode_iff settings⟩

theorem decodes_onePackage_oneSetting :
    Decodes (InstalledPackagesAttribute.getEncoding [("org.ikev2".toList, "2.0".toList)]) readPackages
        [("org.ikev2".toList, "2.0".toList)] ∧
      Decodes (SettingsAttribute.getEncoding [("adb_enabled".toList, "0".toList)]) readSettings
        [("adb_enabled".toList, "0".toList)] := by
  have hiff := decodes_iff [("org.ikev2".toList, "2.0".toList)] [("adb_enabled".toList, "0".toList)]
  refine ⟨hiff.1.mpr ⟨by decide, ?_⟩, hiff.2.mpr ⟨?_, by decide⟩⟩
  · exact List.forall_mem_singleton.mpr ⟨by decide, by decide⟩
  · exact List.forall_mem_singleton.mpr ⟨by decide, by decide⟩

/-- A package with a name of 256 letters. -/
def longName : List (Text × Text) := [(List.replicate 256 'a', "1".toList)]

/-- Its length is written as 0, and the first letters are taken for the version. -/
theorem longName_misread :
    ¬ Decodes (InstalledPackagesAttribute.getEncoding longName) readPackages longName ∧
      ∃ enc, InstalledPackagesAttribute.getEncoding longName = .ok enc ∧
        readPackages.run enc = .ok ([([], List.replicate 97 97)], List.replicate 158 97 ++ [1, 49]) := by
  refine ⟨fun h => ?_, _, packages_getEncoding (by decide +kernel), by decide +kernel⟩
  have hfits := ((packages_decode_iff longName).mp h).2 _ List.mem_cons_self
  exact absurd hfits.1 (by decide +kernel)

end VpnCore.Imc
