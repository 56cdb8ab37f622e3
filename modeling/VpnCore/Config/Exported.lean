import VpnCore.Config.Import
import VpnCore.Config.RawValues
import VpnCore.Config.Values

/-!
# VpnCore.Config.Exported — the file of an imported configuration

`exported` is the whole way of a configuration: `parseConfig`, `convertProfile` and `getConfigFile`.
`ProfileRead` says where the routes and the addresses of the profile come from.
-/

namespace VpnCore.Config

open VpnCore.Lib

/-- A configuration is read, and the file of its profile is written. -/
def exported (order : MapOrder) (ctx : Context) (text : Text) :
    Except Thrown (Parser × VpnProfile × Text) := do
  let parser ← parseConfig text
  let np ← convertProfile order parser
  let file ← np.getConfigFile ctx
  return (parser, np, file)

/-- Where the routes and the addresses of the profile come from. -/
structure ProfileRead (o : OptionMap) (np p : VpnProfile) : Prop where
  routing : ∃ r, RoutesRead o np.toRouting r ∧ p.toRouting = redirected o r
  addressing : ∃ a, SameAddresses np.toAddressing a ∧ AddressesRead o a p.toAddressing

theorem readProfile_run {o left : OptionMap} {order : MapOrder} {np p : VpnProfile}
    (h : (readProfile order np).run o = .ok (p, left)) : ProfileRead o np p := by
  rw [← without_nil o] at h
  obtain ⟨pull, s₁, hrun, h⟩ := run_bind_ok.mp h
  obtain ⟨rfl, -⟩ := readPull_takes pull s₁ hrun
  obtain ⟨secret, s₂, hrun, h⟩ := run_bind_ok.mp h
  obtain ⟨rfl, -⟩ := readSecret_takes (by decide) secret s₂ hrun
  obtain ⟨r₁, s₃, hrun, h⟩ := run_bind_ok.mp h
  obtain ⟨rfl, hroutes⟩ := readRoutes_takes _ (by decide) r₁ s₃ hrun
  obtain ⟨t, s₄, hrun, h⟩ := run_bind_ok.mp h
  obtain ⟨rfl, -⟩ := readTlsAuth_takes _ (by decide) t s₄ hrun
  obtain ⟨r₂, s₅, hrun, h⟩ := run_bind_ok.mp h
  obtain ⟨rfl, hredirect⟩ := readRedirect_takes _ (by decide) r₂ s₅ hrun
  obtain ⟨u, s₆, hrun, h⟩ := run_bind_ok.mp h
  obtain ⟨rfl, -⟩ := readDev_takes (by decide) u s₆ hrun
  obtain ⟨a₁, s₇, hrun, h⟩ := run_bind_ok.mp h
  obtain ⟨rfl, hmtu⟩ := readMtu_takes _ (by decide) a₁ s₇ hrun
  obtain ⟨u', s₈, hrun, h⟩ := run_bind_ok.mp h
  obtain ⟨rfl, -⟩ := readMode_takes (by decide) u' s₈ hrun
  obtain ⟨a₂, s₉, hrun, h⟩ := run_bind_ok.mp h
  obtain ⟨-, haddresses⟩ := readAddresses_takes _ (by decide) a₂ s₉ hrun
  -- the methods behind it leave the routes and the addresses alone
  iterate 19 obtain ⟨_, _, -, h⟩ := run_bind_ok.mp h
  obtain ⟨rfl, -⟩ := Prod.mk.inj (Except.ok.inj h)
  exact ⟨⟨r₁, hroutes, hredirect⟩, ⟨a₁, hmtu, haddresses⟩⟩

/-- The profile that the options of a file change. -/
def startProfile : VpnProfile := (VpnProfile.named convertedProfile).clearDefaults

/-- What the end of `convertProfile` does not change. -/
theorem checkIgnoreAndInvalidOptions_keeps {order : MapOrder} {left : OptionMap} {np p : VpnProfile}
    (h : checkIgnoreAndInvalidOptions order left np = .ok p) :
    (fixup p).toRouting = np.toRouting ∧ (fixup p).toAddressing = np.toAddressing := by
  have hp : p.toRouting = np.toRouting ∧ p.toAddressing = np.toAddressing := by
    unfold checkIgnoreAndInvalidOptions at h
    cases hfind : unsupportedOptions.find? left.containsKey with
    | some option =>
      rw [hfind] at h
      cases h
    | none =>
      rw [hfind] at h
      dsimp only at h
      split_ifs at h <;> cases h <;> exact ⟨rfl, rfl⟩
  unfold fixup
  split_ifs <;> exact hp

theorem exported_eq_ok {order : MapOrder} {ctx : Context} {text file : Text} {s : Parser} {p : VpnProfile}
    (h : exported order ctx text = .ok (s, p, file)) :
    p.getConfigFile ctx = .ok file ∧ ∃ np, ProfileRead s.options startProfile np ∧
      p.toRouting = np.toRouting ∧ p.toAddressing = np.toAddressing := by
  obtain ⟨s', hs, h⟩ := bind_eq_ok.mp h
  obtain ⟨profile, hprofile, h⟩ := bind_eq_ok.mp h
  obtain ⟨file', hfile, h⟩ := bind_eq_ok.mp h
  cases Except.ok.inj h
  obtain ⟨⟨np, left⟩, hrun, hprofile⟩ := bind_eq_ok.mp hprofile
  obtain ⟨p', hcustom, hprofile⟩ := bind_eq_ok.mp hprofile
  cases Except.ok.inj hprofile
  have hread := readProfile_run hrun
  have hkeeps := checkIgnoreAndInvalidOptions_keeps hcustom
  exact ⟨hfile, np, hread, hkeeps⟩

/-! ## An export that can be evaluated -/

/-- A phone without a proxy and without certificates in its store. -/
def phone : Context :=
  { cacheDir := "/data/cache".toList
    guiVersion := "0.7.21".toList
    platformVersion := "30 11 arm64-v8a".toList
    usesystemproxy := false
    externalCertificates := none
    keychainAccess := "Cannot access the Android Keychain Certificates.".toList
    jellyKeystoreBug := "Some versions of Android 4.1 have problems.".toList
    sdkInt := 30 }

/-- An export with a property, from its evaluation. -/
theorem exported_of_any {order : MapOrder} {ctx : Context} (text : Text)
    (P : OptionMap → VpnProfile → Text → Prop) [∀ o p file, Decidable (P o p file)]
    (h : (exported order ctx text).toOption.any (fun r => decide (P r.1.options r.2.1 r.2.2)) = true) :
    ∃ s p file, exported order ctx text = .ok (s, p, file) ∧ P s.options p file := by
  generalize exported order ctx text = result at h
  cases result with
  | error e => cases h
  | ok r => exact ⟨r.1, r.2.1, r.2.2, rfl, of_decide_eq_true h⟩

end VpnCore.Config
