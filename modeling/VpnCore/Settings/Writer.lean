import VpnCore.Config.Strings
import VpnCore.Lib.Assoc

/-!
# VpnCore.Settings.Writer — `SettingsWriter`

Sections inside sections, each with its settings, in the order in which they were created.  A value is written
between quotes, with a backslash before quotes and backslashes.
-/

namespace VpnCore.Settings

open Config (Text Thrown illegalArgumentException)
open Lib

/-- `SettingsSection`: `Settings` and `Sections` -/
inductive SettingsSection
  | mk (settings : List (Text × Option Text)) (sections : List (Text × SettingsSection))

namespace SettingsSection

def empty : SettingsSection := .mk [] []

def settings : SettingsSection → List (Text × Option Text)
  | .mk settings _ => settings

def sections : SettingsSection → List (Text × SettingsSection)
  | .mk _ sections => sections

/-- `findOrCreateSection` along all names but the last, and `Settings.put` for the last one. -/
def put (value : Option Text) : List Text → SettingsSection → SettingsSection
  | [], s => s
  | [key], s => .mk (insertEntry key value s.settings) s.sections
  | name :: path, s =>
    .mk s.settings (insertEntry name (put value path ((s.sections.lookup name).getD empty)) s.sections)

/-- The value of a key. -/
def lookup : List Text → SettingsSection → Option (Option Text)
  | [], _ => none
  | [key], s => s.settings.lookup key
  | name :: path, s => (s.sections.lookup name).bind (lookup path)

end SettingsSection

/-- The pattern that a key has to match. -/
def keyChar (c : Char) : Bool := decide (c ∉ ['#', '{', '}', '=', '"', '\n', '\t', ' '])

/-- `mTop` after `setValue`.  `Arrays.copyOfRange` throws if the key has no parts. -/
def setValue (mTop : SettingsSection) (key : Option Text) (value : Option Text) :
    Except Thrown SettingsSection :=
  match key with
  | none => .ok mTop
  | some key =>
    if key = [] ∨ ¬ key.all keyChar then .ok mTop
    else
      let keys := Config.split '.' key
      if keys = [] then .error illegalArgumentException else .ok (mTop.put value keys)

/-- `value.replace("\\", "\\\\").replace("\"", "\\\"")`: the two do not touch each other's characters. -/
def escapeValue (value : Text) : Text :=
  (value.flatMap fun c => if c = '\\' then ['\\', '\\'] else [c]).flatMap fun c =>
    if c = '"' then ['\\', '"'] else [c]

def serializeSetting (setting : Text × Option Text) : Text :=
  setting.1 ++ '=' ::
    ((match setting.2 with
      | some value => '"' :: (escapeValue value ++ ['"'])
      | none => []) ++ ['\n'])

mutual

def serializeSection : SettingsSection → Text
  | .mk settings sections => settings.flatMap serializeSetting ++ serializeSections sections

def serializeSections : List (Text × SettingsSection) → Text
  | [] => []
  | (name, sub) :: rest =>
    name ++ ' ' :: '{' :: '\n' :: (serializeSection sub ++ '}' :: '\n' :: serializeSections rest)

end

def serialize (mTop : SettingsSection) : Text := serializeSection mTop

/-! ## Facts -/

theorem escapeValue_nil : escapeValue [] = [] := rfl

theorem escapeValue_cons (c : Char) (value : Text) :
    escapeValue (c :: value) =
      (if c = '\\' then ['\\', '\\'] else if c = '"' then ['\\', '"'] else [c]) ++ escapeValue value := by
  unfold escapeValue
  rw [List.flatMap_cons, List.flatMap_append]
  congr 1
  split_ifs with h1 h2
  · rfl
  · subst h2
    rfl
  · simp [h2]

/-- **One call.**  It sets the value of its key and of no other one. -/
theorem lookup_put (value : Option Text) : ∀ (names : List Text) (s : SettingsSection) (path : List Text),
    names ≠ [] → (s.put value names).lookup path = if path = names then some value else s.lookup path
  | [], _, _, h => absurd rfl h
  | [key], s, path, _ => by
    match path with
    | [] => simp [SettingsSection.lookup]
    | [k] =>
      rw [SettingsSection.put, SettingsSection.lookup, SettingsSection.lookup, SettingsSection.settings,
        lookup_insertEntry]
      simp
    | n :: m :: path =>
      rw [if_neg (by simp)]
      rfl
  | name :: next :: names, s, path, _ => by
    match path with
    | [] => simp [SettingsSection.lookup]
    | [k] =>
      rw [if_neg (by simp)]
      rfl
    | n :: m :: path =>
      have ih := lookup_put value (next :: names) ((s.sections.lookup name).getD .empty) (m :: path)
        (List.cons_ne_nil _ _)
      rw [SettingsSection.put, SettingsSection.lookup, SettingsSection.lookup, SettingsSection.sections,
        lookup_insertEntry]
      · by_cases hn : n = name
        · subst hn
          rw [if_pos rfl, Option.bind_some, ih]
          have hiff : n :: m :: path = n :: next :: names ↔ m :: path = next :: names := by simp
          have hempty : SettingsSection.empty.lookup (m :: path) = none := by
            cases path <;> rfl
          rw [if_congr hiff rfl rfl]
          cases s.sections.lookup n with
          | none => rw [Option.getD_none, hempty, Option.bind_none]
          | some sub => rfl
        · rw [if_neg hn, if_neg (fun h => hn (List.cons.inj h).1)]
      all_goals simp

end VpnCore.Settings
