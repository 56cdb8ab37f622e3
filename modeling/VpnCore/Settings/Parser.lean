import VpnCore.Lib.Assoc
import VpnCore.Settings.Scanner

/-!
# VpnCore.Settings.Parser — the grammar of `settings_parser.y`

The bison parser as a machine that takes one token at a time: the sections that are open, and the beginning of
the statement that it is in.  The arrays of a section are searched by name and enumerated in the order of
insertion; here they are one list.
-/

namespace VpnCore.Settings

open Config (Text)
open Lib (insertEntry)

/-- `section_t` -/
inductive Section
  | mk (kv : List (Text × Option Text)) (sections : List (Text × Section)) (references : List Text)

namespace Section

def empty : Section := .mk [] [] []

def kv : Section → List (Text × Option Text)
  | .mk kv _ _ => kv

def sections : Section → List (Text × Section)
  | .mk _ sections _ => sections

def references : Section → List Text
  | .mk _ _ references => references

/-- `settings_kv_add` -/
def addKv (s : Section) (key : Text) (value : Option Text) : Section :=
  .mk (insertEntry key value s.kv) s.sections s.references

/-- `settings_reference_add`, of a reference that is not permanent -/
def addReference (s : Section) (name : Text) : Section :=
  if s.references.contains name then s else .mk s.kv s.sections (s.references ++ [name])

def setSection (s : Section) (name : Text) (sub : Section) : Section :=
  .mk s.kv (insertEntry name sub s.sections) s.references

mutual

/-- `settings_section_extend`, without `purge` -/
def extend (base : Section) : Section → Section
  | .mk kv sections references =>
    references.foldl addReference
      (kv.foldl (fun s e => s.addKv e.1 e.2) (extendSections base sections))

/-- The subsections of the extension, one after the other. -/
def extendSections (base : Section) : List (Text × Section) → Section
  | [] => base
  | (name, sub) :: rest =>
    extendSections (base.setSection name
      (match base.sections.lookup name with
        | some found => found.extend sub
        | none => sub)) rest

end

/-- `settings_section_add` -/
def addSection (parent : Section) (name : Text) (sub : Section) : Section :=
  extendSections parent [(name, sub)]

/-- The value of a key, `none` inside for a key without value. -/
def lookup : List Text → Section → Option (Option Text)
  | [], _ => none
  | [key], s => s.kv.lookup key
  | name :: path, s => (s.sections.lookup name).bind (lookup path)

end Section

/-! ## The parser -/

/-- The beginning of a statement. -/
inductive Item
  | nothing
  | name (name : Text)
  /-- `NAME ":" references`, up to a comma or a name -/
  | afterComma (name : Text) (references : List Text)
  | afterReference (name : Text) (references : List Text)
  /-- `NAME '=' value` -/
  | setting (name : Text) (value : Option Text)

/-- The open sections, the innermost first, with the names of all but the last. -/
structure Parser where
  root : Section := .empty
  opened : List (Text × Section) := []
  item : Item := .nothing

namespace Parser

variable (p : Parser)

/-- The section on top of the stack. -/
def top : Section :=
  match p.opened with
  | [] => p.root
  | (_, s) :: _ => s

def setTop (s : Section) : Parser :=
  match p.opened with
  | [] => { p with root := s }
  | (name, _) :: rest => { p with opened := (name, s) :: rest }

def setItem (item : Item) : Parser := { p with item := item }

/-- `add_setting` -/
def addSetting (name : Text) (value : Option Text) : Parser :=
  (p.setTop (p.top.addKv name value)).setItem .nothing

/-- `push_section`, with `add_references` -/
def pushSection (name : Text) (references : List Text) : Parser :=
  { p with
    opened := (name, references.foldl Section.addReference .empty) :: p.opened
    item := .nothing }

/-- `pop_section` and `add_section` -/
def popSection : Option Parser :=
  match p.opened with
  | [] => none
  | (name, s) :: rest =>
    let p := { p with opened := rest }
    some (p.setTop (p.top.addSection name s))

/-- A token at the beginning of a statement. -/
def statement : Token → Option Parser
  | .newline => some p
  | .rbrace => p.popSection
  | .name n => some (p.setItem (.name n))
  | .includes _ => some p
  | _ => none

/-- `value valuepart` -/
def joinValue (value : Option Text) (part : Text) : Text :=
  match value with
  | none => part
  | some v => v ++ ' ' :: part

/-- One token. -/
def step (t : Token) : Option Parser :=
  match p.item, t with
  | .nothing, t => p.statement t
  | .name n, .lbrace => some (p.pushSection n [])
  | .name n, .colon => some (p.setItem (.afterComma n []))
  | .name n, .equals => some (p.setItem (.setting n none))
  | .afterComma n refs, .name r => some (p.setItem (.afterReference n (refs ++ [r])))
  | .afterReference n refs, .comma => some (p.setItem (.afterComma n refs))
  | .afterReference n refs, .lbrace => some (p.pushSection n refs)
  | .setting n v, .name part => some (p.setItem (.setting n (some (joinValue v part))))
  | .setting n v, .string part => some (p.setItem (.setting n (some (joinValue v part))))
  | .setting n v, t => (p.addSetting n v).statement t
  -- the pseudo-token of an `include` is none of the grammar's
  | _, .includes _ => some p
  | _, _ => none

/-- The end of the text. -/
def finish : Option Section :=
  match p.opened, p.item with
  | [], .nothing => some p.root
  | [], .setting n v => some (p.addSetting n v).root
  | _, _ => none

end Parser

/-- `settings_parser_parse_string`, into an empty section. -/
def parseString (settings : Text) : Option Section :=
  ((lex {} settings).foldlM Parser.step {}).bind Parser.finish

end VpnCore.Settings
