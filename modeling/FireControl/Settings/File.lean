import FireControl.Settings.Fields
import FireControl.Settings.Validation
import FireControl.Toml.Printer
import FireControl.Toml.Reader

/-!
# Settings Files

Settings as text. A file need not name a setting that has its default, and may hold sections and
keys that no setting has. A section may also be an array of its values in order.

Settings are written in full, and what is written reads back as the same settings unless a number in
single precision is one of two that slip on the way through double precision.

## Main definitions

* `Settings.ofEntries?`: The settings in a tree.
* `Settings.sections`: The settings as sections with keys and values.
* `Settings.text`: The text of settings.
* `Settings.ofText`: The settings in a text, if they break no rule.
* `Settings.ofBytes`: The settings in a file.
* `Settings.agrees`: Whether two settings are the same, number for number.
-/

namespace FireControl

open Toml (Scalar Value Entries)

/-- The settings with one field set to a value of a file. -/
def SettingsField.read? (field : SettingsField) (v : Value) (s : Settings) : Option Settings :=
  match v with
  | .scalar x => field.set? x s
  | _ => none

/-- The settings, if a value that no setting takes can be skipped. -/
def Settings.skipping? (v : Value) (s : Settings) : Option Settings :=
  if v.isReadable then some s else none

namespace SettingsSection

/-- The settings with one key of the section read. -/
def readEntry? (part : SettingsSection) (s : Settings) (entry : String × Value) :
    Option Settings :=
  match part.field? entry.1 with
  | some field => field.read? entry.2 s
  | none => s.skipping? entry.2

/-- The settings with the values of fields read in order. What is missing stays as it is, and what
is too much is not looked at. -/
def readItems? : List SettingsField → List Value → Settings → Option Settings
  | [], _, s => some s
  | _, [], s => some s
  | field :: fields, v :: vs, s => (field.read? v s).bind (readItems? fields vs)

/-- The settings with the section read from a value. A date counts as a table without keys that any
setting has. -/
def read? (part : SettingsSection) (v : Value) (s : Settings) : Option Settings :=
  match v with
  | .table _ entries => entries.foldlM part.readEntry? s
  | .array items => readItems? part.fields items s
  | .moment => some s
  | _ => none

/-- The section of settings with its keys and values. -/
def ofSettings (part : SettingsSection) (s : Settings) : Toml.Section where
  name := part.name
  entries := part.fields.filterMap fun field => (field.get? s).map fun v => (field.key, v)

end SettingsSection

namespace Settings

/-- The settings with one key of a file read. -/
def readEntry? (s : Settings) (entry : String × Value) : Option Settings :=
  match SettingsSection.ofName? entry.1 with
  | some part => part.read? entry.2 s
  | none => s.skipping? entry.2

/-- The settings in a tree. -/
def ofEntries? (entries : Entries) : Option Settings :=
  entries.foldlM readEntry? default

/-- The settings as sections with keys and values. -/
def sections (s : Settings) : List Toml.Section :=
  SettingsSection.all.map fun part => part.ofSettings s

/-- The text of settings. -/
def text (s : Settings) : String :=
  String.ofList (Toml.writeSections s.sections)

/-- The settings, if they break no rule. -/
def checked (s : Settings) : Except SettingsError Settings := do
  s.validate
  return s

/-- The settings in a text, if they break no rule. -/
def ofText (text : String) : Except SettingsError Settings :=
  match Toml.parse text with
  | none => .error (.parse "not a TOML document")
  | some entries =>
    match ofEntries? entries with
    | none => .error (.parse "a value has the wrong type")
    | some s => s.checked

/-- The settings in the bytes of a file, if they break no rule. -/
def ofBytes (bytes : ByteArray) : Except SettingsError Settings :=
  match String.fromUTF8? bytes with
  | none => .error (.io .notUtf8)
  | some text => ofText text

/-- Whether two values are the same text, flag or number. What is not a number is not the same as
anything. -/
def sameValue : Scalar → Scalar → Bool
  | .float x, .float y => x == y
  | .single x, .single y => x == y
  | v, w => v = w

/-- Whether two settings agree in every field. -/
def agrees (a b : Settings) : Bool :=
  SettingsSection.all.all fun part => part.fields.all fun field =>
    match field.get? a, field.get? b with
    | some v, some w => sameValue v w
    | none, none => true
    | _, _ => false

end Settings

end FireControl
