import Outbox.Config
import Outbox.Toml.Document

/-!
# Configuration files

A configuration is a TOML document with up to four keys at the top level; other keys are ignored
and missing ones take their defaults. A file that is not there or is not UTF-8 cannot be read; a
file that is no document, or has a value of another type or a negative number, cannot be parsed.

`Config.ofFile` models `from_file` of `EngineConfig`, and `Config.Error` models `ConfigError`.
-/

namespace Outbox

/-- Why there is no configuration. -/
inductive Config.Error where
  | unreadable
  | unparsable
  deriving DecidableEq, Repr

/-- The text of a file's bytes. -/
def textOfBytes? (bytes : ByteArray) : Option String := String.fromUTF8? bytes

namespace Config

/-- The value of a key at the top level, if there is one. A section or a longer path that begins
with the key is no value. -/
def topLevel? (d : Toml.Document) (key : String) : Except Config.Error (Option Toml.Value) :=
  match d.values.lookup [key] with
  | some v => .ok (some v)
  | none =>
    if d.values.any (fun entry => [key].isPrefixOf entry.1) || d.sections.any [key].isPrefixOf then
      .error .unparsable
    else .ok none

/-- A number that is not negative. -/
def count (d : Toml.Document) (key : String) : Except Config.Error (Option Nat) := do
  match ← topLevel? d key with
  | none => return none
  | some (.integer n) => if 0 ≤ n then return some n.toNat else throw .unparsable
  | some _ => throw .unparsable

/-- A string. -/
def name (d : Toml.Document) (key : String) : Except Config.Error (Option String) := do
  match ← topLevel? d key with
  | none => return none
  | some (.string s) => return some s
  | some _ => throw .unparsable

/-- The configuration of a document. -/
def ofDocument (d : Toml.Document) : Except Config.Error Config := do
  let topics ← count d "max_concurrent_groups"
  let delivery ← count d "apply_timeout_ms"
  let lookup ← count d "lookup_timeout_ms"
  let fallback ← name d "default_group"
  return {
    topicsAtATime := topics.getD default.topicsAtATime
    deliveryLimit := delivery.map UInt64.ofNat
    lookupLimit := lookup.map UInt64.ofNat
    fallbackTopic := fallback.getD default.fallbackTopic }

/-- The configuration in a text. -/
def ofText (text : String) : Except Config.Error Config :=
  match Toml.read? text with
  | some d => ofDocument d
  | none => .error .unparsable

/-- The configuration in a file, if the file is there. -/
def ofFile (bytes : Option ByteArray) : Except Config.Error Config :=
  match bytes.bind textOfBytes? with
  | some text => ofText text
  | none => .error .unreadable

end Config
end Outbox
