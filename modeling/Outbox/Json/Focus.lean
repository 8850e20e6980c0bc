import Outbox.Json.Basic

/-!
# Which parts of a value are looked at

A `Focus` follows the shape of a value: it names the fields of objects that count and says the
same of the values inside. What a reader does not look at need not make sense to it.

`focus.item i` and `focus.field? key` lead to the parts of an array and of an object.
-/

namespace Outbox

/-- The parts of a value that are looked at. -/
inductive Focus where
  /-- All of it. -/
  | whole
  /-- Every item of an array, each in the same way. -/
  | items (item : Focus)
  /-- The named fields of an object, or the items of an array in the order of the names. -/
  | fields (named : List (String × Focus))
  deriving Repr, Inhabited

namespace Focus

/-- The focus on the item at an index. -/
def item (focus : Focus) (index : Nat) : Focus :=
  match focus with
  | .whole => .whole
  | .items f => f
  | .fields named => (named[index]?.map Prod.snd).getD .whole

/-- The focus on the value of a key; `none` where it is not looked at. -/
def field? (focus : Focus) (key : String) : Option Focus :=
  match focus with
  | .fields named => Fields.get? key named
  | _ => some .whole

/-- Looks at a named field in another way. -/
def refine (focus : Focus) (name : String) (inner : Focus) : Focus :=
  match focus with
  | .fields named => .fields (Fields.put name inner named)
  | _ => focus

end Focus
end Outbox
