import Outbox.Json.Focus

/-!
# Values as a text spells them

A text can spell values that are not: a number that is too large for a double, or a string with
half of a surrogate pair. A `Draft` is what a text spells, with `none` in their place, and nested
as deep as the text likes.

`keep?` takes over the parts of a draft that a focus looks at. There every number and every
string must be one, the keys of objects too, and containers must not be nested deeper than there
is room. The rest is dropped, whatever it is.
-/

namespace Outbox.Json

/-- What a text spells. -/
inductive Draft where
  | null
  | bool (value : Bool)
  | num (value : Option Number)
  | str (value : Option String)
  | arr (items : List Draft)
  | obj (fields : List (Option String × Draft))
  deriving Repr, Inhabited

namespace Draft

mutual

/-- The parts of a draft that are looked at. `room` bounds the nesting of containers. -/
def keep? (focus : Focus) (room : Nat) : Draft → Option Json
  | .null => some .null
  | .bool b => some (.bool b)
  | .num n => n.map .num
  | .str s => s.map .str
  | .arr xs => if room = 0 then none else (keepItems? focus (room - 1) 0 xs).map .arr
  | .obj fs => if room = 0 then none else (keepFields? focus (room - 1) fs).map .obj

/-- The parts of an array's items from an index on. -/
def keepItems? (focus : Focus) (room index : Nat) : List Draft → Option (List Json)
  | [] => some []
  | x :: xs => do
    let y ← keep? (focus.item index) room x
    let ys ← keepItems? focus room (index + 1) xs
    return y :: ys

/-- The fields that are looked at, with the parts of their values. -/
def keepFields? (focus : Focus) (room : Nat) :
    List (Option String × Draft) → Option (List (String × Json))
  | [] => some []
  | (none, _) :: _ => none
  | (some key, x) :: fs =>
    match focus.field? key with
    | none => keepFields? focus room fs
    | some inner => do
      let y ← keep? inner room x
      let ys ← keepFields? focus room fs
      return (key, y) :: ys

end

end Draft
end Outbox.Json
