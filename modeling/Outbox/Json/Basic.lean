import Outbox.Double.Basic
import Outbox.Word

/-!
# JSON values

Objects are lists of fields in the order of their first appearance; nothing sorts them. A value
is `WellFormed` when no object in it, at any depth, has a repeated key. Texts may repeat keys;
`normal` gives every repeated key its first place and its last value, so its results are well
formed.

Numbers are integers, from the least signed to the largest unsigned 64-bit one, or doubles. An
integer never equals a double.

There are two equalities. `=` sees the order of fields. `same` is the equality of JSON: fields
are compared by key at every depth and `0.0` equals `-0.0`.
-/

namespace Outbox

/-! ## Fields of an object -/

/-- Keys with their values, in order. -/
abbrev Fields (α : Type) := List (String × α)

namespace Fields

variable {α β : Type}

/-- The value at a key. -/
def get? (key : String) : Fields α → Option α
  | [] => none
  | (k, v) :: rest => if k = key then some v else get? key rest

/-- Whether a key is present. -/
def has (key : String) (fields : Fields α) : Bool := (get? key fields).isSome

/-- Puts a value at a key: in its place if the key is present, at the end otherwise. -/
def put (key : String) (value : α) : Fields α → Fields α
  | [] => [(key, value)]
  | (k, v) :: rest => if k = key then (k, value) :: rest else (k, v) :: put key value rest

/-- Takes a key out; the others keep their order. -/
def erase (key : String) : Fields α → Fields α
  | [] => []
  | (k, v) :: rest => if k = key then erase key rest else (k, v) :: erase key rest

/-- The keys, in order. -/
def keys (fields : Fields α) : List String := fields.map Prod.fst

/-- Puts the fields of a list one after the other: a repeated key keeps its first place and takes
its last value. -/
def ofList (fields : List (String × α)) : Fields α :=
  fields.foldl (fun acc f => put f.1 f.2 acc) []

theorem get?_put (key key' : String) (value : α) (fields : Fields α) :
    get? key' (put key value fields) = if key = key' then some value else get? key' fields := by
  induction fields with
  | nil => simp [put, get?]
  | cons f rest ih =>
    obtain ⟨k, v⟩ := f
    by_cases hk : k = key
    · subst hk
      by_cases h : k = key' <;> simp [put, get?, h]
    · by_cases h : k = key'
      · subst h
        simp [put, get?, hk, Ne.symm hk]
      · simp [put, get?, hk, h, ih]

theorem keys_put (key : String) (value : α) (fields : Fields α) :
    keys (put key value fields) =
      if key ∈ keys fields then keys fields else keys fields ++ [key] := by
  induction fields with
  | nil => simp [put, keys]
  | cons f rest ih =>
    obtain ⟨k, v⟩ := f
    by_cases hk : k = key
    · subst hk
      simp [put, keys]
    · simp only [keys] at ih
      by_cases h : key ∈ rest.map Prod.fst <;> simp [put, hk, keys, Ne.symm hk, ih, h]

theorem get?_erase (key key' : String) (fields : Fields α) :
    get? key' (erase key fields) = if key = key' then none else get? key' fields := by
  induction fields with
  | nil => simp [erase, get?]
  | cons f rest ih =>
    obtain ⟨k, v⟩ := f
    by_cases hk : k = key
    · subst hk
      by_cases h : k = key'
      · subst h
        simpa [erase] using ih
      · simp [erase, get?, h, ih]
    · by_cases h : k = key'
      · subst h
        simp [erase, get?, hk, Ne.symm hk]
      · simp [erase, get?, hk, h, ih]

theorem keys_erase (key : String) (fields : Fields α) :
    keys (erase key fields) = (keys fields).filter (· ≠ key) := by
  induction fields with
  | nil => rfl
  | cons f rest ih =>
    obtain ⟨k, v⟩ := f
    by_cases hk : k = key
    · simpa [erase, hk, keys] using ih
    · simpa [erase, hk, keys] using ih

theorem get?_eq_none_iff {key : String} {fields : Fields α} :
    get? key fields = none ↔ key ∉ keys fields := by
  induction fields with
  | nil => simp [get?, keys]
  | cons f rest ih =>
    obtain ⟨k, v⟩ := f
    by_cases hk : k = key
    · simp [get?, keys, hk]
    · simp only [get?, hk, if_false, ih, keys, List.map_cons, List.mem_cons, Ne.symm hk, false_or]

end Fields

/-! ## Values -/

/-- A number: an integer or a double. -/
inductive Number where
  | integer (value : Int)
  | double (value : Double)
  deriving DecidableEq, Repr

namespace Number

/-- The integers that are kept as integers. -/
def isWord (n : Int) : Bool := minSigned ≤ n && n ≤ maxUnsigned

/-- The equality of JSON numbers. -/
def same : Number → Number → Bool
  | .integer a, .integer b => a == b
  | .double a, .double b => a.equal b
  | _, _ => false

/-- The number zero, of either kind and sign. -/
def isZero : Number → Bool
  | .integer n => n == 0
  | .double d => d.isZero

end Number

/-- A JSON value. -/
inductive Json where
  | null
  | bool (value : Bool)
  | num (value : Number)
  | str (value : String)
  | arr (items : List Json)
  | obj (fields : List (String × Json))
  deriving Repr, Inhabited

namespace Json

/-- An integer as a JSON value. -/
def int (n : Int) : Json := .num (.integer n)

/-- A count as a JSON value. -/
def nat (n : Nat) : Json := .num (.integer n)

/-- A value that may be missing, as a JSON value. -/
def ofOption (value : Option Json) : Json := value.getD .null

/-- The fields of an object; any other value counts as an object without fields. -/
def fields : Json → Fields Json
  | .obj fs => fs
  | _ => []

/-- Whether a value is an object. -/
def isObject : Json → Bool
  | .obj _ => true
  | _ => false

/-! ## Equality -/

mutual

/-- The equality of JSON: the order of fields does not count. -/
def same : Json → Json → Bool
  | .null, .null => true
  | .bool a, .bool b => a == b
  | .num a, .num b => a.same b
  | .str a, .str b => a == b
  | .arr xs, .arr ys => sameItems xs ys
  | .obj fs, .obj gs => fs.length == gs.length && sameFields fs gs
  | _, _ => false

/-- Items are compared one by one. -/
def sameItems : List Json → List Json → Bool
  | [], [] => true
  | x :: xs, y :: ys => same x y && sameItems xs ys
  | _, _ => false

/-- Every field of the first list has the same value in the second. -/
def sameFields : List (String × Json) → List (String × Json) → Bool
  | [], _ => true
  | (key, value) :: rest, gs =>
    (match Fields.get? key gs with
      | some other => same value other
      | none => false) && sameFields rest gs

end

mutual

/-- The equality that sees the order of fields. -/
def identical : Json → Json → Bool
  | .null, .null => true
  | .bool a, .bool b => a == b
  | .num a, .num b => a == b
  | .str a, .str b => a == b
  | .arr xs, .arr ys => identicalItems xs ys
  | .obj fs, .obj gs => identicalFields fs gs
  | _, _ => false

/-- Items are compared one by one. -/
def identicalItems : List Json → List Json → Bool
  | [], [] => true
  | x :: xs, y :: ys => identical x y && identicalItems xs ys
  | _, _ => false

/-- Fields are compared one by one. -/
def identicalFields : List (String × Json) → List (String × Json) → Bool
  | [], [] => true
  | (k, x) :: fs, (l, y) :: gs => k == l && identical x y && identicalFields fs gs
  | _, _ => false

end

mutual

theorem eq_of_identical : ∀ x y : Json, identical x y = true ↔ x = y
  | .null, y => by cases y <;> simp [identical]
  | .bool a, y => by cases y <;> simp [identical]
  | .num a, y => by cases y <;> simp [identical]
  | .str a, y => by cases y <;> simp [identical]
  | .arr xs, y => by
    cases y <;> simp [identical]
    exact eq_of_identicalItems xs _
  | .obj fs, y => by
    cases y <;> simp [identical]
    exact eq_of_identicalFields fs _

theorem eq_of_identicalItems : ∀ xs ys : List Json, identicalItems xs ys = true ↔ xs = ys
  | [], ys => by cases ys <;> simp [identicalItems]
  | x :: xs, ys => by
    cases ys with
    | nil => simp [identicalItems]
    | cons y ys => simp [identicalItems, eq_of_identical x y, eq_of_identicalItems xs ys]

theorem eq_of_identicalFields :
    ∀ fs gs : List (String × Json), identicalFields fs gs = true ↔ fs = gs
  | [], gs => by cases gs <;> simp [identicalFields]
  | (k, x) :: fs, gs => by
    cases gs with
    | nil => simp [identicalFields]
    | cons g gs =>
      obtain ⟨l, y⟩ := g
      simp [identicalFields, eq_of_identical x y, eq_of_identicalFields fs gs]

end

instance : DecidableEq Json := fun x y =>
  decidable_of_iff (identical x y = true) (eq_of_identical x y)

/-! ## Repeated keys -/

mutual

/-- No object at any depth has a repeated key. -/
def WellFormed : Json → Prop
  | .arr xs => WellFormedItems xs
  | .obj fs => (Fields.keys fs).Nodup ∧ WellFormedFields fs
  | _ => True

/-- All items are well formed. -/
def WellFormedItems : List Json → Prop
  | [] => True
  | x :: xs => WellFormed x ∧ WellFormedItems xs

/-- The values of all fields are well formed. -/
def WellFormedFields : List (String × Json) → Prop
  | [] => True
  | (_, x) :: fs => WellFormed x ∧ WellFormedFields fs

end

mutual

/-- Gives every repeated key its first place and its last value, at every depth. -/
def normal : Json → Json
  | .arr xs => .arr (normalItems xs)
  | .obj fs => .obj (Fields.ofList (normalFields fs))
  | x => x

/-- Normalises every item. -/
def normalItems : List Json → List Json
  | [] => []
  | x :: xs => normal x :: normalItems xs

/-- Normalises the value of every field. -/
def normalFields : List (String × Json) → List (String × Json)
  | [] => []
  | (k, x) :: fs => (k, normal x) :: normalFields fs

end

end Json
end Outbox
