import Mathlib.Data.List.Basic

/-!
# JSON values

Values as a parser delivers them: the names of an object's members are distinct,
and a number is given by its value.
-/

inductive Json
  | null
  | bool (value : Bool)
  | num (value : Rat)
  | str (value : List Char)
  | arr (items : List Json)
  | obj (members : List (List Char × Json))

namespace Json

/-- The member of an object with the given name. -/
def get (name : List Char) : Json → Option Json
  | .obj members => (members.find? fun member => member.1 = name).map Prod.snd
  | _ => none

def asStr : Json → Option (List Char)
  | .str value => some value
  | _ => none

def asNat : Json → Option Nat
  | .num value => if value.den = 1 then value.num.toNat? else none
  | _ => none

def IsNull : Json → Prop
  | .null => True
  | _ => False

instance (j : Json) : Decidable j.IsNull :=
  match j with
  | .null => isTrue trivial
  | .bool _ | .num _ | .str _ | .arr _ | .obj _ => isFalse fun h => h

end Json
