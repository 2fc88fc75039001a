/-!
# Values

The values that the cells of a store hold. Equality is exact: values of different kinds
differ whatever their payloads, so a string is never equal to a symbol of the same text.
-/

namespace ScopedStore

/-- A runtime value; `void` is the result of forms evaluated for effect. -/
inductive Value where
  | int (n : Int64)
  | bool (b : Bool)
  | str (s : String)
  | symbol (s : String)
  | void
  deriving DecidableEq

namespace Value

instance : Inhabited Value := ⟨void⟩

instance : Coe Int64 Value := ⟨int⟩

instance : Coe Bool Value := ⟨bool⟩

instance : Coe String Value := ⟨str⟩

def typeName : Value → String
  | int _ => "int"
  | bool _ => "bool"
  | str _ => "str"
  | symbol _ => "symbol"
  | void => "void"

def isVoid : Value → Bool
  | void => true
  | _ => false

/-- The text shown to a user: strings stand between quotes with nothing escaped, symbols bare. -/
def display : Value → String
  | int n => toString n.toInt
  | bool true => "#t"
  | bool false => "#f"
  | str s => "\"" ++ s ++ "\""
  | symbol s => s
  | void => "void"

@[simp] theorem isVoid_eq_true_iff {v : Value} : v.isVoid = true ↔ v = void := by
  cases v <;> simp [isVoid]

end Value

end ScopedStore
