/-!
# Faults

The causes for which an operation on stores and environments fails, and the text of each.
Addresses are reported as the signed 64-bit integers that callers hand in, so that a
rejected negative number is shown as it was given.
-/

namespace ScopedStore

/-- Why an operation failed. -/
inductive Fault where
  /-- No cell has this address. -/
  | illegalAddress (raw : Int64)
  /-- No frame of the chain binds this name. -/
  | unbound (name : String)
  /-- The environment is rooted in the frame of another session. -/
  | foreign
  /-- A frame was to be built from lists of these unequal lengths. -/
  | arity (names addresses : Nat)
  deriving DecidableEq

namespace Fault

def isIllegalAddress : Fault → Bool
  | illegalAddress _ => true
  | _ => false

def isUnbound : Fault → Bool
  | unbound _ => true
  | _ => false

/-- The text of a fault; a name stands in it as it is, without quotes. -/
def message : Fault → String
  | illegalAddress raw => "illegal address: " ++ toString raw.toInt
  | unbound name => "var not found: " ++ name
  | foreign => "environment belongs to a different session"
  | arity names addresses =>
    "extension frame needs one address per name: got " ++ toString names ++ " names and "
      ++ toString addresses ++ " addresses"

end Fault

end ScopedStore
