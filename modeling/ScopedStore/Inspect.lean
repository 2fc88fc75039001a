import ScopedStore.Session
import ScopedStore.Text.Quoted

/-!
# Inspection texts

The texts that show the inside of a value, a store, a frame or an environment to a developer.
Strings are quoted and escaped, so the text of a store determines its cells. Identities of
frames and reserved room are not shown.
-/

namespace ScopedStore

def inspectList (items : List String) : String :=
  "[" ++ ", ".intercalate items ++ "]"

def inspectMap (items : List String) : String :=
  "\x7b" ++ ", ".intercalate items ++ "\x7d"

/-- A shared slot shown with what it contains. -/
def inspectSlot (contents : String) : String :=
  "LocalScope(RefCell \x7b value: " ++ contents ++ " \x7d)"

namespace Value

def inspect : Value → String
  | int n => "Int(" ++ toString n.toInt ++ ")"
  | bool true => "Bool(true)"
  | bool false => "Bool(false)"
  | str s => "Str(" ++ Text.quoted s ++ ")"
  | symbol s => "Symbol(" ++ Text.quoted s ++ ")"
  | void => "Void"

end Value

namespace Address

def inspect (a : Address) : String :=
  "Address(" ++ toString a.index ++ ")"

end Address

namespace Store

def inspect (s : Store) : String :=
  "Store \x7b cells: " ++ inspectList (s.cells.toList.map Value.inspect) ++ " \x7d"

end Store

namespace Globals

/-- The history of a global frame, oldest first, and the newest address of each name. -/
def inspect (g : Globals) : String :=
  let history := g.history.toList
  "GlobalFrame \x7b names: " ++ inspectList (history.map fun b => Text.quoted b.1)
    ++ ", addresses: " ++ inspectList (history.map fun b => b.2.inspect)
    ++ ", newest: "
    ++ inspectMap (g.newest.toList.map fun b => Text.quoted b.1 ++ ": " ++ b.2.inspect)
    ++ " \x7d"

end Globals

namespace Frame

def inspect (f : Frame) : String :=
  inspectList (f.bindings.map fun b => "(" ++ Text.quoted b.1 ++ ", " ++ b.2.inspect ++ ")")

end Frame

namespace Env

/-- A chain over a global frame that holds `g`, innermost frame outermost in the text. -/
def inspect (e : Env) (g : Globals) : String :=
  e.frames.foldr
    (fun f enclosing =>
      "Extension(ExtensionFrame \x7b bindings: " ++ f.inspect ++ ", enclosing: " ++ enclosing
        ++ " \x7d)")
    ("Global(" ++ inspectSlot g.inspect ++ ")")

end Env

namespace Session

def inspect (s : Session) (w : World) : String :=
  "Session \x7b store: " ++ s.store.inspect ++ ", global: "
    ++ inspectSlot (w.globals s.root).inspect ++ " \x7d"

end Session

end ScopedStore
