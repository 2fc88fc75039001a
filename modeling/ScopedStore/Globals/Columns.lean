import ScopedStore.Globals

/-!
# A global frame in columns

How the bindings of a global frame are laid out. Their names and their addresses stand in two
columns that grow side by side, and the index beside the columns has the newest address of each
name. The columns are put together again only where all bindings are listed.
-/

namespace ScopedStore.Globals

/-- The names of all bindings, oldest first, their addresses in the same order, and the newest
address of each name. -/
structure Columns where
  names : Array String := #[]
  addresses : Array Address := #[]
  newest : Std.ExtTreeMap String Address compare := {}

def columns (g : Globals) : Columns where
  names := g.history.map Prod.fst
  addresses := g.history.map Prod.snd
  newest := g.newest

namespace Columns

instance : Inhabited Columns := ⟨{}⟩

def size (c : Columns) : Nat :=
  c.names.size

def push (c : Columns) (name : String) (a : Address) : Columns where
  names := c.names.push name
  addresses := c.addresses.push a
  newest := c.newest.insert name a

def ofList (bindings : List (String × Address)) : Columns :=
  bindings.foldl (fun c b => c.push b.1 b.2) {}

def find (c : Columns) (name : String) : Except Fault Address :=
  match c.newest[name]? with
  | some a => .ok a
  | none => .error (.unbound name)

/-- Every binding, newest first: the columns side by side, read from their ends. -/
def bindings (c : Columns) : List (String × Address) :=
  (c.names.toList.zip c.addresses.toList).reverse

end Columns

/-! ## The columns of a frame -/

@[simp] theorem columns_empty : ({} : Globals).columns = {} := by
  simp [columns]

@[simp] theorem columns_push (g : Globals) (name : String) (a : Address) :
    (g.push name a).columns = g.columns.push name a := by
  simp [columns, push, Columns.push]

/-- The columns of a frame answer what the frame answers. -/
@[simp] theorem size_columns (g : Globals) : g.columns.size = g.size := by
  simp [columns, Columns.size, size]

@[simp] theorem find_columns (g : Globals) (name : String) :
    g.columns.find name = g.find name := rfl

@[simp] theorem bindings_columns (g : Globals) : g.columns.bindings = g.bindings := by
  have hzip : (g.history.toList.map Prod.fst).zip (g.history.toList.map Prod.snd) =
      g.history.toList := by
    simpa [List.unzip_eq_map] using List.zip_unzip g.history.toList
  simp [columns, Columns.bindings, bindings, hzip]

end ScopedStore.Globals
