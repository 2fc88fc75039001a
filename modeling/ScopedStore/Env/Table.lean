import ScopedStore.Env

/-!
# Named environments

Names for environments whose chains share frames. Every nested frame is stored once, with the
number of its holders: the names of environments that start with it and the stored frames
created directly on top of it. Releasing a name frees the frames that nothing holds any more,
outwards along the chain in a loop, and stops at the first frame that is still held; frames that
another name reaches stay as they are.
-/

namespace ScopedStore

/-- A stored frame: what it binds, the frame under it, and how many hold it. -/
structure Env.Node where
  bindings : List (String × Address)
  enclosing : Site
  holders : Nat
  deriving DecidableEq

abbrev Env.Nodes := Std.ExtTreeMap Nat Env.Node compare

/-- Names of environments, each given by its innermost frame, and the frames they share. -/
structure Env.Table where
  entries : Std.ExtTreeMap String Site compare := {}
  nodes : Env.Nodes := {}

/-- A bound on the length of a chain: a frame is created after the frames under it. -/
def Site.rank : Site → Nat
  | .root _ => 0
  | .nested id => id + 1

namespace Env.Nodes

/-- Adds a holder to the innermost frame of a chain, and stores the frames not stored yet. -/
def hold (nodes : Nodes) (root : Ref Globals) : List Frame → Nodes
  | [] => nodes
  | f :: rest =>
    match nodes[f.id]? with
    | some node => nodes.insert f.id { node with holders := node.holders + 1 }
    | none => hold (nodes.insert f.id ⟨f.bindings, Env.site ⟨rest, root⟩, 1⟩) root rest

/-- Takes a holder from a frame. A frame that loses its last one is freed, and with it its hold
on the frame under it; `fuel` bounds the number of frames freed. -/
def release (nodes : Nodes) : Nat → Site → Nodes
  | fuel + 1, .nested id =>
    match nodes[id]? with
    | some node =>
      if node.holders ≤ 1 then release (nodes.erase id) fuel node.enclosing
      else nodes.insert id { node with holders := node.holders - 1 }
    | none => nodes
  | _, _ => nodes

/-- The chain that starts at a frame, put behind the frames of `inner` in reverse. -/
def chain? (nodes : Nodes) : Nat → Site → List Frame → Option Env
  | _, .root r, inner => some ⟨inner.reverse, r⟩
  | fuel + 1, .nested id, inner =>
    match nodes[id]? with
    | some node => chain? nodes fuel node.enclosing (⟨id, node.bindings⟩ :: inner)
    | none => none
  | 0, .nested _, _ => none

end Env.Nodes

namespace Env.Table

instance : Inhabited Table := ⟨{}⟩

def contains (t : Table) (name : String) : Bool :=
  t.entries.contains name

def names (t : Table) : List String :=
  t.entries.keys

def get? (t : Table) (name : String) : Option Env :=
  t.entries[name]?.bind fun site => t.nodes.chain? site.rank site []

/-- Frees a name and whatever it alone was holding. -/
def erase (t : Table) (name : String) : Table :=
  match t.entries[name]? with
  | some site => { entries := t.entries.erase name, nodes := t.nodes.release site.rank site }
  | none => t

/-- Gives a name to an environment. What the name stood for before is released only after the
new chain is held, so that frames common to both survive. -/
def insert (t : Table) (name : String) (e : Env) : Table :=
  let held := t.nodes.hold e.root e.frames
  { entries := t.entries.insert name e.site
    nodes :=
      match t.entries[name]? with
      | some site => held.release site.rank site
      | none => held }

@[simp] theorem get?_empty (name : String) : ({} : Table).get? name = none := by
  simp [get?]

/-- An erased name stands for no environment. -/
@[simp] theorem get?_erase_self (t : Table) (name : String) : (t.erase name).get? name = none := by
  unfold erase
  split
  · simp [get?]
  · simp_all [get?]

end Env.Table

end ScopedStore
