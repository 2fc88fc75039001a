import ScopedStore.Env.Table

/-!
# Walking out of a chain

The loops that read a chain link by link, from a stored frame out to the global frame under it. All
of them are one walk, and differ in what they do with a nested frame and in where they end. What
they come to can be read off the frames of the environment, and the functions of `Env` do so.
-/

namespace ScopedStore.Env.Nodes

/-- Follows links for at most so many turns. Each turn either goes on from a nested frame to the one
under it, with a new state, or ends the walk with a result; the global frame ends every walk. A link
to a frame that is not stored leads nowhere. -/
def walk {σ β : Type} (nodes : Nodes) (turn : σ → Frame → Except β σ) (last : σ → Ref Globals → β) :
    Nat → Site → σ → Option β
  | _, .root r, s => some (last s r)
  | turns + 1, .nested id, s =>
    match nodes[id]? with
    | some node =>
      match turn s ⟨id, node.bindings⟩ with
      | .ok s => walk nodes turn last turns node.enclosing s
      | .error result => some result
    | none => none
  | 0, .nested _, _ => none

def depthOf (nodes : Nodes) (site : Site) : Option Nat :=
  nodes.walk (fun depth _ => .ok (depth + 1)) (fun depth _ => depth) site.rank site 0

def rootOf (nodes : Nodes) (site : Site) : Option (Ref Globals) :=
  nodes.walk (fun s _ => .ok s) (fun _ r => r) site.rank site ()

/-- A turn of a search: a frame that lists the name ends it, and any other one is passed by. -/
def seek (name : String) (s : Unit) (f : Frame) : Except (Except Fault Address) Unit :=
  match f.find? name with
  | some a => .error (.ok a)
  | none => .ok s

def search (nodes : Nodes) (globals : Ref Globals → Globals) (name : String) (site : Site) :
    Option (Except Fault Address) :=
  nodes.walk (seek name) (fun _ r => (globals r).find name) site.rank site ()

/-- Puts the bindings of all frames one behind the other. -/
def collect (nodes : Nodes) (globals : Ref Globals → Globals) (site : Site) :
    Option (List (String × Address)) :=
  nodes.walk (fun met f => .ok (met ++ f.names.zip f.addresses))
    (fun met r => met ++ (globals r).bindings) site.rank site []

end ScopedStore.Env.Nodes
