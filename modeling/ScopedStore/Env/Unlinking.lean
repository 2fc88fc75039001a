import ScopedStore.Env.Table

/-!
# Taking a chain apart

How a frame that loses its last holder lets go of the chain under it, link by link. The link to the
frame under it is taken out, and a link to a detached global frame is put in its place, so that the
frame can be freed without its chain. The same is done to the frame that the link led to, if it has
no other holder, and so on outwards; a frame that is held elsewhere ends the walk and only loses a
holder. The frames that were taken apart are freed in the end, and what is left is what
`Env.Nodes.release` leaves.
-/

namespace ScopedStore.Env.Nodes

/-- Puts a link to the detached global frame in place of the link of a frame that nothing holds any
more. -/
def tear (nodes : Nodes) (detached : Ref Globals) (id : Nat) (node : Node) : Nodes :=
  nodes.insert id { node with enclosing := .root detached, holders := 0 }

/-- Follows a link, for at most so many turns. Each turn takes the frame that the link leads to
apart and goes on with the link that it had; a frame with another holder is the last. The frames
that were taken apart are given by their numbers. -/
def unlink (detached : Ref Globals) (nodes : Nodes) : Nat → Site → Nodes × List Nat
  | turns + 1, .nested id =>
    match nodes[id]? with
    | some node =>
      if node.holders ≤ 1 then
        let (nodes, torn) := unlink detached (nodes.tear detached id node) turns node.enclosing
        (nodes, id :: torn)
      else (nodes.insert id { node with holders := node.holders - 1 }, [])
    | none => (nodes, [])
  | _, _ => (nodes, [])

/-- A frame that stands on a global frame and is held no more than once. It has no chain to let go
of, and keeps its link. -/
def bottom? (nodes : Nodes) : Site → Option (Nat × Node)
  | .root _ => none
  | .nested id =>
    match nodes[id]? with
    | some ⟨bindings, .root r, holders⟩ =>
      if holders ≤ 1 then some (id, ⟨bindings, .root r, holders⟩) else none
    | _ => none

/-- Takes a holder from a frame, and takes the chain apart that nothing else holds. The frames that
are to be freed are given by their numbers. -/
def letGo (detached : Ref Globals) (nodes : Nodes) (turns : Nat) (site : Site) :
    Nodes × List Nat :=
  match nodes.bottom? site with
  | some (id, node) => (nodes.insert id { node with holders := 0 }, [id])
  | none => nodes.unlink detached turns site

def free (nodes : Nodes) (ids : List Nat) : Nodes :=
  ids.foldl (fun nodes id => nodes.erase id) nodes

end ScopedStore.Env.Nodes
