import ScopedStore.Env.Walking
import ScopedStore.Proofs.Index
import ScopedStore.Proofs.Table.Chain

/-!
# Walks along links

A walk along the links of a chain is a fold over its frames, whatever the turns do. So the loops
that count the frames, go to the global frame, search for a name and collect the bindings read one
and the same list of frames, and a search finds what a scan of the collected bindings finds first.
-/

namespace ScopedStore

/-- Names and addresses that are put side by side can be read off the frame again. -/
theorem Frame.names_addresses_zip {names : List String} {addresses : List Address}
    (h : names.length = addresses.length) (id : Nat) :
    (Frame.mk id (names.zip addresses)).names = names ∧
      (Frame.mk id (names.zip addresses)).addresses = addresses :=
  ⟨List.map_fst_zip (Nat.le_of_eq h), List.map_snd_zip (Nat.le_of_eq h.symm)⟩

namespace Env

variable {σ β : Type} {e : Env}

def walked (e : Env) (turn : σ → Frame → Except β σ) (last : σ → Ref Globals → β) (s : σ) : β :=
  match e.frames.foldlM turn s with
  | .ok s => last s e.root
  | .error result => result

/-- All bindings that a search can meet, in the order in which it meets them: those of the nested
frames as they are listed, from the innermost frame on, and then those of the root from the newest
on. -/
def met (e : Env) (globals : Ref Globals → Globals) : List (String × Address) :=
  e.frames.flatMap (fun f => f.names.zip f.addresses) ++ (globals e.root).bindings

/-- A walk that no nested frame ends comes to the global frame with the states of all turns. -/
theorem walked_of_ok (e : Env) (step : σ → Frame → σ) (last : σ → Ref Globals → β) (s : σ) :
    e.walked (fun s f => .ok (step s f)) last s = last (e.frames.foldl step s) e.root := by
  have hfold : e.frames.foldlM (fun s f => (.ok (step s f) : Except β σ)) s =
      .ok (e.frames.foldl step s) := List.foldlM_pure
  simp only [walked, hfold]

/-- A search finds what is met first. -/
theorem find_eq_met {w : World} (h : (w.globals e.root).Indexed) (name : String) :
    w.find e name = Globals.found name ((e.met w.globals).lookup name) := by
  simp only [World.find_eq_found h, find?_eq_lookup, met, Frame.zip_names_addresses,
    List.lookup_append]

namespace Nodes.Chain

variable {nodes : Nodes} {site : Site}

/-- A walk along links is a fold over the frames of the chain. -/
theorem walk_eq (h : Chain nodes site e) (ho : Ordered nodes) (turn : σ → Frame → Except β σ)
    (last : σ → Ref Globals → β) :
    ∀ (turns : Nat) (s : σ), site.rank ≤ turns →
      nodes.walk turn last turns site s = some (e.walked turn last s) := by
  -- The frames are numbered downwards, so the turns that are left cover the rank of the site.
  induction h with
  | root r =>
      intro turns s _
      cases turns <;> rfl
  | @nested id node e hnode _ ih =>
      intro turns s hturns
      cases turns with
      | zero => exact absurd hturns (Nat.not_succ_le_zero id)
      | succ turns =>
          have hrank : node.enclosing.rank ≤ turns :=
            Nat.le_trans (ho id node hnode) (Nat.le_of_succ_le_succ hturns)
          simp only [walk, hnode, walked, List.foldlM_cons]
          cases turn s ⟨id, node.bindings⟩ with
          | ok s' => exact ih turns s' hrank
          | error result => rfl

/-- The loop that counts along the links counts the frames of the chain. -/
theorem depthOf_eq (h : Chain nodes site e) (ho : Ordered nodes) :
    nodes.depthOf site = some e.depth :=
  calc
    nodes.depthOf site =
        some (e.walked (fun depth _ => .ok (depth + 1)) (fun depth _ => depth) 0) :=
      h.walk_eq ho _ _ site.rank 0 (Nat.le_refl _)
    _ = some e.depth := by simp [walked_of_ok, depth]

theorem rootOf_eq (h : Chain nodes site e) (ho : Ordered nodes) :
    nodes.rootOf site = some e.root :=
  calc
    nodes.rootOf site = some (e.walked (fun s _ => .ok s) (fun _ r => r) ()) :=
      h.walk_eq ho _ _ site.rank () (Nat.le_refl _)
    _ = some e.root := by simp only [walked_of_ok]

/-- The loop that searches along the links finds what the chain binds. -/
theorem search_eq (h : Chain nodes site e) (ho : Ordered nodes) (w : World) (name : String) :
    nodes.search w.globals name site = some (w.find e name) := by
  have hwalked : ∀ (frames : List Frame) (root : Ref Globals),
      walked ⟨frames, root⟩ (seek name) (fun _ r => (w.globals r).find name) () =
        w.find ⟨frames, root⟩ name := by
    intro frames root
    induction frames with
    | nil => rfl
    | cons f rest ih =>
        simp only [walked, List.foldlM_cons, World.find, find?_cons, seek] at ih ⊢
        -- A frame that binds the name ends both searches, and any other one is passed by.
        cases hlocal : f.find? name with
        | some a => rfl
        | none => exact ih
  exact (h.walk_eq ho _ _ site.rank () (Nat.le_refl _)).trans
    (congrArg some (hwalked e.frames e.root))

/-- The loop that collects along the links lists all that a search can meet. -/
theorem collect_eq (h : Chain nodes site e) (ho : Ordered nodes) (globals : Ref Globals → Globals) :
    nodes.collect globals site = some (e.met globals) :=
  calc
    nodes.collect globals site = some (e.walked (fun met f => .ok (met ++ f.names.zip f.addresses))
        (fun met r => met ++ (globals r).bindings) []) :=
      h.walk_eq ho _ _ site.rank [] (Nat.le_refl _)
    _ = some (e.met globals) := by
      simp [walked_of_ok, met, List.flatMap_def]

end Nodes.Chain

end Env

end ScopedStore
