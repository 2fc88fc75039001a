import ScopedStore.Env.Table

/-!
# Chains of stored frames

`Chain nodes site e` says that the stored frames spell out the environment `e` from its innermost
frame `site` on. A site has at most one chain. When every frame lies above the one it stands on,
the search that a table makes finds exactly this chain, and so the environment of a name can be
read off the relation.
-/

namespace ScopedStore.Env

namespace Nodes

/-- The environment that the stored frames spell out from an innermost frame. -/
inductive Chain (nodes : Nodes) : Site → Env → Prop where
  | root (r : Ref Globals) : Chain nodes (.root r) (.ofRoot r)
  | nested {id : Nat} {node : Node} {e : Env} :
      nodes[id]? = some node → Chain nodes node.enclosing e →
        Chain nodes (.nested id) { e with frames := ⟨id, node.bindings⟩ :: e.frames }

def Ordered (nodes : Nodes) : Prop :=
  ∀ (id : Nat) (node : Node), nodes[id]? = some node → node.enclosing.rank ≤ id

/-- The frames of one map are frames of the other, up to the number of their holders. -/
def Within (nodes nodes' : Nodes) : Prop :=
  ∀ (id : Nat) (node : Node), nodes[id]? = some node →
    ∃ holders, nodes'[id]? = some { node with holders }

/-- Frames that can be stored: they are numbered downwards, and where a number is in use it is in
use for the same frame. -/
def Fits (nodes : Nodes) (root : Ref Globals) : List Frame → Prop
  | [] => True
  | f :: rest =>
    (∀ node : Node, nodes[f.id]? = some node →
      node.bindings = f.bindings ∧ node.enclosing = site ⟨rest, root⟩) ∧
    (∀ g ∈ rest, g.id < f.id) ∧ Fits nodes root rest

variable {nodes nodes' : Nodes} {site : Site} {e : Env}

theorem Within.refl (nodes : Nodes) : Within nodes nodes :=
  fun _ node h => ⟨node.holders, h⟩

theorem Within.trans {nodes'' : Nodes} (h : Within nodes nodes') (h' : Within nodes' nodes'') :
    Within nodes nodes'' := by
  intro id node hnode
  rcases h id node hnode with ⟨holders, hnode'⟩
  rcases h' id _ hnode' with ⟨holders', hnode''⟩
  exact ⟨holders', hnode''⟩

namespace Chain

theorem site_eq (h : Chain nodes site e) : e.site = site := by
  cases h with
  | root r => rfl
  | nested _ _ => rfl

/-- A site has one chain at most. -/
theorem unique {e' : Env} (h : Chain nodes site e) (h' : Chain nodes site e') : e = e' := by
  induction h generalizing e' with
  | root r =>
      cases h'
      rfl
  | nested hnode _ ih =>
      cases h' with
      | nested hnode' htail =>
          have hsame := Option.some.inj (hnode.symm.trans hnode')
          subst hsame
          rw [ih htail]

/-- A chain is still there when frames are added. -/
theorem mono (h : Chain nodes site e) (hw : Within nodes nodes') : Chain nodes' site e := by
  induction h with
  | root r => exact .root r
  | @nested id node e hnode _ ih =>
      rcases hw id node hnode with ⟨holders, hnode'⟩
      -- The number of holders is no part of the chain, so the changed node spells out the same
      -- frame.
      exact @Chain.nested nodes' id { node with holders } e hnode' ih

/-- Every frame of a chain is stored. -/
theorem isSome_of_mem (h : Chain nodes site e) : ∀ f ∈ e.frames, (nodes[f.id]?).isSome := by
  induction h with
  | root r =>
      intro f hf
      cases hf
  | @nested id node e hnode _ ih =>
      intro f hf
      rcases List.mem_cons.1 hf with rfl | hf
      · exact Option.isSome_of_eq_some hnode
      · exact ih f hf

/-- Every frame of a chain is numbered below the rank of its innermost one. -/
theorem id_lt_rank (h : Chain nodes site e) (ho : Ordered nodes) :
    ∀ f ∈ e.frames, f.id < site.rank := by
  induction h with
  | root r =>
      intro f hf
      cases hf
  | @nested id node e hnode _ ih =>
      intro f hf
      rcases List.mem_cons.1 hf with rfl | hf
      · exact Nat.lt_succ_self id
      · exact Nat.lt_succ_of_lt (Nat.lt_of_lt_of_le (ih f hf) (ho id node hnode))

/-- A chain that is stored could be stored again. -/
theorem fits (h : Chain nodes site e) (ho : Ordered nodes) : Fits nodes e.root e.frames := by
  induction h with
  | root r => exact trivial
  | @nested id node e hnode htail ih =>
      refine ⟨?_, ?_, ih⟩
      · intro node' hnode'
        have hsame := Option.some.inj (hnode.symm.trans hnode')
        subst hsame
        exact ⟨rfl, htail.site_eq.symm⟩
      · intro g hg
        exact Nat.lt_of_lt_of_le (htail.id_lt_rank ho g hg) (ho id node hnode)

/-- The search along the stored frames finds the chain. -/
theorem chain?_eq (h : Chain nodes site e) (ho : Ordered nodes) :
    ∀ (fuel : Nat) (inner : List Frame), site.rank ≤ fuel →
      nodes.chain? fuel site inner = some ⟨inner.reverse ++ e.frames, e.root⟩ := by
  -- The search carries the frames that it has passed in `inner`, so the statement has to hold for
  -- all of them; the rank of the site is what the fuel has to cover.
  induction h with
  | root r =>
      intro fuel inner _
      simp [chain?, Env.ofRoot]
  | @nested id node e hnode _ ih =>
      intro fuel inner hfuel
      cases fuel with
      | zero => exact absurd hfuel (Nat.not_succ_le_zero id)
      | succ fuel =>
          have hrank : node.enclosing.rank ≤ fuel :=
            Nat.le_trans (ho id node hnode) (Nat.le_of_succ_le_succ hfuel)
          simp [chain?, hnode, ih fuel (⟨id, node.bindings⟩ :: inner) hrank]

end Chain

/-! ## Frames that fit -/

theorem Fits.of_within {root : Ref Globals} {frames : List Frame} (h : Fits nodes' root frames)
    (hw : Within nodes nodes') : Fits nodes root frames := by
  induction frames with
  | nil => exact trivial
  | cons f rest ih =>
      rcases h with ⟨hsame, hbelow, hrest⟩
      refine ⟨?_, hbelow, ih hrest⟩
      intro node hnode
      rcases hw f.id node hnode with ⟨holders, hnode'⟩
      exact hsame { node with holders } hnode'

/-- A frame with a number that is not in use fits on top of frames numbered below it. -/
theorem Fits.cons {root : Ref Globals} {frames : List Frame} (h : Fits nodes root frames)
    {f : Frame} (hfree : nodes[f.id]? = none) (hbelow : ∀ g ∈ frames, g.id < f.id) :
    Fits nodes root (f :: frames) := by
  refine ⟨?_, hbelow, h⟩
  intro node hnode
  rw [hfree] at hnode
  cases hnode

end Nodes

end ScopedStore.Env
