import ScopedStore.Env.Unlinking
import ScopedStore.Proofs.Table.Names

/-!
# Chains that are taken apart

Taking a chain apart touches only frames that nothing else holds. After any number of turns every
chain that starts at a name is spelled out as before, by the links as they are then: none of its
frames has been torn, so none of its links leads to the detached global frame. When the torn frames
have been freed, the frames that are left are those that a release leaves.
-/

namespace ScopedStore.Env

open Nodes Table

namespace Nodes

variable {nodes : Nodes} {detached : Ref Globals} {id : Nat} {node : Node} {site : Site}

/-- A torn frame stands on a global frame, which is below every other. -/
theorem ordered_tear (h : Ordered nodes) (detached : Ref Globals) (id : Nat) (node : Node) :
    Ordered (nodes.tear detached id node) := by
  intro j other hj
  rw [tear, Lookup.getElem?_insert] at hj
  split at hj
  · cases hj
    exact Nat.zero_le j
  · exact h j other hj

theorem ordered_erase (h : Ordered nodes) (id : Nat) : Ordered (nodes.erase id) :=
  fun j other hj => h j other (Lookup.getElem?_of_erase hj)

theorem unlink_torn {turns : Nat} (hnode : nodes[id]? = some node) (hlast : node.holders ≤ 1) :
    nodes.unlink detached (turns + 1) (.nested id) =
      (((nodes.tear detached id node).unlink detached turns node.enclosing).1,
        id :: ((nodes.tear detached id node).unlink detached turns node.enclosing).2) := by
  simp [unlink, hnode, hlast]

theorem unlink_shared {turns : Nat} (hnode : nodes[id]? = some node)
    (hshared : ¬ node.holders ≤ 1) :
    nodes.unlink detached (turns + 1) (.nested id) =
      (nodes.insert id { node with holders := node.holders - 1 }, []) := by
  simp [unlink, hnode, hshared]

theorem unlink_free {turns : Nat} (hnone : nodes[id]? = none) :
    nodes.unlink detached (turns + 1) (.nested id) = (nodes, []) := by
  simp [unlink, hnone]

/-- Frames past the one that a link leads to play no part when the link is followed. -/
theorem unlink_insert (detached : Ref Globals) (other : Node) (turns : Nat) :
    ∀ {nodes : Nodes} {site : Site}, Ordered nodes → site.rank ≤ id →
      unlink detached (nodes.insert id other) turns site =
        ((nodes.unlink detached turns site).1.insert id other,
          (nodes.unlink detached turns site).2) := by
  -- Each turn leads to a frame with a smaller number, so the insertion moves past all of them.
  induction turns with
  | zero =>
      intro nodes site _ _
      cases site <;> rfl
  | succ turns ih =>
      intro nodes site ho hrank
      cases site with
      | root r => rfl
      | nested j =>
          have hj : j ≠ id := Nat.ne_of_lt hrank
          have hget : (nodes.insert id other)[j]? = nodes[j]? := by
            rw [Lookup.getElem?_insert, if_neg hj]
          cases hnode : nodes[j]? with
          | none => rw [unlink_free (hget.trans hnode), unlink_free hnode]
          | some node =>
              by_cases hlast : node.holders ≤ 1
              · have hswap : tear (nodes.insert id other) detached j node =
                    (nodes.tear detached j node).insert id other :=
                  Lookup.insert_comm nodes hj.symm _ _
                have hbelow : node.enclosing.rank ≤ id :=
                  Nat.le_trans (ho j node hnode) (Nat.le_of_lt hrank)
                rw [unlink_torn (hget.trans hnode) hlast, unlink_torn hnode hlast, hswap,
                  ih (ordered_tear ho detached j node) hbelow]
              · rw [unlink_shared (hget.trans hnode) hlast, unlink_shared hnode hlast,
                  Lookup.insert_comm nodes hj.symm]

/-- Following a link changes no frame past the one that it leads to. -/
theorem unlink_getElem? (detached : Ref Globals) (turns : Nat) :
    ∀ {nodes : Nodes} {site : Site}, Ordered nodes → site.rank ≤ id →
      (nodes.unlink detached turns site).1[id]? = nodes[id]? := by
  induction turns with
  | zero =>
      intro nodes site _ _
      cases site <;> rfl
  | succ turns ih =>
      intro nodes site ho hrank
      cases site with
      | root r => rfl
      | nested j =>
          have hj : id ≠ j := Nat.ne_of_gt hrank
          cases hnode : nodes[j]? with
          | none => rw [unlink_free hnode]
          | some node =>
              by_cases hlast : node.holders ≤ 1
              · have hbelow : node.enclosing.rank ≤ id :=
                  Nat.le_trans (ho j node hnode) (Nat.le_of_lt hrank)
                rw [unlink_torn hnode hlast, ih (ordered_tear ho detached j node) hbelow, tear,
                  Lookup.getElem?_insert, if_neg hj]
              · rw [unlink_shared hnode hlast, Lookup.getElem?_insert, if_neg hj]

/-- A torn frame is apart from all that happens afterwards: it might as well be gone already. -/
theorem unlink_torn_eq {turns : Nat} (ho : Ordered nodes) (hnode : nodes[id]? = some node)
    (hlast : node.holders ≤ 1) :
    nodes.unlink detached (turns + 1) (.nested id) =
      ((unlink detached (nodes.erase id) turns node.enclosing).1.insert id
          { node with enclosing := .root detached, holders := 0 },
        id :: (unlink detached (nodes.erase id) turns node.enclosing).2) := by
  have htear : nodes.tear detached id node =
      (nodes.erase id).insert id { node with enclosing := .root detached, holders := 0 } := by
    apply Std.ExtTreeMap.ext_getElem?
    intro j
    simp only [tear, Lookup.getElem?_insert, Lookup.getElem?_erase]
    split <;> rfl
  rw [unlink_torn hnode hlast, htear,
    unlink_insert detached _ turns (ordered_erase ho id) (ho id node hnode)]

theorem erase_insert_of_none (hnone : nodes[id]? = none) (node : Node) :
    (nodes.insert id node).erase id = nodes := by
  apply Std.ExtTreeMap.ext_getElem?
  intro j
  rw [Lookup.getElem?_erase, Lookup.getElem?_insert]
  split
  · rename_i hj
    rw [hj, hnone]
  · rfl

/-- When the torn frames have been freed, what is left is what a release leaves. -/
theorem free_unlink (detached : Ref Globals) (turns : Nat) :
    ∀ {nodes : Nodes} {site : Site}, Ordered nodes →
      (nodes.unlink detached turns site).1.free (nodes.unlink detached turns site).2 =
        nodes.release turns site := by
  induction turns with
  | zero =>
      intro nodes site _
      cases site <;> rfl
  | succ turns ih =>
      intro nodes site ho
      cases site with
      | root r => rfl
      | nested id =>
          cases hnode : nodes[id]? with
          | none => simp [unlink_free hnode, free, release, hnode]
          | some node =>
              by_cases hlast : node.holders ≤ 1
              · have hrelease : nodes.release (turns + 1) (.nested id) =
                    release (nodes.erase id) turns node.enclosing := by
                  simp [release, hnode, hlast]
                have hgone : (unlink detached (nodes.erase id) turns node.enclosing).1[id]? =
                    none := by
                  rw [unlink_getElem? detached turns (ordered_erase ho id) (ho id node hnode)]
                  simp
                have hrest := @ih (nodes.erase id) node.enclosing (ordered_erase ho id)
                rw [unlink_torn_eq ho hnode hlast, hrelease, ← hrest]
                simp only [free, List.foldl_cons, erase_insert_of_none hgone]
              · simp [unlink_shared hnode hlast, free, release, hnode, hlast]

/-- The link of a frame changes only when the frame is torn, and then it leads to the detached
global frame. -/
theorem unlink_enclosing (detached : Ref Globals) (j : Nat) (turns : Nat) :
    ∀ {nodes : Nodes} {site : Site}, Ordered nodes →
      (nodes.unlink detached turns site).1[j]?.map Node.enclosing =
        if j ∈ (nodes.unlink detached turns site).2 then some (.root detached)
        else nodes[j]?.map Node.enclosing := by
  induction turns with
  | zero =>
      intro nodes site _
      cases site <;> simp [unlink]
  | succ turns ih =>
      intro nodes site ho
      cases site with
      | root r => simp [unlink]
      | nested id =>
          cases hnode : nodes[id]? with
          | none => simp [unlink_free hnode]
          | some node =>
              by_cases hlast : node.holders ≤ 1
              · have hrest := @ih (nodes.erase id) node.enclosing (ordered_erase ho id)
                rw [unlink_torn_eq ho hnode hlast, Lookup.getElem?_insert]
                by_cases hj : j = id
                · simp [hj]
                · rw [Lookup.getElem?_erase, if_neg hj] at hrest
                  simpa [hj] using hrest
              · rw [unlink_shared hnode hlast, Lookup.getElem?_insert]
                by_cases hj : j = id
                · simp [hj, hnode]
                · simp [hj]

/-! ## The frame that is let go first -/

/-- The frame that keeps its link is held no more than once and stands on a global frame. -/
theorem bottom?_eq_some {pair : Nat × Node} (h : nodes.bottom? site = some pair) :
    site = .nested pair.1 ∧ nodes[pair.1]? = some pair.2 ∧ pair.2.holders ≤ 1 ∧
      ∃ r, pair.2.enclosing = .root r := by
  cases site with
  | root r => cases h
  | nested id =>
      simp only [bottom?] at h
      split at h
      · rename_i bindings r holders hnode
        split at h
        · rename_i hlast
          cases h
          exact ⟨rfl, hnode, hlast, r, rfl⟩
        · cases h
      · cases h

/-- When the torn frames have been freed, letting go comes to a release. -/
theorem free_letGo (detached : Ref Globals) {turns : Nat} (ho : Ordered nodes)
    (hrank : site.rank ≤ turns) :
    (nodes.letGo detached turns site).1.free (nodes.letGo detached turns site).2 =
      nodes.release turns site := by
  unfold letGo
  cases hbottom : nodes.bottom? site with
  | none => exact free_unlink detached turns ho
  | some pair =>
      rcases bottom?_eq_some hbottom with ⟨rfl, hnode, hlast, r, henclosing⟩
      cases turns with
      | zero => exact absurd hrank (Nat.not_succ_le_zero _)
      | succ turns =>
          -- The frame has no chain under it, so the release ends with it as well.
          have hrelease : nodes.release (turns + 1) (.nested pair.1) = nodes.erase pair.1 := by
            simp [release, hnode, hlast, henclosing]
          rw [hrelease]
          apply Std.ExtTreeMap.ext_getElem?
          intro j
          simp only [free, List.foldl_cons, List.foldl_nil, Lookup.getElem?_erase,
            Lookup.getElem?_insert]
          split <;> rfl

/-- The link of a frame changes only when the frame is torn, and then it leads to the detached
global frame, unless the frame stands on a global frame already. -/
theorem letGo_enclosing (detached : Ref Globals) (turns : Nat) (ho : Ordered nodes) (j : Nat) :
    (nodes.letGo detached turns site).1[j]?.map Node.enclosing =
      if j ∈ (nodes.letGo detached turns site).2 ∧ nodes.bottom? site = none then
        some (.root detached)
      else nodes[j]?.map Node.enclosing := by
  unfold letGo
  cases hbottom : nodes.bottom? site with
  | none => simpa using unlink_enclosing detached j turns ho
  | some pair =>
      -- There is one torn frame, which is put back with the link that it had.
      have hnode := (bottom?_eq_some hbottom).2.1
      simp only [Lookup.getElem?_insert, reduceCtorEq, and_false, if_false]
      by_cases hj : j = pair.1
      · simp [hj, hnode]
      · simp [hj]

end Nodes

/-! ## Chains that are spared -/

/-- A chain that the walk leaves alone: the frames as they are then spell it out, and none of its
own frames has been torn. -/
structure Spared (walk : Nodes × List Nat) (e : Env) : Prop where
  chain : Chain walk.1 e.site e
  untorn : ∀ f ∈ e.frames, f.id ∉ walk.2

namespace Table.Sound

variable {t : Table} {bound id : Nat} {extra : List Site} {node : Node} {site : Site}
variable {name : String} {e : Env}

/-- What a name holds does not need a frame that is freed with its last holder. -/
theorem chain_of_free (h : Sound t bound (.nested id :: extra)) (hnode : t.nodes[id]? = some node)
    (hlast : node.holders ≤ 1) (hentry : t.entries[name]? = some site)
    (hchain : Chain t.nodes site e) : Chain (t.nodes.erase id) site e := by
  rcases (h.free hnode hlast).chain_of_entry hentry with ⟨e', hchain'⟩
  have hsame : e' = e := (hchain'.mono (erase_within t.nodes id)).unique hchain
  exact hsame ▸ hchain'

/-- However far a walk from a site that is let go has come, it has spared what any name holds. -/
theorem unlink_spares (detached : Ref Globals) (turns : Nat) :
    ∀ {t : Table} {start : Site}, Sound t bound (start :: extra) →
      t.entries[name]? = some e.site → Chain t.nodes e.site e →
        Spared (t.nodes.unlink detached turns start) e := by
  induction turns with
  | zero =>
      intro t start _ _ hchain
      cases start <;> exact ⟨hchain, by simp [Nodes.unlink]⟩
  | succ turns ih =>
      intro t start h hentry hchain
      cases start with
      | root r => exact ⟨hchain, by simp [Nodes.unlink]⟩
      | nested id =>
          rcases Option.isSome_iff_exists.1 (h.storedExtra id List.mem_cons_self) with
            ⟨node, hnode⟩
          by_cases hlast : node.holders ≤ 1
          · -- The walk goes on as if the frame were gone, and the frame is one of the torn ones.
            have hfreed := h.chain_of_free hnode hlast hentry hchain
            have hrest := ih (h.free hnode hlast) hentry hfreed
            have hgone : (unlink detached (t.nodes.erase id) turns node.enclosing).1[id]? =
                none := by
              rw [unlink_getElem? detached turns (ordered_erase h.ordered id)
                (h.ordered id node hnode)]
              simp
            rw [unlink_torn_eq h.ordered hnode hlast]
            refine ⟨hrest.chain.mono (within_insert_of_none hgone _), ?_⟩
            intro f hf hmem
            rcases List.mem_cons.1 hmem with hid | hmem
            · have hsome := hfreed.isSome_of_mem f hf
              simp [hid] at hsome
            · exact hrest.untorn f hf hmem
          · rw [unlink_shared hnode hlast]
            exact ⟨hchain.mono (within_recount hnode _), by simp⟩

/-- Letting go of a site spares what any name holds, at every turn. -/
theorem letGo_spares (detached : Ref Globals) (turns : Nat) (h : Sound t bound (site :: extra))
    (hentry : t.entries[name]? = some e.site) (hchain : Chain t.nodes e.site e) :
    Spared (t.nodes.letGo detached turns site) e := by
  unfold letGo
  cases hbottom : t.nodes.bottom? site with
  | none => exact h.unlink_spares detached turns hentry hchain
  | some pair =>
      rcases bottom?_eq_some hbottom with ⟨rfl, hnode, hlast, -⟩
      have hfreed := h.chain_of_free hnode hlast hentry hchain
      refine ⟨hchain.mono (within_recount hnode 0), ?_⟩
      intro f hf hmem
      have hsome := hfreed.isSome_of_mem f hf
      simp [List.mem_singleton.1 hmem] at hsome

end Table.Sound

end ScopedStore.Env
