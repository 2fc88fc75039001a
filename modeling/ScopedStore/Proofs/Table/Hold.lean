import ScopedStore.Proofs.Table.Release

/-!
# Holding an environment

A hold stores the frames of an environment that are not stored yet and counts one more holder of
its innermost frame. A sound table stays sound, keeps every chain it had, and has the chain of the
environment besides.
-/

namespace ScopedStore.Env

open Nodes

namespace Table

variable {t : Table} {bound : Nat} {extra : List Site}

/-- A frame that was stored holds the one that it stands on, and no other hold changes. -/
theorem held?_store (t : Table) (id : Nat) (bindings : List (String × Address)) (site : Site)
    (h : Holder) :
    (t.withNodes (t.nodes.insert id ⟨bindings, site, 1⟩)).held? h =
      if h = .frame id then some site else t.held? h := by
  cases h with
  | name s => simp [held?]
  | frame j =>
      by_cases hj : j = id
      · subst hj
        simp [held?]
      · simp [held?, Lookup.getElem?_insert, hj]

namespace Sound

/-- Storing a frame with a new number on top of a site that was counted in advance. -/
theorem store {site : Site} (h : Sound t bound (site :: extra)) {id : Nat}
    (hfree : t.nodes[id]? = none) (hbound : id < bound) (hrank : site.rank ≤ id)
    (bindings : List (String × Address)) :
    Sound (t.withNodes (t.nodes.insert id ⟨bindings, site, 1⟩)) bound (.nested id :: extra) := by
  have hget : ∀ j : Nat, (t.nodes.insert id ⟨bindings, site, 1⟩)[j]? =
      if j = id then some ⟨bindings, site, 1⟩ else t.nodes[j]? :=
    fun j => Lookup.getElem?_insert t.nodes id j _
  -- No frame that was stored is overwritten, for the number was free.
  have hkept : ∀ j : Nat, (t.nodes[j]?).isSome →
      ((t.nodes.insert id ⟨bindings, site, 1⟩)[j]?).isSome := by
    intro j hj
    rw [hget]
    split
    · rfl
    · exact hj
  have hself : site ≠ .nested id := by
    rintro rfl
    exact absurd hrank (Nat.not_succ_le_self id)
  refine ⟨?_, ?_, ?_, ?_, ?_⟩
  · intro j other hj
    change (t.nodes.insert id ⟨bindings, site, 1⟩)[j]? = some other at hj
    rw [hget] at hj
    split at hj
    · rename_i heq
      cases hj
      rw [heq]
      exact hrank
    · exact h.ordered j other hj
  · intro j other hj
    change (t.nodes.insert id ⟨bindings, site, 1⟩)[j]? = some other at hj
    rw [hget] at hj
    split at hj
    · rename_i heq
      rw [heq]
      exact hbound
    · exact h.bounded j other hj
  · intro holder j hheld
    rw [held?_store] at hheld
    split at hheld
    · have hsite := Option.some.inj hheld
      exact hkept j (h.storedExtra j (List.mem_cons.2 (Or.inl hsite.symm)))
    · exact hkept j (h.stored holder j hheld)
  · intro j hj
    rcases List.mem_cons.1 hj with hnew | hj
    · cases hnew
      change ((t.nodes.insert id ⟨bindings, site, 1⟩)[id]?).isSome
      rw [hget, if_pos rfl]
      rfl
    · exact hkept j (h.storedExtra j (List.mem_cons_of_mem _ hj))
  · intro j other hj hs hnodup hheld
    change (t.nodes.insert id ⟨bindings, site, 1⟩)[j]? = some other at hj
    rw [hget] at hj
    split at hj
    · -- Nothing held the new frame before, and the one count is the one in advance.
      rename_i heq
      subst heq
      cases hj
      have hnone : hs = [] := by
        rw [List.eq_nil_iff_forall_not_mem]
        intro holder hmem
        have hnew := hheld holder hmem
        rw [held?_store] at hnew
        split at hnew
        · exact hself (Option.some.inj hnew)
        · exact h.held?_ne_of_free hfree holder hnew
      have hextra : extra.count (.nested j) = 0 :=
        List.count_eq_zero.2 fun hmem => h.not_mem_of_free hfree (List.mem_cons_of_mem _ hmem)
      rw [hnone, List.count_cons_self, hextra]
      exact Nat.le_refl 1
    · -- The new frame took over the count made in advance for the site that it stands on.
      rename_i hne
      have hunheld : t.held? (.frame id) = none := by simp [held?, hfree]
      have hexchanged := count_exchange (held?_store t id bindings site) (h.counted j other hj)
      rw [hunheld] at hexchanged
      rw [count_cons_nested_of_ne hne]
      exact hexchanged hs hnodup hheld

end Sound

/-- Storing frames and inserting another one may be done in either order. -/
theorem hold_insert {id : Nat} (root : Ref Globals) (node : Node) (frames : List Frame) :
    ∀ nodes : Nodes, (∀ f ∈ frames, f.id ≠ id) →
      Nodes.hold (nodes.insert id node) root frames = (nodes.hold root frames).insert id node := by
  induction frames with
  | nil =>
      intro nodes _
      rfl
  | cons f rest ih =>
      -- Induction on the frames: the insertion moves past each one, and past whatever it stores.
      intro nodes hne
      have hf : f.id ≠ id := hne f List.mem_cons_self
      have hrest : ∀ g ∈ rest, g.id ≠ id := fun g hg => hne g (List.mem_cons_of_mem _ hg)
      have hget : (nodes.insert id node)[f.id]? = nodes[f.id]? := by
        rw [Lookup.getElem?_insert, if_neg hf]
      unfold Nodes.hold
      rw [hget]
      cases nodes[f.id]? with
      | some other => exact Lookup.insert_comm nodes hf.symm _ _
      | none =>
          have hswap := Lookup.insert_comm nodes hf.symm node
            (⟨f.bindings, Env.site ⟨rest, root⟩, 1⟩ : Node)
          exact (congrArg (Nodes.hold · root rest) hswap).trans (ih _ hrest)

/-- Where the frames that are stored after a hold come from. -/
theorem hold_origin (root : Ref Globals) (frames : List Frame) :
    ∀ {nodes : Nodes} {id : Nat} {node : Node}, (nodes.hold root frames)[id]? = some node →
      (∃ holders, nodes[id]? = some { node with holders }) ∨
        nodes[id]? = none ∧ ∃ f ∈ frames, f.id = id := by
  induction frames with
  | nil =>
      intro nodes id node h
      exact Or.inl ⟨node.holders, h⟩
  | cons f rest ih =>
      intro nodes id node h
      -- Either the innermost frame is stored and only counted again, or it is stored and the rest
      -- held.
      unfold Nodes.hold at h
      split at h
      · rename_i other hother
        rcases recount_within hother _ id node h with ⟨holders, hold⟩
        exact Or.inl ⟨holders, hold⟩
      · rename_i hnone
        by_cases hid : id = f.id
        · subst hid
          exact Or.inr ⟨hnone, f, List.mem_cons_self, rfl⟩
        · rcases ih h with ⟨holders, hold⟩ | ⟨hold, g, hg, hgid⟩
          · rw [Lookup.getElem?_insert, if_neg hid] at hold
            exact Or.inl ⟨holders, hold⟩
          · rw [Lookup.getElem?_insert, if_neg hid] at hold
            exact Or.inr ⟨hold, g, List.mem_cons_of_mem _ hg, hgid⟩

/-- A number that is free stays free when frames with smaller numbers are held. -/
theorem hold_getElem?_none {root : Ref Globals} {frames : List Frame} {nodes : Nodes} {id : Nat}
    (hfree : nodes[id]? = none) (hbelow : ∀ g ∈ frames, g.id < id) :
    (nodes.hold root frames)[id]? = none := by
  cases hnew : (nodes.hold root frames)[id]? with
  | none => rfl
  | some node =>
      rcases hold_origin root frames hnew with ⟨_, hold⟩ | ⟨-, g, hg, hid⟩
      · rw [hfree] at hold
        cases hold
      · exact absurd hid (Nat.ne_of_lt (hbelow g hg))

/-- A frame that is not stored yet is stored on top of the frames that the rest of its chain needs. -/
theorem hold_cons_of_none {root : Ref Globals} {f : Frame} {rest : List Frame} {nodes : Nodes}
    (hfree : nodes[f.id]? = none) (hbelow : ∀ g ∈ rest, g.id < f.id) :
    nodes.hold root (f :: rest) =
      (nodes.hold root rest).insert f.id ⟨f.bindings, Env.site ⟨rest, root⟩, 1⟩ := by
  rw [← hold_insert root _ rest nodes fun g hg => Nat.ne_of_lt (hbelow g hg)]
  simp [Nodes.hold, hfree]

/-- A frame with an unused number does not change the frames that there are. -/
theorem within_insert_of_none {nodes : Nodes} {id : Nat} (hfree : nodes[id]? = none)
    (node : Node) : Within nodes (nodes.insert id node) := by
  intro j other hj
  have hne : j ≠ id := by
    rintro rfl
    rw [hfree] at hj
    cases hj
  exact ⟨other.holders, by rw [Lookup.getElem?_insert, if_neg hne, hj]⟩

theorem rank_site_le {root : Ref Globals} {frames : List Frame} {id : Nat}
    (hbelow : ∀ g ∈ frames, g.id < id) : (Env.site ⟨frames, root⟩).rank ≤ id := by
  cases frames with
  | nil => exact Nat.zero_le id
  | cons g _ => exact hbelow g List.mem_cons_self

/-- Frames that fit go on to fit when others are held, provided that none of those that are stored
by it takes a number of theirs. -/
theorem fits_hold {nodes : Nodes} {root root' : Ref Globals} {frames others : List Frame}
    (h : Fits nodes root frames)
    (hstored : ∀ f ∈ frames, ∀ g ∈ others, g.id = f.id → (nodes[g.id]?).isSome) :
    Fits (nodes.hold root' others) root frames := by
  induction frames with
  | nil => exact trivial
  | cons f rest ih =>
      rcases h with ⟨hsame, hbelow, hrest⟩
      refine ⟨?_, hbelow, ih hrest fun g hg => hstored g (List.mem_cons_of_mem f hg)⟩
      intro node hnode
      rcases hold_origin root' others hnode with ⟨holders, hold⟩ | ⟨hnone, g, hg, hid⟩
      · exact hsame { node with holders } hold
      · have hsome := hstored f List.mem_cons_self g hg hid
        rw [hid, hnone] at hsome
        cases hsome

namespace Sound

/-- A hold stores a chain and counts its innermost frame once more. -/
theorem hold {root : Ref Globals} (h : Sound t bound extra) :
    ∀ {frames : List Frame}, Fits t.nodes root frames → (∀ f ∈ frames, f.id < bound) →
      Sound (t.withNodes (t.nodes.hold root frames)) bound (Env.site ⟨frames, root⟩ :: extra) ∧
        Within t.nodes (t.nodes.hold root frames) ∧
          Chain (t.nodes.hold root frames) (Env.site ⟨frames, root⟩) ⟨frames, root⟩ := by
  intro frames
  induction frames with
  | nil =>
      intro _ _
      exact ⟨(root_iff root).2 h, Within.refl _, .root root⟩
  | cons f rest ih =>
      intro hfits hbound
      have hchain_some := h.chain_of_fits hfits
      rcases hfits with ⟨hsame, hbelow, hrest⟩
      cases hnode : t.nodes[f.id]? with
      | some node =>
          -- The whole chain is stored already, and only its innermost frame is counted again.
          have hhold : t.nodes.hold root (f :: rest) =
              t.nodes.insert f.id { node with holders := node.holders + 1 } := by
            simp [Nodes.hold, hnode]
          have hwithin := within_recount hnode (node.holders + 1)
          rw [hhold]
          refine ⟨h.recount hnode ?_ ?_ ?_, hwithin, Chain.mono (hchain_some ?_) hwithin⟩
          · intro j hj
            rcases List.mem_cons.1 hj with hnew | hj
            · exact Or.inr (Site.nested.inj hnew)
            · exact Or.inl hj
          · intro j hj
            exact count_cons_nested_of_ne hj extra
          · intro n hn
            change n + (Site.nested f.id :: extra).count (.nested f.id) ≤ node.holders + 1
            rw [List.count_cons_self]
            omega
          · intro id hid
            rw [← Site.nested.inj hid, hnode]
            rfl
      | none =>
          -- The rest of the chain is held first, and the new frame then takes over its count.
          rcases ih hrest fun g hg => hbound g (List.mem_cons_of_mem _ hg) with
            ⟨hsound, hwithin, hchain⟩
          have hfree := @hold_getElem?_none root rest t.nodes f.id hnode hbelow
          have hadd := within_insert_of_none hfree ⟨f.bindings, Env.site ⟨rest, root⟩, 1⟩
          have hself : ((t.nodes.hold root rest).insert f.id
              ⟨f.bindings, Env.site ⟨rest, root⟩, 1⟩)[f.id]? =
                some ⟨f.bindings, Env.site ⟨rest, root⟩, 1⟩ := by simp
          rw [hold_cons_of_none hnode hbelow]
          exact ⟨hsound.store hfree (hbound f List.mem_cons_self) (rank_site_le hbelow) f.bindings,
            hwithin.trans hadd, .nested hself (hchain.mono hadd)⟩

end Sound

end Table

end ScopedStore.Env
