import ScopedStore.Proofs.Table.Sharing

/-!
# Releasing a frame

A release takes a holder away from a frame and frees what nothing holds any more, outwards along
the chain. In a sound table it pays for one site that was counted in advance: the table that it
leaves is sound without that site, and all frames in it are frames of the table before.
-/

namespace ScopedStore.Env

open Nodes

namespace Table

variable {t : Table} {bound : Nat} {extra : List Site}

abbrev withNodes (t : Table) (nodes : Nodes) : Table :=
  { t with nodes }

theorem held?_recount {id : Nat} {node : Node} (hnode : t.nodes[id]? = some node) (k : Nat)
    (h : Holder) :
    (t.withNodes (t.nodes.insert id { node with holders := k })).held? h = t.held? h := by
  cases h with
  | name s => rfl
  | frame j =>
      by_cases hj : j = id
      · subst hj
        simp [held?, hnode]
      · simp [held?, Lookup.getElem?_insert, hj]

/-- A frame that was freed holds nothing any more, and no other hold changes. -/
theorem held?_free (t : Table) (id : Nat) (h : Holder) :
    (t.withNodes (t.nodes.erase id)).held? h = if h = .frame id then none else t.held? h := by
  cases h with
  | name s => simp [held?]
  | frame j =>
      by_cases hj : j = id
      · subst hj
        simp [held?]
      · simp [held?, Lookup.getElem?_erase, hj]

theorem within_recount {nodes : Nodes} {id : Nat} {node : Node} (hnode : nodes[id]? = some node)
    (k : Nat) : Within nodes (nodes.insert id { node with holders := k }) := by
  intro j other hother
  by_cases hj : j = id
  · subst hj
    have hsame := Option.some.inj (hnode.symm.trans hother)
    subst hsame
    exact ⟨k, by simp⟩
  · exact ⟨other.holders, by simp [Lookup.getElem?_insert, hj, hother]⟩

theorem recount_within {nodes : Nodes} {id : Nat} {node : Node} (hnode : nodes[id]? = some node)
    (k : Nat) : Within (nodes.insert id { node with holders := k }) nodes := by
  intro j other hother
  rw [Lookup.getElem?_insert] at hother
  by_cases hj : j = id
  · subst hj
    rw [if_pos rfl] at hother
    cases hother
    exact ⟨node.holders, hnode⟩
  · rw [if_neg hj] at hother
    exact ⟨other.holders, hother⟩

theorem erase_within (nodes : Nodes) (id : Nat) : Within (nodes.erase id) nodes := by
  intro j other hother
  rw [Lookup.getElem?_erase] at hother
  split at hother
  · cases hother
  · exact ⟨other.holders, hother⟩

/-- A release stores no frame that was not stored before. -/
theorem release_within (fuel : Nat) :
    ∀ (nodes : Nodes) (site : Site), Within (nodes.release fuel site) nodes := by
  induction fuel with
  | zero =>
      intro nodes site
      cases site <;> exact Within.refl nodes
  | succ fuel ih =>
      intro nodes site
      cases site with
      | root r => exact Within.refl nodes
      | nested id =>
          unfold Nodes.release
          split
          · rename_i node hnode
            split
            · exact (ih (nodes.erase id) node.enclosing).trans (erase_within nodes id)
            · exact recount_within hnode _
          · exact Within.refl nodes

theorem count_cons_nested_of_ne {i j : Nat} (h : j ≠ i) (extra : List Site) :
    (Site.nested i :: extra).count (.nested j) = extra.count (.nested j) := by
  apply List.count_cons_of_ne
  intro heq
  exact h (Site.nested.inj heq).symm

namespace Sound

/-- Changing a count together with the sites that are counted in advance. -/
theorem recount (h : Sound t bound extra) {id : Nat} {node : Node}
    (hnode : t.nodes[id]? = some node) {k : Nat} {extra' : List Site}
    (hmem : ∀ j, Site.nested j ∈ extra' → Site.nested j ∈ extra ∨ j = id)
    (hother : ∀ j, j ≠ id → extra'.count (.nested j) = extra.count (.nested j))
    (hself : ∀ n, n + extra.count (.nested id) ≤ node.holders →
      n + extra'.count (.nested id) ≤ k) :
    Sound (t.withNodes (t.nodes.insert id { node with holders := k })) bound extra' := by
  have hin := recount_within hnode k
  have hkept : ∀ j : Nat, (t.nodes[j]?).isSome →
      ((t.nodes.insert id { node with holders := k })[j]?).isSome := by
    intro j hj
    rcases Option.isSome_iff_exists.1 hj with ⟨other, hother⟩
    rcases within_recount hnode k j other hother with ⟨_, hnew⟩
    exact Option.isSome_iff_exists.2 ⟨_, hnew⟩
  -- The same frames are stored, and only the count of one of them has to be looked at again.
  refine ⟨?_, ?_, ?_, ?_, ?_⟩
  · intro j other hj
    rcases hin j other hj with ⟨holders, hold⟩
    exact h.ordered j { other with holders } hold
  · intro j other hj
    rcases hin j other hj with ⟨_, hold⟩
    exact h.bounded j _ hold
  · intro holder j hheld
    rw [held?_recount hnode] at hheld
    exact hkept j (h.stored holder j hheld)
  · intro j hj
    rcases hmem j hj with hextra | rfl
    · exact hkept j (h.storedExtra j hextra)
    · exact hkept j (Option.isSome_iff_exists.2 ⟨node, hnode⟩)
  · intro j other hj hs hnodup hheld
    have hold : ∀ holder ∈ hs, t.held? holder = some (.nested j) := by
      intro holder hmem
      rw [← held?_recount hnode k]
      exact hheld holder hmem
    change (t.nodes.insert id { node with holders := k })[j]? = some other at hj
    rw [Lookup.getElem?_insert] at hj
    by_cases hne : j = id
    · subst hne
      rw [if_pos rfl] at hj
      cases hj
      exact hself hs.length (h.counted j node hnode hs hnodup hold)
    · rw [if_neg hne] at hj
      rw [hother j hne]
      exact h.counted j other hj hs hnodup hold

/-- The count of one is used up by the site in advance: neither a further site nor any holder has
a share in it. -/
theorem sole {id : Nat} (h : Sound t bound (.nested id :: extra)) {node : Node}
    (hnode : t.nodes[id]? = some node) (hlast : node.holders ≤ 1) :
    Site.nested id ∉ extra ∧ ∀ holder, t.held? holder ≠ some (.nested id) := by
  have hcount : (Site.nested id :: extra).count (.nested id) = extra.count (.nested id) + 1 :=
    List.count_cons_self
  constructor
  · have hnone := h.counted id node hnode [] List.nodup_nil (fun _ hmem => by cases hmem)
    rw [hcount, List.length_nil] at hnone
    exact List.count_eq_zero.1 (by omega)
  · intro holder hheld
    have hone := h.counted id node hnode [holder] (List.pairwise_singleton _ holder)
      (fun other hmem => by rw [List.mem_singleton.1 hmem]; exact hheld)
    rw [hcount, List.length_singleton] at hone
    omega

/-- Freeing a frame that only the site counted in advance holds moves the count to the frame
under it. -/
theorem free {id : Nat} (h : Sound t bound (.nested id :: extra)) {node : Node}
    (hnode : t.nodes[id]? = some node) (hlast : node.holders ≤ 1) :
    Sound (t.withNodes (t.nodes.erase id)) bound (node.enclosing :: extra) := by
  rcases h.sole hnode hlast with ⟨hextra, hunheld⟩
  have hget : ∀ j : Nat, (t.nodes.erase id)[j]? = if j = id then none else t.nodes[j]? :=
    Lookup.getElem?_erase t.nodes id
  have hkept : ∀ j : Nat, j ≠ id → (t.nodes[j]?).isSome → ((t.nodes.erase id)[j]?).isSome := by
    intro j hj hold
    rw [hget, if_neg hj]
    exact hold
  have hown : t.held? (.frame id) = some node.enclosing := by simp [held?, hnode]
  refine ⟨?_, ?_, ?_, ?_, ?_⟩
  · intro j other hj
    rcases erase_within t.nodes id j other hj with ⟨holders, hold⟩
    exact h.ordered j { other with holders } hold
  · intro j other hj
    rcases erase_within t.nodes id j other hj with ⟨_, hold⟩
    exact h.bounded j _ hold
  · intro holder j hheld
    rw [held?_free] at hheld
    split at hheld
    · cases hheld
    · have hj : j ≠ id := by
        rintro rfl
        exact hunheld holder hheld
      exact hkept j hj (h.stored holder j hheld)
  · intro j hj
    rcases List.mem_cons.1 hj with hunder | hj
    · have hheld : t.held? (.frame id) = some (.nested j) := hown.trans (congrArg some hunder.symm)
      have hne : j ≠ id := by
        rintro rfl
        exact hunheld (.frame j) hheld
      exact hkept j hne (h.stored (.frame id) j hheld)
    · have hne : j ≠ id := by
        rintro rfl
        exact hextra hj
      exact hkept j hne (h.storedExtra j (List.mem_cons_of_mem _ hj))
  · intro j other hj
    change (t.nodes.erase id)[j]? = some other at hj
    rw [hget] at hj
    split at hj
    · cases hj
    · -- The freed frame let go of the frame under it, which is counted in advance instead.
      rename_i hne
      have hcounted := h.counted j other hj
      rw [count_cons_nested_of_ne hne] at hcounted
      have hexchanged := count_exchange (held?_free t id) hcounted
      rw [hown] at hexchanged
      exact hexchanged

/-- A release pays for a site that was counted in advance. -/
theorem release (fuel : Nat) :
    ∀ {t : Table} {site : Site}, Sound t bound (site :: extra) → site.rank ≤ fuel →
      Sound (t.withNodes (t.nodes.release fuel site)) bound extra := by
  -- Each frame that is freed passes the debt on to the frame under it, whose rank is smaller.
  induction fuel with
  | zero =>
      intro t site h hrank
      cases site with
      | root r => exact (root_iff r).1 h
      | nested id => exact absurd hrank (Nat.not_succ_le_zero id)
  | succ fuel ih =>
      intro t site h hrank
      cases site with
      | root r => exact (root_iff r).1 h
      | nested id =>
          rcases Option.isSome_iff_exists.1 (h.storedExtra id List.mem_cons_self) with
            ⟨node, hnode⟩
          by_cases hlast : node.holders ≤ 1
          · -- The freed frame leaves its hold on the frame under it to be paid for next.
            have hbelow : node.enclosing.rank ≤ fuel :=
              Nat.le_trans (h.ordered id node hnode) (Nat.le_of_succ_le_succ hrank)
            have hrelease : t.nodes.release (fuel + 1) (.nested id) =
                Nodes.release (t.nodes.erase id) fuel node.enclosing := by
              simp [Nodes.release, hnode, hlast]
            rw [hrelease]
            exact ih (h.free hnode hlast) hbelow
          · have hrelease : t.nodes.release (fuel + 1) (.nested id) =
                t.nodes.insert id { node with holders := node.holders - 1 } := by
              simp [Nodes.release, hnode, hlast]
            rw [hrelease]
            refine h.recount hnode ?_ ?_ ?_
            · intro j hj
              exact Or.inl (List.mem_cons_of_mem _ hj)
            · intro j hj
              exact (count_cons_nested_of_ne hj extra).symm
            · intro n hn
              rw [List.count_cons_self] at hn
              omega

end Sound

end Table

end ScopedStore.Env
