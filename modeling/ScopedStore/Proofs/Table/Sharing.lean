import ScopedStore.Proofs.Lookup
import ScopedStore.Proofs.Table.Chain

/-!
# Shared frames and their holders

A stored frame is held by the names of environments that start with it and by the frames created
directly on top of it. `Sound` says that the count of holders is never too small, however one
counts the holders: so a frame whose count has fallen to one has no holder but the one that lets
go, and freeing it leaves everything else as it was. The sites of `extra` are counted too though
nothing holds them yet, or any more; a hold adds such a site, and a release pays for one.
-/

namespace ScopedStore.Env

/-- Something that can hold a frame: a name of an environment, or a frame on top of it. -/
inductive Holder where
  | name (s : String)
  | frame (id : Nat)
  deriving DecidableEq

namespace Table

open Nodes

def held? (t : Table) : Holder → Option Site
  | .name s => t.entries[s]?
  | .frame id => t.nodes[id]?.map Node.enclosing

/-- Every frame that something holds is stored, and is counted often enough. -/
structure Sound (t : Table) (bound : Nat) (extra : List Site) : Prop where
  ordered : Ordered t.nodes
  bounded : ∀ (id : Nat) (node : Node), t.nodes[id]? = some node → id < bound
  stored : ∀ (h : Holder) (id : Nat), t.held? h = some (.nested id) → (t.nodes[id]?).isSome
  storedExtra : ∀ id : Nat, Site.nested id ∈ extra → (t.nodes[id]?).isSome
  counted : ∀ (id : Nat) (node : Node), t.nodes[id]? = some node → ∀ hs : List Holder, hs.Nodup →
    (∀ h ∈ hs, t.held? h = some (.nested id)) → hs.length + extra.count (.nested id) ≤ node.holders

variable {t : Table} {bound : Nat} {extra : List Site}

theorem sound_empty (bound : Nat) : Sound {} bound [] where
  ordered := by
    intro id node h
    simp at h
  bounded := by
    intro id node h
    simp at h
  stored := by
    intro h id hheld
    cases h <;> simp [held?] at hheld
  storedExtra := by
    intro id h
    cases h
  counted := by
    intro id node h
    simp at h

/-- One holder comes to hold another site, or none. What it held before is counted in advance from
then on, in place of what it holds now. -/
theorem count_exchange {t' : Table} {key : Holder} {new : Option Site} {site : Site} {k : Nat}
    (hheld : ∀ holder, t'.held? holder = if holder = key then new else t.held? holder)
    (h : ∀ hs : List Holder, hs.Nodup → (∀ holder ∈ hs, t.held? holder = some site) →
      hs.length + (new.toList ++ extra).count site ≤ k) :
    ∀ hs : List Holder, hs.Nodup → (∀ holder ∈ hs, t'.held? holder = some site) →
      hs.length + ((t.held? key).toList ++ extra).count site ≤ k := by
  intro hs hnodup hall
  have hothers : ∀ holder ∈ hs.erase key, t.held? holder = some site := by
    intro holder hmem
    have hne : holder ≠ key := by
      rintro rfl
      exact hnodup.not_mem_erase hmem
    have hnew := hall holder (List.mem_of_mem_erase hmem)
    rw [hheld, if_neg hne] at hnew
    exact hnew
  -- If the holder is among those that hold the site now, then the site is its new one.
  have hlength : hs.length ≤ (hs.erase key).length + new.toList.count site := by
    by_cases hmem : key ∈ hs
    · have hnew := hall key hmem
      rw [hheld, if_pos rfl] at hnew
      have hone : new.toList.count site = 1 := by simp [hnew]
      rw [List.length_erase_of_mem hmem, hone]
      omega
    · rw [List.erase_of_not_mem hmem]
      exact Nat.le_add_right _ _
  by_cases hold : t.held? key = some site
  · -- It held the site before: count it among the others, whether or not it still does.
    have hwith := h (key :: hs.erase key)
      (List.nodup_cons.2 ⟨hnodup.not_mem_erase, hnodup.erase key⟩)
      (fun holder hmem => by
        rcases List.mem_cons.1 hmem with rfl | hmem
        · exact hold
        · exact hothers holder hmem)
    have hone : (t.held? key).toList.count site = 1 := by simp [hold]
    rw [List.count_append, List.length_cons] at hwith
    rw [List.count_append, hone]
    omega
  · have hwithout := h (hs.erase key) (hnodup.erase key) hothers
    have hnone : (t.held? key).toList.count site = 0 := by
      rw [List.count_eq_zero]
      intro hmem
      exact hold (by simpa using hmem)
    rw [List.count_append] at hwithout
    rw [List.count_append, hnone]
    omega

namespace Sound

theorem mono (h : Sound t bound extra) {bound' : Nat} (hle : bound ≤ bound') :
    Sound t bound' extra :=
  { h with bounded := fun id node hnode => Nat.lt_of_lt_of_le (h.bounded id node hnode) hle }

/-- A root needs no count. -/
theorem root_iff (r : Ref Globals) : Sound t bound (.root r :: extra) ↔ Sound t bound extra := by
  constructor
  · intro h
    refine ⟨h.ordered, h.bounded, h.stored, ?_, ?_⟩
    · intro id hid
      exact h.storedExtra id (List.mem_cons_of_mem _ hid)
    · intro id node hnode hs hnodup hheld
      simpa using h.counted id node hnode hs hnodup hheld
  · intro h
    refine ⟨h.ordered, h.bounded, h.stored, ?_, ?_⟩
    · intro id hid
      rcases List.mem_cons.1 hid with hroot | hid
      · cases hroot
      · exact h.storedExtra id hid
    · intro id node hnode hs hnodup hheld
      simpa using h.counted id node hnode hs hnodup hheld

/-- Nothing holds a frame that is not stored. -/
theorem held?_ne_of_free (h : Sound t bound extra) {id : Nat} (hfree : t.nodes[id]? = none)
    (holder : Holder) : t.held? holder ≠ some (.nested id) := by
  intro hheld
  have hstored := h.stored holder id hheld
  rw [hfree] at hstored
  cases hstored

theorem not_mem_of_free (h : Sound t bound extra) {id : Nat} (hfree : t.nodes[id]? = none) :
    Site.nested id ∉ extra := by
  intro hmem
  have hstored := h.storedExtra id hmem
  rw [hfree] at hstored
  cases hstored

/-- A site that is stored, if it is a frame at all, starts a chain. -/
theorem exists_chain (h : Sound t bound extra) :
    ∀ (fuel : Nat) (site : Site), site.rank ≤ fuel →
      (∀ id, site = .nested id → (t.nodes[id]?).isSome) → ∃ e, Chain t.nodes site e := by
  -- Induction on a bound of the rank: a frame is stored above the one it stands on, and holds it.
  intro fuel
  induction fuel with
  | zero =>
      intro site hrank _
      cases site with
      | root r => exact ⟨_, .root r⟩
      | nested id => exact absurd hrank (Nat.not_succ_le_zero id)
  | succ fuel ih =>
      intro site hrank hstored
      cases site with
      | root r => exact ⟨_, .root r⟩
      | nested id =>
          rcases Option.isSome_iff_exists.1 (hstored id rfl) with ⟨node, hnode⟩
          have hbelow : node.enclosing.rank ≤ fuel :=
            Nat.le_trans (h.ordered id node hnode) (Nat.le_of_succ_le_succ hrank)
          have hheld : t.held? (.frame id) = some node.enclosing := by simp [held?, hnode]
          rcases ih node.enclosing hbelow
              (fun j hj => h.stored (.frame id) j (hheld.trans (congrArg some hj))) with ⟨e, he⟩
          exact ⟨_, .nested hnode he⟩

/-- Frames that fit and whose innermost one is stored are stored as a chain. -/
theorem chain_of_fits (h : Sound t bound extra) {root : Ref Globals} :
    ∀ {frames : List Frame}, Fits t.nodes root frames →
      (∀ id, Env.site ⟨frames, root⟩ = .nested id → (t.nodes[id]?).isSome) →
        Chain t.nodes (Env.site ⟨frames, root⟩) ⟨frames, root⟩ := by
  intro frames
  induction frames with
  | nil =>
      intro _ _
      exact .root root
  | cons f rest ih =>
      intro hfits hstored
      rcases hfits with ⟨hsame, -, hrest⟩
      rcases Option.isSome_iff_exists.1 (hstored f.id rfl) with ⟨node, hnode⟩
      -- The stored frame under this number is this very frame, because the frames fit.
      rcases hsame node hnode with ⟨hbindings, henclosing⟩
      have hheld : t.held? (.frame f.id) = some (Env.site ⟨rest, root⟩) := by
        simp [held?, hnode, henclosing]
      have htail : Chain t.nodes node.enclosing ⟨rest, root⟩ := by
        rw [henclosing]
        exact ih hrest fun j hj => h.stored (.frame f.id) j (hheld.trans (congrArg some hj))
      have hchain := Chain.nested hnode htail
      rw [hbindings] at hchain
      exact hchain

end Sound

end Table

end ScopedStore.Env
