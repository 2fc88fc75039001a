import ScopedStore.Proofs.Table.Hold

/-!
# Names of environments

Giving a name to an environment and freeing a name act on a sound table as on a plain map from
names to environments: the name in question changes, and every other name stands for what it stood
for, frames shared or not.
-/

namespace ScopedStore.Env

open Nodes

namespace Table

variable {t : Table} {bound : Nat} {extra : List Site}

/-- The frames that are stored once a name has been given are those that its chain is held among. -/
theorem insert_within (t : Table) (name : String) (e : Env) :
    Within (t.insert name e).nodes (t.nodes.hold e.root e.frames) := by
  unfold insert
  cases t.entries[name]? with
  | none => exact Within.refl _
  | some site => exact release_within site.rank _ site

theorem erase_name_within (t : Table) (name : String) : Within (t.erase name).nodes t.nodes := by
  unfold erase
  cases t.entries[name]? with
  | none => exact Within.refl _
  | some site => exact release_within site.rank _ site

namespace Sound

/-- A name comes to hold another site, or none. The site that it held before is counted in
advance from now on, in place of the new one. -/
theorem rename (new : Option Site) (h : Sound t bound (new.toList ++ extra)) {name : String}
    {entries : Std.ExtTreeMap String Site compare}
    (hentries : ∀ other : String, entries[other]? = if other = name then new else t.entries[other]?) :
    Sound { t with entries } bound ((t.entries[name]?).toList ++ extra) := by
  have hheld : ∀ holder : Holder, ({ t with entries } : Table).held? holder =
      if holder = .name name then new else t.held? holder := by
    intro holder
    cases holder with
    | name s =>
        change entries[s]? = _
        rw [hentries]
        simp [held?]
    | frame id => simp [held?]
  refine ⟨h.ordered, h.bounded, ?_, ?_, ?_⟩
  · intro holder id hid
    rw [hheld] at hid
    split at hid
    · exact h.storedExtra id (List.mem_append_left _ (by simp [hid]))
    · exact h.stored holder id hid
  · intro id hid
    rcases List.mem_append.1 hid with hold | hextra
    · have hname : t.entries[name]? = some (.nested id) := by simpa using hold
      exact h.stored (.name name) id hname
    · exact h.storedExtra id (List.mem_append_right _ hextra)
  · intro id node hnode
    exact count_exchange hheld (h.counted id node hnode)

/-! ## The table as a map -/

/-- The site that a name holds starts a chain. -/
theorem chain_of_entry (h : Sound t bound extra) {name : String} {site : Site}
    (hentry : t.entries[name]? = some site) : ∃ e, Chain t.nodes site e :=
  h.exists_chain site.rank site (Nat.le_refl _) fun id hid =>
    h.stored (.name name) id (hentry.trans (congrArg some hid))

/-- A name stands for the chain of its entry. -/
theorem get?_eq_some_iff (h : Sound t bound extra) (name : String) (e : Env) :
    t.get? name = some e ↔ ∃ site, t.entries[name]? = some site ∧ Chain t.nodes site e := by
  have hget : ∀ {site : Site} {e : Env}, t.entries[name]? = some site → Chain t.nodes site e →
      t.get? name = some e := by
    intro site e hentry hchain
    simp [get?, hentry, hchain.chain?_eq h.ordered site.rank [] (Nat.le_refl _)]
  constructor
  · intro hsome
    -- A name that is given holds a site that is stored, so there is a chain, and it is the one
    -- found.
    cases hentry : t.entries[name]? with
    | none => simp [get?, hentry] at hsome
    | some site =>
        rcases h.chain_of_entry hentry with ⟨e', hchain⟩
        have hsame := Option.some.inj ((hget hentry hchain).symm.trans hsome)
        exact ⟨site, rfl, hsame ▸ hchain⟩
  · rintro ⟨site, hentry, hchain⟩
    exact hget hentry hchain

/-- What a name stands for is still there when frames were freed but none that it holds. -/
theorem get?_eq_of_within {t' : Table} {extra' : List Site} (h : Sound t bound extra)
    (h' : Sound t' bound extra') {nodes : Nodes} (hfrom : Within t.nodes nodes)
    (hto : Within t'.nodes nodes) {name : String} (hentry : t'.entries[name]? = t.entries[name]?) :
    t'.get? name = t.get? name := by
  cases hsite : t.entries[name]? with
  | none => simp [get?, hsite, hentry]
  | some site =>
      rw [hsite] at hentry
      -- The name starts a chain before and one after, and both are chains among the frames of
      -- `nodes`.
      rcases h.chain_of_entry hsite with ⟨e, hchain⟩
      rcases h'.chain_of_entry hentry with ⟨e', hchain'⟩
      have hsame : e' = e := (hchain'.mono hto).unique (hchain.mono hfrom)
      subst hsame
      rw [(h.get?_eq_some_iff name e').2 ⟨site, hsite, hchain⟩]
      exact (h'.get?_eq_some_iff name e').2 ⟨site, hentry, hchain'⟩

/-- A sound table in which a name was given to an environment. -/
theorem insert (h : Sound t bound []) (name : String) {e : Env}
    (hfits : Fits t.nodes e.root e.frames) (hbound : ∀ f ∈ e.frames, f.id < bound) :
    Sound (t.insert name e) bound [] ∧
      ∀ other, (t.insert name e).get? other = if other = name then some e else t.get? other := by
  rcases h.hold hfits hbound with ⟨hheld, hwithin, hchain⟩
  let held := t.nodes.hold e.root e.frames
  have hentries : ∀ other : String, (t.entries.insert name e.site)[other]? =
      if other = name then some e.site else t.entries[other]? :=
    fun other => Lookup.getElem?_insert t.entries name other e.site
  have hnamed : Sound ⟨t.entries.insert name e.site, held⟩ bound
      ((t.entries[name]?).toList ++ []) :=
    rename (some e.site) hheld hentries
  -- The site that the name had before, if any, is released at last.
  have hdone : Sound (t.insert name e) bound [] := by
    cases hold : t.entries[name]? with
    | none =>
        rw [hold] at hnamed
        have hinsert : t.insert name e = ⟨t.entries.insert name e.site, held⟩ := by
          simp [Table.insert, hold, held]
        rw [hinsert]
        exact hnamed
    | some site =>
        rw [hold] at hnamed
        have hinsert : t.insert name e =
            ⟨t.entries.insert name e.site, held.release site.rank site⟩ := by
          simp [Table.insert, hold, held]
        rw [hinsert]
        exact hnamed.release site.rank (Nat.le_refl _)
  have hfrom := t.insert_within name e
  refine ⟨hdone, ?_⟩
  intro other
  split
  · rename_i hname
    subst hname
    rcases hdone.chain_of_entry ((hentries other).trans (if_pos rfl)) with ⟨e', hchain'⟩
    have hsame : e' = e := (hchain'.mono hfrom).unique hchain
    subst hsame
    exact (hdone.get?_eq_some_iff other e').2
      ⟨e'.site, (hentries other).trans (if_pos rfl), hchain'⟩
  · rename_i hname
    exact h.get?_eq_of_within hdone hwithin hfrom ((hentries other).trans (if_neg hname))

/-- A sound table in which a name was freed. -/
theorem erase (h : Sound t bound []) (name : String) :
    Sound (t.erase name) bound [] ∧
      ∀ other, (t.erase name).get? other = if other = name then none else t.get? other := by
  cases hold : t.entries[name]? with
  | none =>
      have herase : t.erase name = t := by simp [Table.erase, hold]
      rw [herase]
      refine ⟨h, ?_⟩
      intro other
      split
      · rename_i hname
        simp [get?, hname, hold]
      · rfl
  | some site =>
      have hentries : ∀ other : String, (t.entries.erase name)[other]? =
          if other = name then none else t.entries[other]? :=
        fun other => Lookup.getElem?_erase t.entries name other
      have hfreed : Sound { t with entries := t.entries.erase name } bound
          ((t.entries[name]?).toList ++ []) :=
        rename none h hentries
      have herase : t.erase name =
          ⟨t.entries.erase name, t.nodes.release site.rank site⟩ := by
        simp [Table.erase, hold]
      rw [hold] at hfreed
      have hsound := hfreed.release site.rank (Nat.le_refl _)
      have hwithin := release_within site.rank t.nodes site
      rw [herase]
      refine ⟨hsound, ?_⟩
      intro other
      split
      · rename_i hname
        simp [get?, hname]
      · rename_i hname
        exact h.get?_eq_of_within hsound (Within.refl _) hwithin
          ((hentries other).trans (if_neg hname))

end Sound

theorem contains_of_get? {name : String} {e : Env} (h : t.get? name = some e) :
    t.contains name = true := by
  unfold contains
  rw [Std.ExtTreeMap.contains_eq_isSome_getElem?]
  unfold get? at h
  cases hentry : t.entries[name]? with
  | none =>
      rw [hentry] at h
      cases h
  | some site => rfl

end Table

end ScopedStore.Env