import ScopedStore.World

/-!
# The index of a global frame

A global frame keeps its whole history and, beside it, an index from each name to the newest
address. `Globals.Indexed` says that the two agree: the index answers what a scan of the history
from its newest end answers. Every frame that grows from an empty one is indexed, and look-ups in
it, alone or at the end of a chain, can be read off the plain list of bindings.
-/

namespace ScopedStore

/-- A scan of bindings finds nothing exactly if no binding has the name. -/
theorem lookup_eq_none_iff {name : String} {bindings : List (String × Address)} :
    bindings.lookup name = none ↔ name ∉ bindings.map Prod.fst := by
  simp only [List.lookup_eq_none_iff, List.mem_map, not_exists, not_and, bne_iff_ne]
  exact ⟨fun h b hb he => h b hb he.symm, fun h b hb he => h b hb he.symm⟩

/-- What is listed first for a name in the innermost frame that lists it is what is listed first
for it in all frames. -/
theorem Frame.lookup_bindings_of_innermost {inner outer : List Frame} {g : Frame} {name : String}
    {a : Address} (hinner : ∀ f ∈ inner, name ∉ f.names) (hg : g.bindings.lookup name = some a) :
    ((inner ++ g :: outer).flatMap bindings).lookup name = some a := by
  have hnone : (inner.flatMap bindings).lookup name = none := by
    rw [lookup_eq_none_iff, List.map_flatMap]
    intro hmem
    rcases List.mem_flatMap.1 hmem with ⟨f, hf, hname⟩
    exact hinner f hf hname
  simp only [List.flatMap_append, List.flatMap_cons, List.lookup_append, hnone, hg,
    Option.none_or, Option.some_or]

namespace Env

/-- The nested frames bind a name to nothing exactly when none of them lists it. -/
theorem find?_eq_none_iff {e : Env} {name : String} :
    e.find? name = none ↔ ∀ f ∈ e.frames, name ∉ f.names := by
  simp only [find?, List.findSome?_eq_none_iff, Frame.find?, lookup_eq_none_iff, Frame.names]

/-- The nested frames bind a name to what is listed first for it in all of them. -/
theorem find?_eq_lookup (e : Env) (name : String) :
    e.find? name = (e.frames.flatMap Frame.bindings).lookup name := by
  rcases e with ⟨frames, root⟩
  induction frames with
  | nil => rfl
  | cons f rest ih =>
      simp only at ih
      simp only [find?_cons, ih, List.flatMap_cons, List.lookup_append, Frame.find?]

end Env

namespace Globals

/-- The index gives for each name its first address in the newest-first list of bindings. -/
def Indexed (g : Globals) : Prop :=
  ∀ name, g.newest[name]? = g.bindings.lookup name

theorem indexed_empty : Indexed {} := by
  intro name
  simp [bindings]

/-- A further binding keeps the index in agreement with the history. -/
theorem Indexed.push {g : Globals} (h : g.Indexed) (name : String) (a : Address) :
    (g.push name a).Indexed := by
  intro other
  -- The name that was pushed is found at the head of the list, every other one behind it.
  rw [bindings_push, List.lookup_cons]
  by_cases hn : other = name
  · subst hn
    simp [Globals.push]
  · have hne : (other == name) = false := by simpa using hn
    have hinsert : (g.push name a).newest[other]? = g.newest[other]? := by
      simp [Globals.push, Std.ExtTreeMap.getElem?_insert, Ne.symm hn]
    rw [hne, hinsert]
    exact h other

/-- What a search for a name comes to once it has found an address or nothing. -/
def found (name : String) : Option Address → Except Fault Address
  | some a => .ok a
  | none => .error (.unbound name)

@[simp] theorem found_some (name : String) (a : Address) : found name (some a) = .ok a := rfl

@[simp] theorem found_none (name : String) : found name none = .error (.unbound name) := rfl

/-- A scan of bindings for a name finds nothing exactly when none of them has the name. -/
theorem found_lookup_eq_unbound_iff {name : String} {bindings : List (String × Address)} :
    found name (bindings.lookup name) = .error (.unbound name) ↔ ∀ b ∈ bindings, b.1 ≠ name := by
  have hnone : bindings.lookup name = none ↔ ∀ b ∈ bindings, b.1 ≠ name := by
    simp only [lookup_eq_none_iff, List.mem_map, not_exists, not_and, ne_eq]
  cases hlookup : bindings.lookup name with
  | none => simpa [hlookup] using hnone
  | some a => simpa [hlookup] using hnone

/-- A look-up by the index is a scan of the bindings from the newest on. -/
theorem Indexed.find_eq {g : Globals} (h : g.Indexed) (name : String) :
    g.find name = found name (g.bindings.lookup name) := by
  rw [← h name]
  unfold find
  cases g.newest[name]? <;> rfl

end Globals

namespace World

/-- A chain is searched as one list: its nested frames from the inside out, then the bindings of
its root from the newest on. -/
theorem find_eq_found {w : World} {e : Env} (h : (w.globals e.root).Indexed) (name : String) :
    w.find e name =
      Globals.found name ((e.find? name).or ((w.globals e.root).bindings.lookup name)) := by
  -- A nested frame that binds the name decides the search before its root is looked at.
  unfold find
  cases e.find? name with
  | some a => rfl
  | none => exact h.find_eq name

end World

end ScopedStore
