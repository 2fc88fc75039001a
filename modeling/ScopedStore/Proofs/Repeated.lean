import ScopedStore.Proofs.Index
import ScopedStore.Session

/-!
# Repeated operations

What many bindings in a row do to a global frame, what allocating many cells does to a store, what
defining many names does to a session, and what building many frames in a row does to an
environment.
-/

namespace ScopedStore

namespace Globals

def pushAll (g : Globals) (bindings : List (String × Address)) : Globals :=
  bindings.foldl (fun g b => g.push b.1 b.2) g

@[simp] theorem pushAll_nil (g : Globals) : g.pushAll [] = g := rfl

@[simp] theorem pushAll_cons (g : Globals) (b : String × Address)
    (bindings : List (String × Address)) :
    g.pushAll (b :: bindings) = (g.push b.1 b.2).pushAll bindings := rfl

/-- Many bindings go to the end of the history in their order. -/
theorem history_pushAll (bindings : List (String × Address)) :
    ∀ g : Globals, (g.pushAll bindings).history.toList = g.history.toList ++ bindings := by
  induction bindings with
  | nil =>
      intro g
      simp
  | cons b rest ih =>
      intro g
      simp [ih, push]

/-- Many bindings keep the index in agreement with the history. -/
theorem Indexed.pushAll (bindings : List (String × Address)) :
    ∀ {g : Globals}, g.Indexed → (g.pushAll bindings).Indexed := by
  induction bindings with
  | nil =>
      intro g h
      exact h
  | cons b rest ih =>
      intro g h
      exact ih (h.push b.1 b.2)

end Globals

namespace World

def bindAll (w : World) (r : Ref Globals) (bindings : List (String × Address)) : World :=
  bindings.foldl (fun w b => (w.bind r b.1 b.2).value) w

@[simp] theorem bindAll_nil (w : World) (r : Ref Globals) : w.bindAll r [] = w := rfl

theorem bindAll_append (w : World) (r : Ref Globals) (bs cs : List (String × Address)) :
    w.bindAll r (bs ++ cs) = (w.bindAll r bs).bindAll r cs :=
  List.foldl_append

@[simp] theorem frameCount_bindAll (r : Ref Globals) (bindings : List (String × Address)) :
    ∀ w : World, (w.bindAll r bindings).frameCount = w.frameCount := by
  induction bindings with
  | nil =>
      intro w
      rfl
  | cons b rest ih =>
      intro w
      exact ih (w.bind r b.1 b.2).value

/-- Binding names creates no global frame and removes none. -/
theorem size_roots_bindAll (r : Ref Globals) (bindings : List (String × Address)) :
    ∀ w : World, (w.bindAll r bindings).roots.contents.size = w.roots.contents.size := by
  induction bindings with
  | nil =>
      intro w
      rfl
  | cons b rest ih =>
      intro w
      have hstep : (w.bind r b.1 b.2).value.roots.contents.size = w.roots.contents.size :=
        Array.size_modify
      exact (ih (w.bind r b.1 b.2).value).trans hstep

def Live (w : World) (r : Ref Globals) : Prop :=
  r.slot < w.roots.contents.size

/-- A global frame exists if its slot does. -/
theorem live_iff_isSome {w : World} {r : Ref Globals} : w.Live r ↔ (w.roots.get? r).isSome := by
  simp [Live, Pool.get?]

/-- Bindings make no global frame disappear. -/
theorem Live.bindAll {w : World} {r : Ref Globals} (h : w.Live r) (s : Ref Globals)
    (bindings : List (String × Address)) : (w.bindAll s bindings).Live r := by
  rw [Live, size_roots_bindAll]
  exact h

/-- Many bindings in one global frame are seen in this frame alone. -/
theorem globals_bindAll (r : Ref Globals) (bindings : List (String × Address)) :
    ∀ {w : World}, w.Live r → ∀ s : Ref Globals, (w.bindAll r bindings).globals s =
      if s = r then (w.globals r).pushAll bindings else w.globals s := by
  induction bindings with
  | nil =>
      intro w _ s
      split
      · rename_i hs
        rw [hs]
        rfl
      · rfl
  | cons b rest ih =>
      intro w hlive s
      -- One binding changes the frame `r` only, and the frame goes on to exist for the bindings to
      -- come.
      have hstep := globals_bind w r s b.1 b.2 (live_iff_isSome.1 hlive)
      have hself := globals_bind w r r b.1 b.2 (live_iff_isSome.1 hlive)
      rw [if_pos rfl] at hself
      have hnext : (w.bind r b.1 b.2).value.Live r := hlive.bindAll r [b]
      change ((w.bind r b.1 b.2).value.bindAll r rest).globals s = _
      rw [ih hnext, hself, hstep]
      split <;> rfl

/-! ## Fresh global frames -/

theorem size_roots_newRoot (w : World) (g : Globals) :
    (w.newRoot g).2.roots.contents.size = w.roots.contents.size + 1 :=
  Array.size_push g

/-- A global frame that is created has not existed before. -/
theorem not_live_newRoot (w : World) (g : Globals) : ¬ w.Live (w.newRoot g).1 :=
  Nat.lt_irrefl _

/-- A new global frame is none of those that existed. -/
theorem Live.ne_newRoot {w : World} {r : Ref Globals} (h : w.Live r) (g : Globals) :
    r ≠ (w.newRoot g).1 := by
  rintro rfl
  exact not_live_newRoot w g h

theorem Live.newRoot {w : World} {r : Ref Globals} (h : w.Live r) (g : Globals) :
    (w.newRoot g).2.Live r := by
  rw [Live, size_roots_newRoot]
  exact Nat.lt_succ_of_lt h

theorem live_newRoot (w : World) (g : Globals) : (w.newRoot g).2.Live (w.newRoot g).1 := by
  rw [Live, size_roots_newRoot]
  exact Nat.lt_succ_self _

/-- A global frame that does not exist reads as an empty one. -/
theorem globals_of_not_live {w : World} {r : Ref Globals} (h : ¬ w.Live r) :
    w.globals r = {} := by
  have hnone : w.roots.get? r = none := by
    rw [live_iff_isSome] at h
    simpa using h
  rw [globals, hnone]
  rfl

end World

/-! ## Many cells -/

/-- Allocating many cells makes a store larger by their number. -/
theorem Store.size_allocMany (s : Store) (v : Value) (n : Nat) :
    (s.allocMany v n).value.2.size = s.size + n := by
  unfold allocMany
  induction n with
  | zero => rfl
  | succ n ih =>
      simp only [Traced.iterate_succ, Traced.value_bind, Traced.value_pure, value_alloc]
      simpa [size, ← Nat.add_assoc] using ih

/-! ## Many definitions -/

namespace Session

/-- The bindings of `stem0`, `stem1`, … to the cells from `first` on. -/
def definitions (stem : String) (first n : Nat) : List (String × Address) :=
  (List.range n).map fun i => (stem ++ toString i, ⟨first + i⟩)

/-- The session with further cells that hold the integers from zero, `n` of them in all. -/
def counting (s : Session) (n : Nat) : Session :=
  { s with
    store :=
      ⟨s.store.cells ++ ((List.range n).map fun i => Value.int (Int64.ofNat i)).toArray⟩ }

theorem size_counting (s : Session) (n : Nat) :
    (s.counting n).store.size = s.store.size + n := by
  simp [counting, Store.size]

/-- Defining many names allocates one cell for each and binds them in order. -/
theorem value_defineMany (s : Session) (w : World) (stem : String) (n : Nat) :
    (s.defineMany w stem n).value =
      ((List.range n).getLast?.map fun i => ⟨s.store.size + i⟩, s.counting n,
        w.bindAll s.root (definitions stem s.store.size n)) := by
  -- The loop runs upwards, so the last definition is taken off the end at each step.
  unfold defineMany
  induction n with
  | zero => simp [counting, definitions]
  | succ n ih =>
      have hdefinitions : definitions stem s.store.size (n + 1) =
          definitions stem s.store.size n ++ [(stem ++ toString n, ⟨s.store.size + n⟩)] := by
        simp [definitions, List.range_succ]
      have hcells : s.counting (n + 1) = { s.counting n with
          store := ⟨(s.counting n).store.cells.push (.int (Int64.ofNat n))⟩ } := by
        simp [counting, List.range_succ]
      rw [Traced.iterate_succ, Traced.value_bind, hdefinitions, World.bindAll_append, hcells]
      simp only [Traced.value_bind, Traced.value_pure, ih, value_define, size_counting,
        List.range_succ, List.getLast?_concat]
      rfl

end Session

/-! ## Many frames -/

namespace Env

/-- Frames with the same bindings, numbered from `first` on, the last of them innermost. -/
def stacked (bindings : List (String × Address)) (first : Nat) : Nat → List Frame
  | 0 => []
  | n + 1 => ⟨first + n, bindings⟩ :: stacked bindings first n

/-- The frame that is built first is the outermost of all. -/
theorem stacked_append (bindings : List (String × Address)) (first n : Nat) :
    stacked bindings (first + 1) n ++ [⟨first, bindings⟩] = stacked bindings first (n + 1) := by
  -- The frame that is built first ends up outermost.
  induction n with
  | zero => rfl
  | succ n ih =>
      have hnumber : first + 1 + n = first + (n + 1) := by omega
      rw [stacked, List.cons_append, ih, hnumber]
      rfl

end Env

namespace World

/-- Frames built from lists of equal length go on top of the chain, numbered in order. -/
theorem nestMany_eq (names : List String) (addresses : List Address)
    (h : names.length = addresses.length) (n : Nat) :
    ∀ (w : World) (e : Env), w.nestMany names addresses e n =
      (.ok { e with frames := Env.stacked (names.zip addresses) w.frameCount n ++ e.frames },
        { w with frameCount := w.frameCount + n }) := by
  -- The next frame is built on top of the one before: the environment changes from step to step.
  induction n with
  | zero =>
      intro w e
      rfl
  | succ n ih =>
      intro w e
      unfold nestMany
      simp only [nest, if_pos h, ih]
      rw [← Env.stacked_append]
      simp [Nat.add_comm, Nat.add_left_comm]

/-- Lists of unequal length stop at the first frame and create none. -/
theorem nestMany_of_length_ne {names : List String} {addresses : List Address}
    (h : names.length ≠ addresses.length) (w : World) (e : Env) (n : Nat) :
    w.nestMany names addresses e (n + 1) =
      (.error (.arity names.length addresses.length), w) := by
  unfold nestMany
  rw [nest_of_length_ne h]

end World

end ScopedStore
