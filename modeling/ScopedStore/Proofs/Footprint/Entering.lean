import Mathlib.Algebra.Group.Nat.Defs
import ScopedStore.Session

/-!
# Entering a frame

Entering a frame allocates one cell for each value and binds the names to these cells by position,
in a new frame on top of the environment that it is given. In the new environment the first of
several equal names counts, and a name that is not listed means what it meant. In the environments
that there were before, every name keeps its address; its value changes only where the address had
no cell before and has one now.
-/

namespace ScopedStore

/-- In bindings that are put together by position, the first of several equal names counts. -/
theorem lookup_zip_eq_getElem?_idxOf (names : List String) :
    ∀ {addresses : List Address}, names.length = addresses.length → ∀ name : String,
      (names.zip addresses).lookup name = addresses[names.idxOf name]? := by
  induction names with
  | nil =>
      intro addresses h name
      cases addresses with
      | nil => rfl
      | cons _ _ => cases h
  | cons first rest ih =>
      intro addresses h name
      cases addresses with
      | nil => cases h
      | cons a addresses =>
          have hrest := ih (Nat.succ.inj h) name
          by_cases hname : name = first
          · simp [hname]
          · have hfirst : (first == name) = false := beq_false_of_ne (Ne.symm hname)
            have hother : (name == first) = false := beq_false_of_ne hname
            simpa [List.lookup_cons, List.idxOf_cons, hfirst, hother] using hrest

/-- An address is reported as its index, up to the largest integer. -/
theorem Address.toInt_toInt64 (a : Address) :
    a.toInt64.toInt = ((min a.index (2 ^ 63 - 1) : Nat) : Int) := by
  have hmax : Int64.maxValue.toNatClampNeg = 2 ^ 63 - 1 := by decide
  simp only [toInt64, hmax]
  exact Int64.toInt_ofNat_of_lt (by omega)

/-- The only fault of a search is that nothing binds the name. -/
theorem World.eq_unbound_of_find {w : World} {e : Env} {name : String} {fault : Fault}
    (h : w.find e name = .error fault) : fault = .unbound name := by
  unfold find at h
  split at h
  · cases h
  · unfold Globals.find at h
    split at h
    · cases h
    · exact (Except.error.inj h).symm

namespace Store

def append (s : Store) (values : List Value) : Store :=
  ⟨s.cells ++ values.toArray⟩

variable {s : Store} {a : Address} {values : List Value}

/-- Further cells begin where the old ones end. -/
theorem getElem?_append (s : Store) (values : List Value) (a : Address) :
    (s.append values).cells[a.index]? =
      if a.index < s.size then s.cells[a.index]? else values[a.index - s.size]? := by
  rcases Nat.lt_or_ge a.index s.size with hlt | hle
  · have hold : (s.append values).cells[a.index]? = s.cells[a.index]? :=
      Array.getElem?_append_left hlt
    simp only [hold, if_pos hlt]
  · have hnew : (s.append values).cells[a.index]? = values.toArray[a.index - s.size]? :=
      Array.getElem?_append_right hle
    simp [hnew, Nat.not_lt.2 hle]

/-- A further cell is read as the value that it was allocated for. -/
theorem read_append_of_getElem? {v : Value} (h : s.size ≤ a.index)
    (hv : values[a.index - s.size]? = some v) : (s.append values).read a = .ok v := by
  have hcell := s.getElem?_append values a
  rw [if_neg (Nat.not_lt.2 h), hv] at hcell
  exact read_eq_ok_iff.2 hcell

/-- An address before or past the further cells is read as it was. -/
theorem read_append_of_outside (h : a.index < s.size ∨ s.size + values.length ≤ a.index) :
    (s.append values).read a = s.read a := by
  have hcell : (s.append values).cells[a.index]? = s.cells[a.index]? := by
    rw [getElem?_append]
    split
    · rfl
    · rename_i hle
      have hpast : s.cells.size ≤ a.index := Nat.not_lt.1 hle
      have hnone : values[a.index - s.size]? = none := List.getElem?_eq_none (by omega)
      rw [hnone, Array.getElem?_eq_none hpast]
  simp only [read, hcell]

end Store

namespace Session

/-- What entering a frame on `e` comes to: it returns the environment `e'`, and leaves the session
`s'` and the world `w'`. -/
structure EntersFrame (s : Session) (w : World) (e : Env) (names : List String)
    (values : List Value) (e' : Env) (s' : Session) (w' : World) : Prop where
  depth : e'.depth = e.depth + 1
  enclosing : e'.enclosing? = some e
  /-- The new frame pairs the names with the addresses past the end of the store. -/
  bindings : ∃ f, e'.frames.head? = some f ∧ f.bindings.length = names.length ∧
    ∀ (i : Nat) (name : String), names[i]? = some name →
      f.bindings[i]? = some (name, ⟨s.store.size + i⟩)
  cells : s'.store.cells = s.store.cells ++ values.toArray
  root : s'.root = s.root
  globals : w'.roots = w.roots
  listed : ∀ name ∈ names, ∃ v, values[names.idxOf name]? = some v ∧
    (s'.lookup w' e' name).value = .ok v
  unlisted : ∀ name ∉ names, (s'.lookup w' e' name).value = (s'.lookup w' e name).value
  resolve : ∀ (f : Env) (name : String), w'.find f name = w.find f name
  /-- A name bound to the address of a cell that did not exist has the value of the new cell. -/
  revived : ∀ (f : Env) (name : String) (a : Address), f.root = s.root →
    w.find f name = .ok a → s.store.size ≤ a.index → a.index < s.store.size + values.length →
      (s.lookup w f name).value = .error (.illegalAddress a.toInt64) ∧
        ∃ v, values[a.index - s.store.size]? = some v ∧ (s'.lookup w' f name).value = .ok v
  /-- Any other name has the value or the fault that it had. -/
  kept : ∀ (f : Env) (name : String), f.root = s.root →
    (∀ a, w.find f name = .ok a →
      a.index < s.store.size ∨ s.store.size + values.length ≤ a.index) →
      (s'.lookup w' f name).value = (s.lookup w f name).value
  /-- In a store whose addresses can all be reported, the answers alone tell which names have a new
  value: those that were answered with the address of a new cell as illegal. -/
  answered : s.store.size + values.length < 2 ^ 63 → ∀ (f : Env) (name : String),
    f.root = s.root →
      (∀ raw : Int64, (s.lookup w f name).value = .error (.illegalAddress raw) →
        s.store.size ≤ raw.toInt → raw.toInt < s.store.size + values.length →
          ∃ v, values[(raw.toInt - s.store.size).toNat]? = some v ∧
            (s'.lookup w' f name).value = .ok v) ∧
      ((∀ raw : Int64, (s.lookup w f name).value = .error (.illegalAddress raw) →
        raw.toInt < s.store.size ∨ s.store.size + values.length ≤ raw.toInt) →
          (s'.lookup w' f name).value = (s.lookup w f name).value)

variable {s : Session} {w : World} {e f : Env} {names : List String} {values : List Value}
variable {name : String}

def grown (s : Session) (values : List Value) : Session :=
  { s with store := s.store.append values }

@[simp] theorem store_grown (s : Session) (values : List Value) :
    (s.grown values).store = s.store.append values := rfl

/-- A session looks up any environment over its root, whichever session it came from. -/
theorem value_lookup_of_root {s : Session} (hroot : f.root = s.root) (w : World) (name : String) :
    (s.lookup w f name).value = (w.find f name).bind s.store.read :=
  value_lookup (owns_iff.2 hroot) w name

/-- What a name means in the new frame: the address of the first place where it is listed. -/
theorem find?_entered (hl : names.length = values.length) (w : World) (name : String) :
    (s.entered w e names values).find? name =
      (if names.idxOf name < values.length then some ⟨s.store.size + names.idxOf name⟩
        else none).or (e.find? name) := by
  have hlength : names.length =
      ((List.range' s.store.size values.length).map Address.mk).length := by simpa using hl
  have hlookup := lookup_zip_eq_getElem?_idxOf names hlength name
  have hframe : (s.entered w e names values).find? name =
      ((names.zip ((List.range' s.store.size values.length).map Address.mk)).lookup name).or
        (e.find? name) := Env.find?_cons _ e.frames e.root name
  rw [hframe, hlookup]
  split <;> simp_all

/-- A listed name is bound to the cell of the first value listed for it. -/
theorem find_entered_of_mem (hl : names.length = values.length) (w : World)
    (hname : name ∈ names) :
    w.find (s.entered w e names values) name = .ok ⟨s.store.size + names.idxOf name⟩ := by
  have hlt : names.idxOf name < values.length := hl ▸ List.idxOf_lt_length_iff.2 hname
  simp [World.find, find?_entered hl, hlt]

/-- A name that is not listed falls through to the environment around. -/
theorem find_entered_of_not_mem (hl : names.length = values.length) (w : World)
    (hname : name ∉ names) :
    w.find (s.entered w e names values) name = w.find e name := by
  have hle : ¬ names.idxOf name < values.length := by
    rw [← hl, List.idxOf_lt_length_iff]
    exact hname
  have hfind : (s.entered w e names values).find? name = e.find? name := by
    simp [find?_entered hl, hle]
  simp only [World.find, hfind]
  rfl

/-- A look-up that fails for a cell is answered with the address that the name is bound to. -/
theorem exists_of_lookup_illegal (hroot : f.root = s.root) {raw : Int64}
    (h : (s.lookup w f name).value = .error (.illegalAddress raw)) :
    ∃ a, w.find f name = .ok a ∧ s.store.size ≤ a.index ∧ raw = a.toInt64 := by
  rw [value_lookup_of_root hroot] at h
  cases hfind : w.find f name with
  | error fault =>
      have hunbound := World.eq_unbound_of_find hfind
      simp [hfind, hunbound, Except.bind] at h
  | ok a =>
      have hread : s.store.read a = .error (.illegalAddress raw) := by
        simpa [hfind, Except.bind] using h
      rcases Nat.lt_or_ge a.index s.store.size with hlt | hle
      · have hcell : s.store.read a = .ok s.store.cells[a.index] :=
          Store.read_eq_ok_iff.2 (Array.getElem?_eq_getElem hlt)
        cases hcell.symm.trans hread
      · have hraw : a.toInt64 = raw := by simpa [Store.read_of_size_le hle] using hread
        exact ⟨a, rfl, hle, hraw.symm⟩

/-- A name that leads past the end of the store has no value. -/
theorem lookup_of_size_le (hroot : f.root = s.root) {a : Address} (hfind : w.find f name = .ok a)
    (hle : s.store.size ≤ a.index) :
    (s.lookup w f name).value = .error (.illegalAddress a.toInt64) := by
  simp [value_lookup_of_root hroot, hfind, Except.bind, Store.read_of_size_le hle]

/-! ## Look-ups after a frame was entered -/

/-- A name that is bound to a new cell did not have a value, and has the one of the cell. -/
theorem lookup_grown_of_new (hroot : f.root = s.root) {w' : World}
    (hfind' : w'.find f name = w.find f name) {a : Address} (hfind : w.find f name = .ok a)
    (hle : s.store.size ≤ a.index) (hlt : a.index < s.store.size + values.length) :
    (s.lookup w f name).value = .error (.illegalAddress a.toInt64) ∧
      ∃ v, values[a.index - s.store.size]? = some v ∧
        ((s.grown values).lookup w' f name).value = .ok v := by
  have hnew : a.index - s.store.size < values.length := by omega
  have hvalue : values[a.index - s.store.size]? = some values[a.index - s.store.size] :=
    List.getElem?_eq_getElem hnew
  have hread := Store.read_append_of_getElem? hle hvalue
  have hroot' : f.root = (s.grown values).root := hroot
  refine ⟨lookup_of_size_le hroot hfind hle, _, hvalue, ?_⟩
  simpa [value_lookup_of_root hroot', hfind', hfind, Except.bind] using hread

/-- A name that is not bound to a new cell has the value or the fault that it had. -/
theorem lookup_grown_of_old (hroot : f.root = s.root) {w' : World}
    (hfind' : w'.find f name = w.find f name)
    (h : ∀ a, w.find f name = .ok a →
      a.index < s.store.size ∨ s.store.size + values.length ≤ a.index) :
    ((s.grown values).lookup w' f name).value = (s.lookup w f name).value := by
  have hroot' : f.root = (s.grown values).root := hroot
  rw [value_lookup_of_root hroot', value_lookup_of_root hroot, hfind']
  cases hfind : w.find f name with
  | error fault => rfl
  | ok a => exact Store.read_append_of_outside (h a hfind)

/-- Entering a frame on an environment of the session, with as many values as names, succeeds and
does what is said above of names, of cells, and of every other environment. -/
theorem enter_creates_frame (hroot : e.root = s.root) (hl : names.length = values.length)
    (w : World) : ∃ e' s' w', (s.enter w e names values).value = (.ok e', s', w') ∧
      s.EntersFrame w e names values e' s' w' := by
  have howns : s.owns e = true := owns_iff.2 hroot
  let w' : World := { w with frameCount := w.frameCount + 1 }
  have hfind' : ∀ (f : Env) (name : String), w'.find f name = w.find f name := fun _ _ => rfl
  refine ⟨s.entered w e names values, s.grown values, w', value_enter howns hl w, ?_⟩
  have hroot' : (s.entered w e names values).root = (s.grown values).root := hroot
  constructor
  case depth => rfl
  case enclosing => rfl
  case bindings =>
    refine ⟨_, rfl, by simp [hl], ?_⟩
    intro i name hname
    have hlt : i < values.length := hl ▸ (List.getElem?_eq_some_iff.1 hname).1
    simp [List.getElem?_zip_eq_some, hname, hlt]
  case cells => rfl
  case root => rfl
  case globals => rfl
  case listed =>
    intro name hname
    have hlt : names.idxOf name < values.length := hl ▸ List.idxOf_lt_length_iff.2 hname
    have hvalue : values[names.idxOf name]? = some values[names.idxOf name] :=
      List.getElem?_eq_getElem hlt
    have hfind : w'.find (s.entered w e names values) name =
        .ok ⟨s.store.size + names.idxOf name⟩ := find_entered_of_mem hl w hname
    have hread : (s.store.append values).read ⟨s.store.size + names.idxOf name⟩ =
        .ok values[names.idxOf name] :=
      Store.read_append_of_getElem? (Nat.le_add_right _ _) (by simp)
    refine ⟨_, hvalue, ?_⟩
    simp [value_lookup_of_root hroot', hfind, Except.bind, hread]
  case unlisted =>
    intro name hname
    have hfind : w'.find (s.entered w e names values) name = w'.find e name :=
      find_entered_of_not_mem hl w hname
    have hrootE : e.root = (s.grown values).root := hroot
    simp only [value_lookup_of_root hroot', value_lookup_of_root hrootE, hfind]
  case resolve => exact hfind'
  case revived =>
    intro f name a hf hfind hle hlt
    exact lookup_grown_of_new hf (hfind' f name) hfind hle hlt
  case kept =>
    intro f name hf h
    exact lookup_grown_of_old hf (hfind' f name) h
  case answered =>
    intro hfits f name hf
    refine ⟨?_, ?_⟩
    · intro raw hraw hle hlt
      rcases exists_of_lookup_illegal hf hraw with ⟨a, hfind, hsize, rfl⟩
      -- An address that is reported below the largest integer is reported as it is.
      have hindex := a.toInt_toInt64
      have hexact : a.toInt64.toInt = a.index := by omega
      have hvalue : (a.toInt64.toInt - s.store.size).toNat = a.index - s.store.size := by omega
      rw [hvalue]
      exact (lookup_grown_of_new hf (hfind' f name) hfind hsize (by omega)).2
    · intro h
      refine lookup_grown_of_old hf (hfind' f name) ?_
      intro a hfind
      rcases Nat.lt_or_ge a.index s.store.size with hlt | hle
      · exact .inl hlt
      · have hraw : (s.lookup w f name).value = .error (.illegalAddress a.toInt64) := by
          simp [value_lookup_of_root hf, hfind, Except.bind, Store.read_of_size_le hle]
        have hindex := a.toInt_toInt64
        rcases h a.toInt64 hraw with hbefore | hpast
        · omega
        · exact .inr (by omega)

/-- A frame with a parameter listed twice, over a global name that was bound before its cell was
there: the first value counts, and the second cell gives the global name a value. -/
theorem enter_repeated_and_revived :
    let w : World := (({} : World).newRoot (({} : Globals).push "d" ⟨2⟩)).2
    let s : Session := { store := ⟨#[.int 1]⟩, root := ⟨0⟩ }
    let e : Env := .ofRoot ⟨0⟩
    (s.lookup w e "d").value = .error (.illegalAddress 2) ∧
      ∃ e' s' w', (s.enter w e ["p", "p"] [.int 5, .int 6]).value = (.ok e', s', w') ∧
        (s'.lookup w' e' "p").value = .ok (.int 5) ∧ (s'.lookup w' e "d").value = .ok (.int 6) := by
  intro w s e
  rcases @enter_creates_frame s e ["p", "p"] [.int 5, .int 6] rfl rfl w with
    ⟨e', s', w', hvalue, henters⟩
  have hd : w.find e "d" = .ok ⟨2⟩ := by rfl
  rcases henters.revived e "d" ⟨2⟩ rfl hd (by decide) (by decide) with ⟨hold, v, hv, hnew⟩
  rcases henters.listed "p" (by simp) with ⟨u, hu, hlookup⟩
  have hfirst : u = .int 5 := by simpa using hu.symm
  have hsecond : v = .int 6 := (Option.some.inj hv).symm
  subst hfirst hsecond
  exact ⟨hold, e', s', w', hvalue, hlookup, hnew⟩

end Session

end ScopedStore
