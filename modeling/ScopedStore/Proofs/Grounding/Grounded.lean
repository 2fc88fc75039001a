import ScopedStore.Proofs.History.Law
import ScopedStore.Proofs.Isolation.Addressed

/-!
# Bindings backed by cells

A binding names a cell by its address alone, and nothing checks that there is such a cell. A session
is grounded when all bindings over its global frame, shadowed ones included, have addresses below
the size of its store. A step can break this only with an address that it is given from the outside:
the cells that a session allocates itself are there when their addresses are bound, and a store
never shrinks. So a script whose addresses are legal in this sense keeps every session grounded.
-/

namespace ScopedStore

namespace Store

/-- Every address that a list of bindings gives names a cell of the store. -/
def Covers (s : Store) (bindings : List (String × Address)) : Prop :=
  ∀ b ∈ bindings, b.2.index < s.size

variable {s t : Store} {bindings added : List (String × Address)}

theorem covers_nil (s : Store) : s.Covers [] := by
  intro b hb
  cases hb

/-- A larger store has the cells of a smaller one. -/
theorem Covers.mono (h : s.Covers bindings) (hsize : s.size ≤ t.size) : t.Covers bindings :=
  fun b hb => Nat.lt_of_lt_of_le (h b hb) hsize

theorem Covers.append (h : s.Covers bindings) (hadded : s.Covers added) :
    s.Covers (bindings ++ added) := by
  intro b hb
  rcases List.mem_append.1 hb with hb | hb
  · exact h b hb
  · exact hadded b hb

theorem covers_zip (names : List String) {addresses : List Address}
    (h : ∀ a ∈ addresses, a.index < s.size) : s.Covers (names.zip addresses) :=
  fun _ hb => h _ (List.of_mem_zip hb).2

/-- The cells that a list of values is allocated in are cells of the grown store. -/
theorem covers_allocated (s : Store) (names : List String) (values : List Value) :
    Covers ⟨s.cells ++ values.toArray⟩
      (names.zip ((List.range' s.size values.length).map Address.mk)) := by
  apply covers_zip
  intro a ha
  rcases List.mem_map.1 ha with ⟨i, hi, rfl⟩
  have hlt : i < s.size + values.length := (List.mem_range'_1.1 hi).2
  simpa [size] using hlt

/-- An address found for a name in covered bindings is that of a cell. -/
theorem Covers.lt_of_lookup (h : s.Covers bindings) {name : String} {a : Address}
    (hfound : bindings.lookup name = some a) : a.index < s.size := by
  rcases List.lookup_eq_some_iff.1 hfound with ⟨l₁, l₂, hsplit, -⟩
  exact h (name, a) (by simp [hsplit])

end Store

namespace Script

/-! ## Grounded sessions and legal addresses -/

namespace Machine

/-- The nested frames of an environment bind only cells of the session in a register, if the
environment is rooted in the session at all. -/
def Backed (m : Machine) (session : String) (e : Env) : Prop :=
  ∀ s : Session, m.sessions[session]? = some s → e.root = s.root →
    ∀ f ∈ e.frames, s.store.Covers f.bindings

/-- No binding over the global frame of the session in a register is without a cell. -/
structure Grounded (m : Machine) (session : String) : Prop where
  globals : ∀ s : Session, m.sessions[session]? = some s →
    s.store.Covers (m.world.globals s.root).history.toList
  envs : ∀ (x : String) (e : Env), m.envs.get? x = some e → m.Backed session e

def offered (m : Machine) (session : String) : Step → List Address
  | .session (.bind id _ raw) =>
    if id = session then (Address.ofRaw raw).toOption.toList else []
  | .env (.bindGlobal x _ raw) =>
    if m.rootedIn session x then (Address.ofRaw raw).toOption.toList else []
  | .env (.nest _ raws x count _) =>
    if m.rootedIn session x && count ≠ 0 then (raws.mapM Address.ofRaw).toOption.getD [] else []
  | _ => []

/-- Whether the addresses given to a step to bind are those of cells that the session has then. -/
def legal (m : Machine) (session : String) (step : Step) : Bool :=
  m.sessions[session]?.all fun s => (m.offered session step).all (·.index < s.store.size)

def lawful (m : Machine) (session : String) : List Step → Bool
  | [] => true
  | step :: rest => m.legal session step && (m.next step).lawful session rest

variable {m m' : Machine} {session id x into : String} {s : Session} {e : Env} {step : Step}
variable {bindings : List (String × Address)}

/-- A legal step is given addresses of cells that exist. -/
theorem lt_of_legal (h : m.legal session step = true) (hs : m.sessions[session]? = some s) :
    ∀ a ∈ m.offered session step, a.index < s.store.size := by
  simpa [legal, hs] using h

/-! ## Sessions after a change -/

/-- Putting a session into a register leaves the other sessions as they are. -/
theorem withSession_cases {t : Session}
    (ht : (m.withSession id s).sessions[session]? = some t) :
    (session = id ∧ t = s) ∨ m.sessions[session]? = some t := by
  have hget := Lookup.getElem?_insert m.sessions id session s
  rw [show (m.sessions.insert id s)[session]? = some t from ht] at hget
  split at hget
  · rename_i hid
    exact .inl ⟨hid, Option.some.inj hget⟩
  · exact .inr hget.symm

/-- No other session has the same global frame as one whose store changes. -/
theorem Valid.eq_of_root (hm : m.Valid) (hs : m.sessions[id]? = some s) {store : Store}
    {t : Session} (ht : (m.withSession id { s with store }).sessions[session]? = some t)
    (hroot : t.root = s.root) : session = id ∧ t = { s with store } := by
  rcases withSession_cases ht with hnew | hold
  · exact hnew
  · have hid := hm.apart session id t s hold hs hroot
    subst hid
    refine ⟨rfl, ?_⟩
    simpa [Machine.withSession] using ht.symm

/-! ## What the steps allocate and bind -/

/-- Steps on stores take no cell away. -/
theorem Rewrites.size_le {step : StoreStep} {s t : Store} (h : Rewrites step s t) :
    s.size ≤ t.size := by
  cases h with
  | alloc _ => simp [Store.size]
  | allocMany _ => simp [Store.size_allocMany]
  | write _ _ => simp

/-- A step that binds names may make the store larger and never makes it smaller. -/
theorem size_le_storeAfter (s : Session) (step : SessionStep) :
    s.store.size ≤ (storeAfter s step).size := by
  cases step with
  | define _ _ v => simp [storeAfter, Store.size]
  | defineMany _ _ count => simp [storeAfter, Session.size_counting]
  | _ => exact Nat.le_refl _

/-- A session binds the cells that it has just allocated, or else the address it was given. -/
theorem covers_bindingsIn {step : SessionStep} (hbinder : step.binder? = some id)
    (hoffered : ∀ a ∈ m.offered id (.session step), a.index < s.store.size) :
    (storeAfter s step).Covers (bindingsIn s step) := by
  cases step with
  | bind _ name raw =>
      cases hbinder
      intro b hb
      rcases List.mem_map.1 hb with ⟨a, ha, rfl⟩
      exact hoffered a (by simpa [offered] using ha)
  | define _ name v =>
      intro b hb
      cases List.mem_singleton.1 hb
      simp [storeAfter, Store.size]
  | defineMany _ stem count =>
      intro b hb
      rcases List.mem_map.1 hb with ⟨i, hi, rfl⟩
      simpa [storeAfter, Session.size_counting] using hi
  | _ => cases hbinder

/-- All frames that one step builds have the same bindings. -/
theorem bindings_of_mem_stacked {first : Nat} {f : Frame} :
    ∀ {n : Nat}, f ∈ Env.stacked bindings first n → f.bindings = bindings ∧ n ≠ 0 := by
  intro n
  induction n with
  | zero =>
      intro hf
      cases hf
  | succ n ih =>
      intro hf
      rcases List.mem_cons.1 hf with rfl | hf
      · exact ⟨rfl, Nat.succ_ne_zero n⟩
      · exact ⟨(ih hf).1, Nat.succ_ne_zero n⟩

theorem backed_ofRoot (r : Ref Globals) : m.Backed session (.ofRoot r) := by
  intro s _ _ f hf
  cases hf

/-- An environment that a step finds is backed because it has been there before. -/
theorem Grounded.backed_of_finds (h : m.Grounded session) (hfinds : m.Finds step into e) :
    m.Backed session e := by
  cases hfinds with
  | own _ => exact backed_ofRoot _
  | copy he => exact h.envs _ _ he
  | global _ => exact backed_ofRoot _
  | enclosing he =>
      intro s hs hroot f hf
      exact h.envs _ _ he s hs hroot f (List.mem_cons_of_mem _ hf)

/-! ## What each change keeps -/

namespace Grounded

theorem empty (session : String) : Grounded {} session where
  globals := by
    intro s hs
    simp at hs
  envs := by
    intro x e he
    simp at he

/-- A session stays grounded when a store grows. -/
theorem withStore (h : m.Grounded session) (hs : m.sessions[id]? = some s) {store : Store}
    (hsize : s.store.size ≤ store.size) :
    (m.withSession id { s with store }).Grounded session := by
  -- The session after the change is one from before it whose store has grown, if at all.
  have hold : ∀ t, (m.withSession id { s with store }).sessions[session]? = some t →
      ∃ t₀, m.sessions[session]? = some t₀ ∧ t₀.root = t.root ∧ t₀.store.size ≤ t.store.size := by
    intro t ht
    rcases withSession_cases ht with ⟨rfl, rfl⟩ | ht
    · exact ⟨s, hs, rfl, hsize⟩
    · exact ⟨t, ht, rfl, Nat.le_refl _⟩
  refine ⟨?_, ?_⟩
  · intro t ht
    rcases hold t ht with ⟨t₀, ht₀, hroot, hle⟩
    simpa only [Machine.withSession, hroot] using (h.globals t₀ ht₀).mono hle
  · intro y f hf t ht hft g hg
    rcases hold t ht with ⟨t₀, ht₀, hroot, hle⟩
    exact (h.envs y f hf t₀ ht₀ (hft.trans hroot.symm) g hg).mono hle

/-- A session stays grounded when names are bound to cells that it has. -/
theorem withBindings (h : m.Grounded session) {r : Ref Globals} (hlive : m.world.Live r)
    (hb : ∀ s, m.sessions[session]? = some s → r = s.root → s.store.Covers bindings) :
    (m.withBindings r bindings).Grounded session where
  globals := by
    intro s hs
    simp only [Machine.withBindings, history_bindAll hlive]
    refine (h.globals s hs).append ?_
    split
    · rename_i hroot
      exact hb s hs hroot.symm
    · exact s.store.covers_nil
  envs := h.envs

/-- A new global frame has no bindings over the root of an old session. -/
theorem withRoot (h : m.Grounded session) (hm : m.Valid) (g : Globals) :
    (m.withRoot g).Grounded session where
  globals := by
    intro s hs
    have hne := (hm.sessionLive session s hs).ne_newRoot g
    simpa only [Machine.withRoot, history_newRoot, if_neg hne, List.append_nil]
      using h.globals s hs
  envs := h.envs

/-- A session stays grounded when a backed environment goes into a register. -/
theorem withEnv (h : m.Grounded session) (hm : m.Valid) (he : m.Admits e)
    (hbacked : m.Backed session e) (into : String) : (m.withEnv into e).Grounded session where
  globals := h.globals
  envs := by
    intro x f hf
    rw [hm.get?_withEnv he] at hf
    split at hf
    · cases hf
      exact hbacked
    · exact h.envs x f hf

/-- A session stays grounded when frames are built over cells that it has. -/
theorem withFrames (h : m.Grounded session) (hm : m.Valid) (he : m.Admits e)
    (hbacked : m.Backed session e) {count : Nat} (hb : ∀ s, m.sessions[session]? = some s →
      e.root = s.root → count ≠ 0 → s.store.Covers bindings) (into : String) :
    (m.withFrames into e bindings count).Grounded session where
  globals := h.globals
  envs := by
    intro x f hf
    rw [hm.get?_withFrames he] at hf
    split at hf
    · cases hf
      intro s hs hroot g hg
      rcases List.mem_append.1 hg with hnew | hold
      · rcases bindings_of_mem_stacked hnew with ⟨hbindings, hcount⟩
        simpa only [hbindings] using hb s hs hroot hcount
      · exact hbacked s hs hroot g hold
    · exact h.envs x f hf

/-- A new session has bound nothing, and no environment is rooted in it yet. -/
theorem opened (h : m.Grounded session) (hm : m.Valid) (into : String) :
    ((m.withRoot {}).withSession into { root := (m.world.newRoot {}).1 }).Grounded session := by
  refine ⟨?_, ?_⟩
  · intro t ht
    rcases withSession_cases ht with ⟨-, rfl⟩ | hold
    · have hempty : (m.world.newRoot {}).2.globals (m.world.newRoot {}).1 = {} := by
        simp [World.globals_newRoot]
      simpa only [Machine.withSession, Machine.withRoot, hempty] using Store.covers_nil _
    · exact (h.withRoot hm {}).globals t hold
  · intro x e he t ht hroot
    rcases withSession_cases ht with ⟨-, rfl⟩ | hold
    · exact absurd hroot ((hm.envLive x e he).ne_newRoot {})
    · exact h.envs x e he t hold hroot

theorem closed (h : m.Grounded session) (id : String) :
    Grounded { m with sessions := m.sessions.erase id } session where
  globals := fun t ht => h.globals t (Lookup.getElem?_of_erase ht)
  envs := fun x e he t ht => h.envs x e he t (Lookup.getElem?_of_erase ht)

/-- A session stays grounded when an environment is let go. -/
theorem released (h : m.Grounded session) (hm : m.Valid) (x : String) :
    Grounded { m with envs := m.envs.erase x } session where
  globals := h.globals
  envs := by
    intro y e he
    change (m.envs.erase x).get? y = some e at he
    rw [hm.get?_released] at he
    split at he
    · cases he
    · exact h.envs y e he

end Grounded

end Machine

end Script

end ScopedStore
