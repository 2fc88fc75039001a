import ScopedStore.Proofs.Reports.Journal

/-!
# The journal of global frames

A global frame grows by one binding with each report of one, and only then, be it the root of
environments or in a register of its own. So the reports that are made of a frame, in order, are its
history.
-/

namespace ScopedStore

namespace World

/-- A binding goes into one slot. -/
theorem get?_bind (w : World) (r s : Ref Globals) (name : String) (a : Address) :
    (w.bind r name a).value.roots.get? s =
      if s = r then (w.roots.get? s).map (·.push name a) else w.roots.get? s :=
  w.roots.get?_modify r s _

/-- Many bindings in one frame go into one slot. -/
theorem get?_bindAll (r : Ref Globals) (bs : List (String × Address)) (s : Ref Globals) :
    ∀ w : World, (w.bindAll r bs).roots.get? s =
      if s = r then (w.roots.get? s).map (·.pushAll bs) else w.roots.get? s := by
  induction bs with
  | nil =>
      intro w
      simp
  | cons b rest ih =>
      intro w
      have hrest := ih (w.bind r b.1 b.2).value
      rw [get?_bind] at hrest
      change ((w.bind r b.1 b.2).value.bindAll r rest).roots.get? s = _
      by_cases hs : s = r
      · simpa [hs, Function.comp_def] using hrest
      · simpa [hs] using hrest

theorem globals_of_get? {w : World} {r : Ref Globals} {g : Globals} (h : w.roots.get? r = some g) :
    w.globals r = g := by
  simp [globals, h]

end World

namespace Script

inductive Seat where
  | root (r : Ref Globals)
  | own (id : String)
  deriving DecidableEq

def Machine.globalsAt (m : Machine) : Seat → Option Globals
  | .root r => m.world.roots.get? r
  | .own id => m.globals[id]?

theorem Machine.globalsAt_congr {m m' : Machine} (hroots : m'.world.roots = m.world.roots)
    (hglobals : m'.globals = m.globals) : m'.globalsAt = m.globalsAt := by
  funext k
  cases k <;> simp [Machine.globalsAt, hroots, hglobals]

def Step.seat? (m : Machine) : Step → Option Seat
  | .session step =>
    (step.binder?.bind fun id => m.sessions[id]?).map fun s => .root s.root
  | .env (.bindGlobal x _ _) => (m.envs.get? x).map fun e => .root e.root
  | .globals (.bind id _ _) => some (.own id)
  | _ => none

/-- Where a step puts a new global frame, or none, in the place of the old one. -/
def Step.reseats? : Step → Option Seat
  | .globals (.create into) => some (.own into)
  | .globals (.copy _ into) => some (.own into)
  | .drop .globals id => some (.own id)
  | _ => none

def bindingJournal : Journal Seat Globals Binding where
  kind := Event.binding?
  at? := Machine.globalsAt
  worked? := fun m step => step.seat? m
  renewed? := Step.reseats?
  Grows := fun g reports g' => ∃ bs, g' = g.pushAll bs ∧ reports = g.bound bs
  refl := fun g => ⟨[], rfl, rfl⟩
  trans := by
    rintro g _ _ _ _ ⟨bs, rfl, rfl⟩ ⟨cs, rfl, rfl⟩
    exact ⟨bs ++ cs, (g.pushAll_append bs cs).symm, (g.bound_append bs cs).symm⟩
  searches := fun _ => rfl
  at?_congr := fun hroots _ _ hglobals => Machine.globalsAt_congr hroots hglobals

namespace Machine

variable {m : Machine} {id : String} {s : Session} {step : Step} {effect : Effect}

/-- Bindings in a global frame make this one grow and no other. -/
theorem globalsAt_withBindings (m : Machine) (r : Ref Globals) (bs : List (String × Address))
    (k : Seat) : (m.withBindings r bs).globalsAt k =
      if k = .root r then (m.globalsAt k).map (·.pushAll bs) else m.globalsAt k := by
  cases k with
  | root other =>
      by_cases hother : other = r <;>
        simp [globalsAt, withBindings, World.get?_bindAll, hother]
  | own id => simp [globalsAt, withBindings]

theorem globalsAt_insert (m : Machine) (id : String) (g : Globals) (k : Seat) :
    globalsAt { m with globals := m.globals.insert id g } k =
      if k = .own id then some g else m.globalsAt k := by
  cases k with
  | root r => simp [globalsAt]
  | own other =>
      by_cases hother : other = id <;> simp [globalsAt, Lookup.getElem?_insert, hother]

/-- Emptying a register of frames is seen there alone. -/
theorem globalsAt_erase (m : Machine) (id : String) {k : Seat} (hk : k ≠ .own id) :
    globalsAt { m with globals := m.globals.erase id } k = m.globalsAt k := by
  cases k with
  | root r => rfl
  | own other =>
      have hother : other ≠ id := fun h => hk (congrArg Seat.own h)
      simp [globalsAt, Lookup.getElem?_erase, hother]

/-- A frame that exists is not the one that is created next. -/
theorem globalsAt_withRoot (g : Globals) {k : Seat} {f : Globals} (hk : m.globalsAt k = some f) :
    (m.withRoot g).globalsAt k = some f := by
  cases k with
  | root r =>
      have hlive : m.world.Live r := World.live_iff_isSome.2 (Option.isSome_of_eq_some hk)
      have hnew := m.world.roots.get?_alloc g r
      exact hnew.trans ((if_neg (hlive.ne_newRoot g)).trans hk)
  | own id => exact hk

/-! ## What each step binds -/

/-- A step that binds names in the root of environments. -/
theorem follows_bound {r : Ref Globals} (hseat : step.seat? m = some (.root r))
    (bs : List (String × Address))
    (hnext : ∀ k, effect.value.2.globalsAt k = (m.withBindings r bs).globalsAt k)
    (hreports : ∀ g, m.world.roots.get? r = some g →
      effect.reports Event.binding? = g.bound bs) :
    bindingJournal.Follows m step effect := by
  refine .work hseat ?_ ?_
  · intro g hg
    have hgrown : effect.value.2.globalsAt (.root r) = some (g.pushAll bs) := by
      have hold : m.globalsAt (.root r) = some g := hg
      simp [hnext, globalsAt_withBindings, hold]
    exact ⟨g.pushAll bs, hgrown, bs, rfl, hreports g hg⟩
  · intro other hother
    exact (hnext other).trans ((m.globalsAt_withBindings r bs other).trans (if_neg hother))

/-- A step on a session reports the names that it binds in the global frame of the session. -/
theorem bindings_execSession (m : Machine) {step : SessionStep}
    (hplain : (Step.session step).plain = false) :
    bindingJournal.Follows m (.session step) (m.execSession step) := by
  cases step with
  | create into capacities =>
      exact .idle rfl fun k g _ hg => globalsAt_withRoot {} hg
  | bind id name raw =>
      refine .found fun a _ => .found fun s hs => ?_
      have hseat : (Step.session (.bind id name raw)).seat? m = some (.root s.root) := by
        simp [Step.seat?, SessionStep.binder?, register?_eq_ok.1 hs]
      refine follows_bound hseat [(name, a)] (fun _ => rfl) ?_
      intro g hg
      simp [Session.bind, World.bind, World.globals_of_get? hg, Globals.bound, Event.binding?,
        answer]
  | define id name v =>
      refine .found fun s hs => ?_
      have hseat : (Step.session (.define id name v)).seat? m = some (.root s.root) := by
        simp [Step.seat?, SessionStep.binder?, register?_eq_ok.1 hs]
      refine follows_bound hseat [(name, ⟨s.store.size⟩)] (fun _ => rfl) ?_
      intro g hg
      rw [Traced.reports_bind, s.bindings_define, World.globals_of_get? hg]
      rfl
  | defineMany id stem count =>
      refine .found fun s hs => ?_
      have hseat : (Step.session (.defineMany id stem count)).seat? m = some (.root s.root) := by
        simp [Step.seat?, SessionStep.binder?, register?_eq_ok.1 hs]
      refine follows_bound hseat (Session.definitions stem s.store.size count) ?_ ?_
      · intro k
        simp only [Traced.value_bind, s.value_defineMany]
        rfl
      · intro g hg
        have hlive : m.world.Live s.root := World.live_iff_isSome.2 (Option.isSome_of_eq_some hg)
        rw [Traced.reports_bind, Session.bindings_defineMany hlive, World.globals_of_get? hg]
        exact List.append_nil _
  | enter id x names values into =>
      refine .found fun s hs => .found fun e _ => .idle ?_ ?_
      · rw [Traced.reports_bind, Session.reports_enter (fun _ _ => rfl)]
        exact Traced.reports_of_silent _ (events_outcome fun _ => rfl)
      · intro k g _ hg
        have hroots := s.roots_enter m.world e names values
        have hat : ∀ {m' : Machine}, m'.world.roots = m.world.roots → m'.globals = m.globals →
            m'.globalsAt k = some g := fun h h' => (congrFun (globalsAt_congr h h') k).trans hg
        simp only [Traced.value_bind]
        generalize (s.enter m.world e names values).value = result at hroots
        rcases result with ⟨entered, t, w⟩
        cases entered <;> exact hat hroots rfl
  | assign id x name v =>
      refine .found fun s hs => .found fun e _ => .idle ?_ ?_
      · rw [Traced.reports_bind, Session.reports_assign (fun _ => rfl) (fun _ _ => rfl)]
        exact Traced.reports_of_silent _ (events_outcome fun _ => rfl)
      · intro k g _ hg
        simp only [Traced.value_bind]
        cases (s.assign m.world e name v).value.1 <;> exact hg
  | _ => cases hplain

theorem globalsAt_putStore (m : Machine) (id : String) (store : Store) :
    (m.putStore id store).globalsAt = m.globalsAt := by
  unfold putStore
  split <;> exact globalsAt_congr rfl rfl

/-- A step on a store binds no names. -/
theorem bindings_execStore (m : Machine) {step : StoreStep}
    (hplain : (Step.store step).plain = false) :
    bindingJournal.Follows m (.store step) (m.execStore step) := by
  cases step with
  | create into => exact .idle rfl fun _ _ _ hg => hg
  | copy store into => exact .found fun s _ => .idle rfl fun _ _ _ hg => hg
  | alloc store v =>
      refine .found fun s _ => .idle rfl ?_
      intro k g _ hg
      exact (congrFun (m.globalsAt_putStore store _) k).trans hg
  | allocMany store v count =>
      refine .found fun s _ => .idle ?_ ?_
      · rw [Traced.reports_bind,
          Store.reports_of_cells_eq_nil (fun _ _ => rfl) (s.events_allocMany v count)]
        rfl
      · intro k g _ hg
        exact (congrFun (m.globalsAt_putStore store _) k).trans hg
  | write store raw v =>
      refine .found fun a _ => .found fun s _ => .idle ?_ ?_
      · rw [Traced.reports_bind, s.reports_write (fun _ _ => rfl) a v]
        rfl
      · intro k g _ hg
        exact (congrFun (m.globalsAt_putStore store _) k).trans hg
  | _ => cases hplain

/-- A step on a frame in a register reports the name that it binds there. -/
theorem bindings_execGlobals (m : Machine) {step : GlobalsStep}
    (hplain : (Step.globals step).plain = false) :
    bindingJournal.Follows m (.globals step) (m.execGlobals step) := by
  cases step with
  | create into =>
      refine .idle rfl ?_
      intro k g hk hg
      have hk : k ≠ .own into := fun h => hk (congrArg some h.symm)
      exact (m.globalsAt_insert into {} k).trans ((if_neg hk).trans hg)
  | copy id into =>
      refine .found fun f _ => .idle rfl ?_
      intro k g hk hg
      have hk : k ≠ .own into := fun h => hk (congrArg some h.symm)
      exact (m.globalsAt_insert into f k).trans ((if_neg hk).trans hg)
  | bind id name raw =>
      refine .found fun a _ => .found fun f hf => ?_
      have hfound : m.globalsAt (.own id) = some f := register?_eq_ok.1 hf
      refine .work (k := .own id) rfl ?_ ?_
      · intro g hg
        cases hfound.symm.trans hg
        refine ⟨f.push name a, ?_, [(name, a)], rfl, rfl⟩
        exact (m.globalsAt_insert id (f.push name a) (.own id)).trans (if_pos rfl)
      · intro other hother
        exact (m.globalsAt_insert id (f.push name a) other).trans (if_neg hother)
  | toEnv id into => exact .found fun f _ => .idle rfl fun k g _ hg => globalsAt_withRoot f hg
  | _ => cases hplain

/-- The journal of bindings follows every step. -/
theorem bindings_exec (m : Machine) (step : Step) :
    bindingJournal.Follows m step (m.exec step) := by
  cases hplain : step.plain with
  | true => exact .of_plain (m.plain_exec hplain)
  | false =>
      cases step with
      | session step => exact m.bindings_execSession hplain
      | store step => exact m.bindings_execStore hplain
      | env step =>
          cases step with
          | create into => exact .idle rfl fun k g _ hg => globalsAt_withRoot {} hg
          | bindGlobal x name raw =>
              refine .found fun a _ => .found fun e he => ?_
              have hseat : (Step.env (.bindGlobal x name raw)).seat? m = some (.root e.root) := by
                simp [Step.seat?, env?_eq_ok.1 he]
              refine follows_bound hseat [(name, a)] (fun _ => rfl) ?_
              intro g hg
              simp [World.bind, World.globals_of_get? hg, Globals.bound, Event.binding?, answer]
          | _ => cases hplain
      | globals step => exact m.bindings_execGlobals hplain
      | drop kind id =>
          cases kind with
          | session => exact .idle rfl fun _ _ _ hg => hg
          | store => exact .idle rfl fun _ _ _ hg => hg
          | globals =>
              refine .idle rfl ?_
              intro k g hk hg
              exact (m.globalsAt_erase id fun h => hk (congrArg some h.symm)).trans hg
          | _ => cases hplain
      | _ => cases hplain

end Machine

end Script

end ScopedStore
