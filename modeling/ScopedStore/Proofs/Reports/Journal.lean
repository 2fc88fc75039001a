import ScopedStore.Proofs.Reports.Steps

/-!
# Journals

A journal follows things of one kind, stores or global frames, over a script: it collects for each
of them the reports of the steps that work on it. How a thing may grow with the reports that are
made of it is given with the journal, and what one step does is shown for each journal in its own
module; that the reports of a whole script tell how the thing has grown follows here, once and for
all.
-/

namespace ScopedStore.Script

structure Journal (κ σ ρ : Type) where
  /-- The reports that are made of the things. -/
  kind : Event → Option ρ
  /-- The thing that is kept somewhere, as far as the journal follows it. -/
  at? : Machine → κ → Option σ
  /-- Where the thing is that a step works on. -/
  worked? : Machine → Step → Option κ
  /-- Where a step puts a new thing, or none, in the place of the old one. -/
  renewed? : Step → Option κ
  /-- How a thing grows with the reports that are made of it. -/
  Grows : σ → List ρ → σ → Prop
  refl : ∀ s, Grows s [] s
  trans : ∀ {s s' s'' : σ} {first second : List ρ}, Grows s first s' → Grows s' second s'' →
    Grows s (first ++ second) s''
  /-- Searches are reports of another kind. -/
  searches : ∀ name : String, kind (.resolving name) = none
  /-- The things are stores or global frames. -/
  at?_congr : ∀ {m m' : Machine}, m'.world.roots = m.world.roots → m'.sessions = m.sessions →
    m'.stores = m.stores → m'.globals = m.globals → at? m' = at? m

namespace Journal

variable {κ σ ρ : Type} [DecidableEq κ] (j : Journal κ σ ρ)

def entry (k : κ) (m : Machine) (step : Step) (effect : Effect) : List ρ :=
  if j.worked? m step = some k then effect.reports j.kind else []

/-- The reports of one thing over a script: those of the steps that work on it, in order. -/
def entries (k : κ) : Machine → List Step → List ρ
  | _, [] => []
  | m, step :: rest => j.entry k m step (m.exec step) ++ entries k (m.next step) rest

/-- Things grow as the effect of a step reports of them, but for one that the step renews. A step
that works on nothing reports nothing of the kind. -/
structure Follows (m : Machine) (step : Step) (effect : Effect) : Prop where
  grows : ∀ (k : κ) (s : σ), j.renewed? step ≠ some k → j.at? m k = some s →
    ∃ s', j.at? effect.value.2 k = some s' ∧ j.Grows s (j.entry k m step effect) s'
  stray : j.worked? m step = none → effect.reports j.kind = []

variable {j} {m : Machine} {step : Step} {effect : Effect} {α : Type}

/-- A step that makes no report and keeps what it does not renew. -/
theorem Follows.idle (hreports : effect.reports j.kind = [])
    (hkept : ∀ k s, j.renewed? step ≠ some k → j.at? m k = some s →
      j.at? effect.value.2 k = some s) : j.Follows m step effect := by
  refine ⟨?_, fun _ => hreports⟩
  intro k s hk hs
  refine ⟨s, hkept k s hk hs, ?_⟩
  have hentry : j.entry k m step effect = [] := by simp [entry, hreports]
  simpa [hentry] using j.refl s

/-- A step that works on one thing and leaves all others alone. -/
theorem Follows.work {k : κ} (hworked : j.worked? m step = some k)
    (hgrows : ∀ s, j.at? m k = some s →
      ∃ s', j.at? effect.value.2 k = some s' ∧ j.Grows s (effect.reports j.kind) s')
    (hother : ∀ other, other ≠ k → j.at? effect.value.2 other = j.at? m other) :
    j.Follows m step effect := by
  refine ⟨?_, ?_⟩
  · intro other s _ hs
    by_cases hk : other = k
    · subst hk
      simpa [entry, hworked] using hgrows s hs
    · have hentry : j.entry other m step effect = [] := by simp [entry, hworked, Ne.symm hk]
      exact ⟨s, (hother other hk).trans hs, by simpa [hentry] using j.refl s⟩
  · intro hnone
    cases hworked.symm.trans hnone

/-- A step that changes no store and no frame has nothing to report to a journal. -/
theorem Follows.of_plain (h : m.Plain step effect) : j.Follows m step effect := by
  have hat := j.at?_congr h.roots h.sessions h.stores h.globals
  refine .idle ?_ fun k s _ hs => (congrFun hat k).trans hs
  refine Traced.reports_eq_nil j.kind ?_
  intro event hevent
  rcases h.events event hevent with ⟨name, -, rfl⟩
  exact j.searches name

/-- A step that does not find what it needs has changed nothing. -/
theorem Follows.found {x : Except Refusal α} {next : α → Effect}
    (h : ∀ a, x = .ok a → j.Follows m step (next a)) : j.Follows m step (m.found x next) := by
  cases x with
  | ok a => exact h a rfl
  | error refusal => exact .of_plain (.of_same (.error refusal) rfl rfl rfl rfl)

/-! ## Over a script -/

/-- What every step reports, a script reports: a thing that is not renewed has grown in the end as
its entries say. -/
theorem grows_last (hfollows : ∀ (m : Machine) (step : Step), j.Follows m step (m.exec step))
    {k : κ} (steps : List Step) :
    ∀ {m : Machine} {s : σ}, (∀ step ∈ steps, j.renewed? step ≠ some k) →
      j.at? m k = some s →
        ∃ s', j.at? (m.last steps) k = some s' ∧ j.Grows s (j.entries k m steps) s' := by
  induction steps with
  | nil =>
      intro m s _ hs
      exact ⟨s, hs, j.refl s⟩
  | cons step rest ih =>
      intro m s hk hs
      rcases (hfollows m step).grows k s (hk step List.mem_cons_self) hs with ⟨t, ht, hfirst⟩
      rcases ih (fun other hother => hk other (List.mem_cons_of_mem step hother)) ht with
        ⟨u, hu, hrest⟩
      exact ⟨u, hu, j.trans hfirst hrest⟩

end Journal

end ScopedStore.Script
