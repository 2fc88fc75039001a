import ScopedStore.Proofs.Isolation.Lockstep
import ScopedStore.Proofs.Script.Calls

/-!
# Sessions do not interfere

Deleting from a script every step that is not addressed to a session changes nothing about the
session: the steps that are left get the replies that they got before, and the session ends with the
same cells and the same global bindings. What was deleted could not have reached the session: a call
on it with an environment of another session had been answered as foreign.
-/

namespace ScopedStore.Script.Machine

variable {session : String} {m m' : Machine}

theorem mirrors_empty (session : String) : Mirrors session {} {} where
  bare := by simp
  sessions := .inl ⟨by simp, by simp⟩

/-- Machines that agree on a session show the same cells and bindings of it. -/
theorem Mirrors.contents_eq (h : Mirrors session m m') :
    m'.contents session = m.contents session := by
  unfold contents
  rcases h.sessions with ⟨hnone, hnone'⟩ | ⟨s, s', hmirror⟩
  · rw [hnone, hnone']
    rfl
  · simp [hmirror.left, hmirror.right, hmirror.store, hmirror.globals]

/-- The retained steps, run on a machine that agrees with the first one on the session, get the
replies of the whole script, and the machines agree when both scripts are over. -/
theorem Mirrors.retained (steps : List Step) :
    ∀ {m m' : Machine}, Mirrors session m m' → m.Valid → m'.Valid →
      (m'.run ((m.retained session steps).map Prod.fst)).map (·.value.1) =
          (m.retained session steps).map Prod.snd ∧
        Mirrors session (m.last steps) (m'.last ((m.retained session steps).map Prod.fst)) := by
  -- Induction on the whole script: a retained step is taken by both machines, a deleted one by the
  -- first machine alone, and both ways the machines go on to agree on the session.
  induction steps with
  | nil =>
      intro m m' h _ _
      exact ⟨rfl, h⟩
  | cons step rest ih =>
      intro m m' h hm hm'
      cases haddressed : m.addressed session step with
      | true =>
          rcases h.exec hm hm' haddressed with ⟨hreply, hnext⟩
          rcases ih hnext (hm.next step) (hm'.next step) with ⟨hreplies, hlast⟩
          have hretained : m.retained session (step :: rest) =
              (step, m.reply step) :: (m.next step).retained session rest := by
            simp [Machine.retained, haddressed]
          rw [hretained]
          refine ⟨?_, hlast⟩
          simp only [List.map_cons, run, List.cons.injEq]
          exact ⟨hreply, hreplies⟩
      | false =>
          have hnext := h.untouched (untouched_next hm haddressed)
          have hretained : m.retained session (step :: rest) =
              (m.next step).retained session rest := by
            simp [Machine.retained, haddressed]
          rw [hretained]
          exact ih hnext (hm.next step) hm'

/-- An unaddressed call on a session has an environment that is rooted elsewhere. -/
theorem rootedIn_eq_false_of_call {call : SessionStep} {x : String}
    (hcall : call.call? = some (session, x))
    (haddressed : m.addressed session (.session call) = false) : m.rootedIn session x = false := by
  cases call with
  | enter _ _ _ _ _ =>
      cases hcall
      simpa [addressed] using haddressed
  | lookup _ _ _ =>
      cases hcall
      simpa [addressed] using haddressed
  | assign _ _ _ _ =>
      cases hcall
      simpa [addressed] using haddressed
  | _ => cases hcall

/-- The steps addressed to a session, run alone, get the replies that they get in the whole script
and leave the session with the same contents; and every other call on the session was answered as
foreign, if it named an environment at all. -/
theorem retained_run_alone (session : String) (steps : List Step) :
    let kept := ({} : Machine).retained session steps
    (({} : Machine).run (kept.map Prod.fst)).map (·.value.1) = kept.map Prod.snd ∧
      (({} : Machine).last (kept.map Prod.fst)).contents session =
        (({} : Machine).last steps).contents session ∧
      ∀ (pre post : List Step) (call : SessionStep) (x : String),
        steps = pre ++ .session call :: post → call.call? = some (session, x) →
        (({} : Machine).last pre).addressed session (.session call) = false →
        ((({} : Machine).last pre).sessions[session]?).isSome →
        ((({} : Machine).last pre).envs.get? x).isSome →
          (({} : Machine).last pre).reply (.session call) = .error (.fault .foreign) := by
  intro kept
  rcases (mirrors_empty session).retained steps valid_empty valid_empty with ⟨hreplies, hmirrors⟩
  refine ⟨hreplies, hmirrors.contents_eq, ?_⟩
  intro pre post call x _ hcall haddressed hsession henv
  rcases Option.isSome_iff_exists.1 hsession with ⟨s, hs⟩
  rcases Option.isSome_iff_exists.1 henv with ⟨e, he⟩
  have hrooted := rootedIn_eq_false_of_call hcall haddressed
  exact (reply_eq_foreign_iff hcall hs he).2 (root_ne_of_rootedIn hrooted hs he)

/-- A look-up that goes to the wrong session is answered as foreign, and without it and without the
other session the contents are the same. -/
theorem retained_foreign_lookup :
    let pre : List Step := [.session (.create "a" {}), .session (.create "b" {}),
      .session (.globalEnv "b" "x")]
    let lookup : SessionStep := .lookup "a" "x" "n"
    let post : List Step := [.session (.define "a" "n" (.int 2))]
    let alone : List Step := [.session (.create "a" {}), .session (.define "a" "n" (.int 2))]
    (({} : Machine).last pre).reply (.session lookup) = .error (.fault .foreign) ∧
      (({} : Machine).last alone).contents "a" =
        (({} : Machine).last (pre ++ .session lookup :: post)).contents "a" := by
  intro pre lookup post alone
  have hkept : (({} : Machine).retained "a" (pre ++ .session lookup :: post)).map Prod.fst =
      alone := by decide
  rcases retained_run_alone "a" (pre ++ .session lookup :: post) with ⟨-, hcontents, hforeign⟩
  refine ⟨hforeign pre post lookup "x" rfl rfl (by decide) (by decide) (by decide), ?_⟩
  rw [hkept] at hcontents
  exact hcontents

end ScopedStore.Script.Machine
