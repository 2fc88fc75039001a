import ScopedStore.Proofs.Script.Runs

/-!
# Steps addressed to a session

A step is addressed to the session in a register when it is called on that session with an
environment rooted in the session's own global frame, or works on the session's store, or binds,
builds on, searches or drops an environment rooted there. `Machine.retained` keeps these steps of a
script, each with the reply that it got in the whole script.
-/

namespace ScopedStore.Script

/-- The store whose cells a step adds, reads or changes. -/
def StoreStep.subject? : StoreStep → Option String
  | .alloc store _ => some store
  | .allocMany store _ _ => some store
  | .read store _ => some store
  | .write store _ _ => some store
  | .lastAddressOf store _ => some store
  | .size store => some store
  | .cells store => some store
  | _ => none

def EnvStep.base? : EnvStep → Option String
  | .copy env _ => some env
  | .nest _ _ env _ _ => some env
  | .resolve env _ => some env
  | .findGlobal env _ => some env
  | .bindGlobal env _ _ => some env
  | .global env _ => some env
  | .enclosing env _ => some env
  | _ => none

namespace Machine

def rootedIn (m : Machine) (session x : String) : Bool :=
  match m.sessions[session]?, m.envs.get? x with
  | some s, some e => s.owns e
  | _, _ => false

/-- Whether a step is addressed to the session in a register, as the machine is now. -/
def addressed (m : Machine) (session : String) : Step → Bool
  | .session (.create into _) => into = session
  | .session (.globalEnv id _) => id = session
  | .session (.bind id _ _) => id = session
  | .session (.define id _ _) => id = session
  | .session (.defineMany id _ _) => id = session
  | .session (.enter id x _ _ _) => id = session && m.rootedIn session x
  | .session (.lookup id x _) => id = session && m.rootedIn session x
  | .session (.assign id x _ _) => id = session && m.rootedIn session x
  | .store step => step.subject? = some session && !m.stores.contains session
  | .env step => step.base?.any (m.rootedIn session)
  | .drop .session id => id = session
  | .drop .env x => m.rootedIn session x
  | _ => false

/-- The steps of a script that are addressed to a session when their turn comes, each with its
reply. -/
def retained (m : Machine) (session : String) : List Step → List (Step × Except Refusal Answer)
  | [] => []
  | step :: rest =>
    let kept := (m.next step).retained session rest
    if m.addressed session step then (step, m.reply step) :: kept else kept

/-- The call on `a` with an environment of `b` is deleted, and so is what made that environment. -/
example : (({} : Machine).retained "a" [.session (.create "a" {}), .session (.create "b" {}),
    .session (.globalEnv "b" "x"), .session (.lookup "a" "x" "n"),
    .session (.define "a" "n" (.int 2))]).map Prod.fst =
      [.session (.create "a" {}), .session (.define "a" "n" (.int 2))] := by
  decide

def contents (m : Machine) (session : String) : Option (Store × List (String × Address)) :=
  m.sessions[session]?.map fun s => (s.store, (m.world.globals s.root).bindings)

variable {m : Machine} {session x : String}

theorem rootedIn_eq_true_iff : m.rootedIn session x = true ↔
    ∃ s e, m.sessions[session]? = some s ∧ m.envs.get? x = some e ∧ e.root = s.root := by
  unfold rootedIn
  cases m.sessions[session]? <;> cases m.envs.get? x <;> simp

/-- An environment in a register that is not rooted in a session has another root than it. -/
theorem root_ne_of_rootedIn {s : Session} {e : Env} (h : m.rootedIn session x = false)
    (hs : m.sessions[session]? = some s) (he : m.envs.get? x = some e) : e.root ≠ s.root := by
  intro hroot
  have hrooted : m.rootedIn session x = true := rootedIn_eq_true_iff.2 ⟨s, e, hs, he, hroot⟩
  rw [h] at hrooted
  cases hrooted

end Machine

end ScopedStore.Script
