import ScopedStore.Proofs.History.Kept

/-!
# The ledger of derivations

Where sessions and environments come from, told from the steps of a script alone: a session is known
by the step that opened it, and an environment by the step that created its global frame and the
steps that built its nested frames. Dropping a register strikes its entry, and a refused step writes
nothing. The ledger knows nothing of how a machine tells frames apart.
-/

namespace ScopedStore.Script

/-- Where an environment comes from: the step that created its global frame, and for each nested
frame, innermost first, the step that built it and its place among the frames of that step. -/
structure Lineage where
  root : Nat
  frames : List (Nat × Nat)
  deriving DecidableEq

inductive Creation where
  | root (step : Nat)
  | nested (step place : Nat)
  deriving DecidableEq

namespace Lineage

def origin (d : Lineage) : Creation :=
  match d.frames with
  | [] => .root d.root
  | (step, place) :: _ => .nested step place

/-- The frames that one step builds, the last of them innermost. -/
def layers (step : Nat) : Nat → List (Nat × Nat)
  | 0 => []
  | n + 1 => (step, n) :: layers step n

/-- The lineage of an environment on which a step builds further frames. -/
def extend (d : Lineage) (step n : Nat) : Lineage :=
  ⟨d.root, layers step n ++ d.frames⟩

end Lineage

/-- The steps that opened the sessions in registers, and the lineages of the environments. -/
structure Ledger where
  sessions : Registers Nat := {}
  envs : Registers Lineage := {}

namespace Ledger

def put (l : Ledger) (into : String) : Option Lineage → Ledger
  | some d => { l with envs := l.envs.insert into d }
  | none => l

/-- Writes what a step that succeeds at a given time opens, creates, derives or drops. -/
def record (l : Ledger) (now : Nat) : Step → Ledger
  | .session (.create into _) => { l with sessions := l.sessions.insert into now }
  | .session (.globalEnv id into) => l.put into (l.sessions[id]?.map fun opened => ⟨opened, []⟩)
  | .session (.enter _ x _ _ into) => l.put into (l.envs[x]?.map fun d => d.extend now 1)
  | .env (.create into) => l.put into (some ⟨now, []⟩)
  | .env (.copy x into) => l.put into l.envs[x]?
  | .env (.nest _ _ x count into) => l.put into (l.envs[x]?.map fun d => d.extend now count)
  | .env (.global x into) => l.put into (l.envs[x]?.map fun d => ⟨d.root, []⟩)
  | .env (.enclosing x into) => l.put into (l.envs[x]?.map fun d => ⟨d.root, d.frames.tail⟩)
  | .globals (.toEnv _ into) => l.put into (some ⟨now, []⟩)
  | .drop .session id => { l with sessions := l.sessions.erase id }
  | .drop .env x => { l with envs := l.envs.erase x }
  | _ => l

end Ledger

namespace Machine

def noted (m : Machine) (now : Nat) (l : Ledger) (step : Step) : Ledger :=
  match m.reply step with
  | .ok _ => l.record now step
  | .error _ => l

def recorded (m : Machine) (now : Nat) (l : Ledger) : List Step → Ledger
  | [] => l
  | step :: rest => (m.next step).recorded (now + 1) (m.noted now l step) rest

end Machine

def ledger (script : List Step) : Ledger :=
  ({} : Machine).recorded 0 {} script

namespace Machine

variable {m : Machine} {now : Nat} {l : Ledger}

theorem noted_of_ok {step : Step} {a : Answer} (h : m.reply step = .ok a) :
    m.noted now l step = l.record now step := by
  unfold noted
  rw [h]

/-- A refused step writes nothing. -/
theorem noted_of_refused {step : Step} {refusal : Refusal} (h : m.reply step = .error refusal) :
    m.noted now l step = l := by
  unfold noted
  rw [h]

/-- The ledger of a script goes on where the first part of the script has left it. -/
theorem recorded_append (pre post : List Step) :
    ∀ (m : Machine) (now : Nat) (l : Ledger), m.recorded now l (pre ++ post) =
      (m.last pre).recorded (now + pre.length) (m.recorded now l pre) post := by
  induction pre with
  | nil =>
      intro m now l
      rfl
  | cons step rest ih =>
      intro m now l
      have hrest := ih (m.next step) (now + 1) (m.noted now l step)
      -- The clock has advanced by one step and then by the rest.
      rw [Nat.add_assoc, Nat.add_comm 1] at hrest
      exact hrest

end Machine

theorem ledger_append (pre post : List Step) : ledger (pre ++ post) =
    (({} : Machine).last pre).recorded pre.length (ledger pre) post := by
  unfold ledger
  rw [Machine.recorded_append, Nat.zero_add]

/-- The session was opened by the first step, and the frame in `inner` was built by the third. -/
example : (ledger [.session (.create "s" {}), .session (.globalEnv "s" "top"),
    .env (.nest ["a"] [0] "top" 1 "inner")]).envs["inner"]? = some ⟨0, [(2, 0)]⟩ := by
  decide

/-! ## What the entries of a ledger can come from -/

namespace Ledger

variable {l : Ledger} {now : Nat} {step : Step}

theorem sessions_put (l : Ledger) (into : String) (d : Option Lineage) :
    (l.put into d).sessions = l.sessions := by
  cases d <;> rfl

theorem envs_put_of_ne {x into : String} (d : Option Lineage) (h : x ≠ into) :
    (l.put into d).envs[x]? = l.envs[x]? := by
  cases d with
  | none => rfl
  | some d => exact (Lookup.getElem?_insert l.envs into x d).trans (if_neg h)

/-- The global frame of a session comes from the step that opened the session. -/
theorem record_globalEnv {id : String} {opened : Nat} (h : l.sessions[id]? = some opened)
    (now : Nat) (into : String) :
    l.record now (.session (.globalEnv id into)) = l.put into (some ⟨opened, []⟩) := by
  change l.put into (l.sessions[id]?.map fun n => (⟨n, []⟩ : Lineage)) = _
  rw [h]
  rfl

/-- A session is entered in the ledger by the step that opens it, and by no other. -/
theorem sessions_record {id : String} {opened : Nat}
    (h : (l.record now step).sessions[id]? = some opened) :
    l.sessions[id]? = some opened ∨
      opened = now ∧ ∃ capacities, step = .session (.create id capacities) := by
  cases step with
  | session step =>
      cases step with
      | create into capacities =>
          change (l.sessions.insert into now)[id]? = some opened at h
          rw [Lookup.getElem?_insert] at h
          split at h
          · rename_i hid
            subst hid
            exact .inr ⟨(Option.some.inj h).symm, capacities, rfl⟩
          · exact .inl h
      | globalEnv _ into => exact .inl (l.sessions_put into _ ▸ h)
      | enter _ _ _ _ into => exact .inl (l.sessions_put into _ ▸ h)
      | _ => exact .inl h
  | env step =>
      cases step with
      | copy _ into => exact .inl (l.sessions_put into _ ▸ h)
      | nest _ _ _ _ into => exact .inl (l.sessions_put into _ ▸ h)
      | global _ into => exact .inl (l.sessions_put into _ ▸ h)
      | enclosing _ into => exact .inl (l.sessions_put into _ ▸ h)
      | _ => exact .inl h
  | globals step =>
      cases step <;> exact .inl h
  | drop kind other =>
      cases kind with
      | session =>
          change (l.sessions.erase other)[id]? = some opened at h
          rw [Lookup.getElem?_erase] at h
          split at h
          · cases h
          · exact .inl h
      | _ => exact .inl h
  | _ => exact .inl h

/-- A step enters an environment under no name but its target. -/
theorem envs_record_of_ne {x : String} (h : step.envTarget? ≠ some x) :
    (l.record now step).envs[x]? = l.envs[x]? := by
  have hne : ∀ {into : String}, step.envTarget? = some into → x ≠ into := by
    rintro into hinto rfl
    exact h hinto
  cases step with
  | session step =>
      cases step with
      | globalEnv _ _ => exact envs_put_of_ne _ (hne rfl)
      | enter _ _ _ _ _ => exact envs_put_of_ne _ (hne rfl)
      | _ => rfl
  | env step =>
      cases step with
      | create _ => exact envs_put_of_ne _ (hne rfl)
      | copy _ _ => exact envs_put_of_ne _ (hne rfl)
      | nest _ _ _ _ _ => exact envs_put_of_ne _ (hne rfl)
      | global _ _ => exact envs_put_of_ne _ (hne rfl)
      | enclosing _ _ => exact envs_put_of_ne _ (hne rfl)
      | _ => rfl
  | globals step =>
      cases step with
      | toEnv _ _ => exact envs_put_of_ne _ (hne rfl)
      | _ => rfl
  | drop kind other =>
      cases kind with
      | env => exact (Lookup.getElem?_erase l.envs other x).trans (if_neg (hne rfl))
      | _ => rfl
  | _ => rfl

end Ledger

namespace Machine

/-- A session in the ledger after a script was there before, or is known by the step of the script
that opened it. -/
theorem sessions_recorded {id : String} {opened : Nat} (steps : List Step) :
    ∀ {m : Machine} {now : Nat} {l : Ledger},
      (m.recorded now l steps).sessions[id]? = some opened → l.sessions[id]? = some opened ∨
        ∃ k capacities, opened = now + k ∧
          steps[k]? = some (.session (.create id capacities)) := by
  induction steps with
  | nil =>
      intro m now l h
      exact .inl h
  | cons step rest ih =>
      intro m now l h
      -- Either the ledger had the session after the first step, or a later step opened it.
      rcases ih h with hnoted | ⟨k, capacities, hopened, hstep⟩
      · cases hreply : m.reply step with
        | error refusal =>
            rw [noted_of_refused hreply] at hnoted
            exact .inl hnoted
        | ok a =>
            rw [noted_of_ok hreply] at hnoted
            rcases Ledger.sessions_record hnoted with hold | ⟨hnow, capacities, hcreate⟩
            · exact .inl hold
            · exact .inr ⟨0, capacities, hnow, congrArg some hcreate⟩
      · refine .inr ⟨k + 1, capacities, ?_, hstep⟩
        rw [hopened]
        omega

/-- An entry stays for as long as no step fills or drops its register. -/
theorem envs_recorded_of_ne {x : String} (steps : List Step) :
    ∀ {m : Machine} {now : Nat} {l : Ledger}, (∀ step ∈ steps, step.envTarget? ≠ some x) →
      (m.recorded now l steps).envs[x]? = l.envs[x]? := by
  induction steps with
  | nil =>
      intro m now l _
      rfl
  | cons step rest ih =>
      intro m now l h
      refine (ih fun other hother => h other (List.mem_cons_of_mem step hother)).trans ?_
      unfold noted
      cases m.reply step with
      | ok a => exact Ledger.envs_record_of_ne (h step List.mem_cons_self)
      | error refusal => rfl

end Machine

end ScopedStore.Script
