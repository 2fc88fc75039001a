import ScopedStore.Proofs.Script.Valid

/-!
# The history of a global frame

Names are bound in a global frame on several paths: by the session that owns it, by a definition, or
through any environment rooted in it; and a frame may be created with the bindings of another. The
history of a global frame over a script is put together from the steps alone. It is what the frame
holds in the end, in order and with nothing left out.
-/

namespace ScopedStore.Script.Machine

/-- The global frame that a step binds names in, with the bindings it adds, oldest first. A frame
that is created with contents begins with them. -/
def added (m : Machine) : Step → Option (Ref Globals × List (String × Address))
  | .session step =>
    (step.binder?.bind fun id => m.sessions[id]?).map fun s => (s.root, bindingsIn s step)
  | .env (.bindGlobal x name raw) =>
    (m.envs.get? x).map fun e => (e.root, (Address.ofRaw raw).toOption.toList.map (name, ·))
  | .globals (.toEnv id _) =>
    m.globals[id]?.map fun g => ((m.world.newRoot g).1, g.history.toList)
  | _ => none

def addedTo (m : Machine) (r : Ref Globals) (step : Step) : List (String × Address) :=
  match m.added step with
  | some (root, bindings) => if r = root then bindings else []
  | none => []

def historyOf (m : Machine) (r : Ref Globals) : List Step → List (String × Address)
  | [] => []
  | step :: rest => m.addedTo r step ++ (m.next step).historyOf r rest

variable {m m' : Machine} {step : Step} {r : Ref Globals}

theorem addedTo_of_none (h : m.added step = none) : m.addedTo r step = [] := by
  unfold addedTo
  rw [h]

theorem addedTo_of_some {root : Ref Globals} {bindings : List (String × Address)}
    (h : m.added step = some (root, bindings)) :
    m.addedTo r step = if r = root then bindings else [] := by
  unfold addedTo
  rw [h]

/-! ## Steps that bind nothing -/

theorem added_of_quiet (h : step.quiet = true) : m.added step = none := by
  cases step with
  | session step =>
      cases step with
      | lookup _ _ _ => rfl
      | _ => cases h
  | env step =>
      cases step with
      | bindGlobal _ _ _ => cases h
      | _ => rfl
  | globals step =>
      cases step with
      | toEnv _ _ => cases h
      | _ => rfl
  | _ => rfl

/-- A session refuses to bind a name only at a bad address. -/
theorem bindingsIn_of_refused {step : SessionStep} {id : String} {s : Session} {refusal : Refusal}
    (hbinder : step.binder? = some id) (hs : m.sessions[id]? = some s)
    (h : m.reply (.session step) = .error refusal) : bindingsIn s step = [] := by
  cases step with
  | bind _ name raw =>
      cases hbinder
      cases ha : Address.ofRaw raw with
      | ok a => simp [reply, exec, execSession, address?, ha, register?, hs, answer] at h
      | error fault => simp [bindingsIn, ha, Except.toOption]
  | define _ name v =>
      cases hbinder
      simp [reply, exec, execSession, register?, hs, answer] at h
  | defineMany _ stem count =>
      cases hbinder
      simp [reply, exec, execSession, register?, hs, answer] at h
  | _ => cases hbinder

/-- A refused step was given a bad address or names a register that holds nothing. -/
theorem addedTo_of_refused {refusal : Refusal} (h : m.reply step = .error refusal) :
    m.addedTo r step = [] := by
  cases hadded : m.added step with
  | none => exact addedTo_of_none hadded
  | some found =>
      rcases found with ⟨root, bindings⟩
      -- Each step that names a global frame is refused for a bad address only, and then binds
      -- nothing.
      have hnil : bindings = [] := by
        cases step with
        | session step =>
            rcases Option.map_eq_some_iff.1 hadded with ⟨s, hfound, hpair⟩
            rcases Option.bind_eq_some_iff.1 hfound with ⟨id, hbinder, hs⟩
            rw [← (Prod.mk.inj hpair).2]
            exact bindingsIn_of_refused hbinder hs h
        | env step =>
            cases step with
            | bindGlobal x name raw =>
                rcases Option.map_eq_some_iff.1 hadded with ⟨e, he, hpair⟩
                rw [← (Prod.mk.inj hpair).2]
                cases ha : Address.ofRaw raw with
                | ok a => simp [reply, exec, execEnv, address?, ha, env?, he, answer] at h
                | error fault => rfl
            | _ => cases hadded
        | globals step =>
            cases step with
            | toEnv id into =>
                rcases Option.map_eq_some_iff.1 hadded with ⟨g, hg, -⟩
                simp [reply, exec, execGlobals, register?, hg, storeEnv, answer] at h
            | _ => cases hadded
        | _ => cases hadded
      rw [addedTo_of_some hadded, hnil]
      split <;> rfl

/-! ## The law -/

/-- A detached frame begins its history with its contents. -/
theorem Detaches.added {into : String} {g : Globals} (h : m.Detaches step into g) :
    m.addedTo r step = if r = (m.world.newRoot g).1 then g.history.toList else [] := by
  cases h with
  | create =>
      rw [addedTo_of_none rfl]
      split <;> rfl
  | copy hg =>
      refine addedTo_of_some ?_
      simp [Machine.added, hg]

/-- Finding an environment adds no binding. -/
theorem Finds.added {into : String} {e : Env} (h : m.Finds step into e) : m.added step = none := by
  cases h <;> rfl

/-- A fresh global frame had no bindings before it was created. -/
theorem history_newRoot (w : World) (g : Globals) (r : Ref Globals) :
    ((w.newRoot g).2.globals r).history.toList = (w.globals r).history.toList ++
      if r = (w.newRoot g).1 then g.history.toList else [] := by
  rw [World.globals_newRoot]
  by_cases hr : r = (w.newRoot g).1
  · have hfresh : w.globals r = {} := by
      rw [hr]
      exact World.globals_of_not_live (w.not_live_newRoot g)
    rw [if_pos hr, if_pos hr, hfresh]
    rfl
  · rw [if_neg hr, if_neg hr, List.append_nil]

/-- New bindings come last in the history of their frame and in no other. -/
theorem history_bindAll {w : World} {root : Ref Globals} (hlive : w.Live root)
    (bindings : List (String × Address)) (r : Ref Globals) :
    ((w.bindAll root bindings).globals r).history.toList = (w.globals r).history.toList ++
      if r = root then bindings else [] := by
  rw [World.globals_bindAll root bindings hlive]
  by_cases hr : r = root
  · rw [if_pos hr, if_pos hr, hr, Globals.history_pushAll]
  · rw [if_neg hr, if_neg hr, List.append_nil]

/-- A move adds to every global frame exactly the bindings of its step. -/
theorem Moves.history (h : m.Moves step m') (hm : m.Valid) (r : Ref Globals) :
    (m'.world.globals r).history.toList =
      (m.world.globals r).history.toList ++ m.addedTo r step := by
  -- Moves that leave the global frames alone are those of steps that add nothing.
  have hsame : ∀ {m₁ : Machine}, m.added step = none →
      m₁.world.globals r = m.world.globals r →
        (m₁.world.globals r).history.toList =
          (m.world.globals r).history.toList ++ m.addedTo r step := by
    intro m₁ hadded hglobals
    rw [hglobals, addedTo_of_none hadded, List.append_nil]
  cases h with
  | still hquiet hworld _ _ _ => exact hsame (added_of_quiet hquiet) (by rw [hworld])
  | stored _ _ _ => exact hsame rfl rfl
  | assigned _ _ _ => exact hsame rfl rfl
  | opened =>
      have hhistory := history_newRoot m.world {} r
      -- A session's global frame begins empty, so no step has to account for its contents.
      have hempty : (if r = (m.world.newRoot {}).1 then ({} : Globals).history.toList else []) =
          [] := by
        split <;> rfl
      rw [hempty] at hhistory
      rw [addedTo_of_none rfl]
      exact hhistory
  | @defined change id s store hbinder hs =>
      have hadded : m.added (.session change) = some (s.root, bindingsIn s change) := by
        simp [Machine.added, hbinder, hs]
      rw [addedTo_of_some hadded]
      exact history_bindAll (hm.sessionLive id s hs) (bindingsIn s change) r
  | @bound x name raw a e he ha =>
      have hadded : m.added (.env (.bindGlobal x name raw)) = some (e.root, [(name, a)]) := by
        simp [Machine.added, he, ha, Except.toOption]
      rw [addedTo_of_some hadded]
      exact history_bindAll (hm.envLive x e he) [(name, a)] r
  | found hfinds => exact hsame hfinds.added rfl
  | @detached step into g hdetaches =>
      rw [hdetaches.added]
      exact history_newRoot m.world g r
  | entered _ _ _ => exact hsame rfl rfl
  | nested _ => exact hsame rfl rfl
  | closed => exact hsame rfl rfl
  | released => exact hsame rfl rfl

/-- A global frame holds what it held before a script and then what the script adds to it. -/
theorem history_last (steps : List Step) :
    ∀ {m : Machine}, m.Valid → ∀ r : Ref Globals,
      ((m.last steps).world.globals r).history.toList =
        (m.world.globals r).history.toList ++ m.historyOf r steps := by
  induction steps with
  | nil =>
      intro m _ r
      exact (List.append_nil _).symm
  | cons step rest ih =>
      intro m hm r
      have hnext : ((m.next step).world.globals r).history.toList =
          (m.world.globals r).history.toList ++ m.addedTo r step := by
        rcases m.reply_cases step with ⟨refusal, hreply, hsame⟩ | ⟨-, -, hmove⟩
        · rw [hsame, addedTo_of_refused hreply, List.append_nil]
        · exact hmove.history hm r
      calc
        ((m.last (step :: rest)).world.globals r).history.toList
            = ((m.next step).world.globals r).history.toList ++ (m.next step).historyOf r rest :=
              ih (hm.next step) r
        _ = ((m.world.globals r).history.toList ++ m.addedTo r step) ++
              (m.next step).historyOf r rest := by rw [hnext]
        _ = (m.world.globals r).history.toList ++ m.historyOf r (step :: rest) :=
              List.append_assoc _ _ _

/-- The history over a script goes on where the first part of the script has left it. -/
theorem historyOf_append (r : Ref Globals) (pre post : List Step) :
    ∀ m : Machine, m.historyOf r (pre ++ post) =
      m.historyOf r pre ++ (m.last pre).historyOf r post := by
  induction pre with
  | nil =>
      intro m
      rfl
  | cons step rest ih =>
      intro m
      calc
        m.historyOf r (step :: rest ++ post)
            = m.addedTo r step ++ (m.next step).historyOf r (rest ++ post) := rfl
        _ = m.addedTo r step ++ ((m.next step).historyOf r rest ++
              ((m.next step).last rest).historyOf r post) := by rw [ih]
        _ = m.historyOf r (step :: rest) ++ (m.last (step :: rest)).historyOf r post :=
              (List.append_assoc _ _ _).symm

end ScopedStore.Script.Machine
