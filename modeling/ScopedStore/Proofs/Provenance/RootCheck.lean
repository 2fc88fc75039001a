import ScopedStore.Proofs.Provenance.Births
import ScopedStore.Proofs.Script.Calls

/-!
# The root check is exact provenance

A session accepts an environment exactly when the derivation of the environment starts at that very
session. Since no two global frames are created by one step, no environment has two sessions that
accept it, and an environment whose session is gone, or that never had one, stays foreign for ever.
The comparisons of global frames and of frames are exact in the same way: they tell creations apart,
and never contents.
-/

namespace ScopedStore.Script

def Step.sessionTarget? : Step → Option String
  | .session (.create into _) => some into
  | .drop .session id => some id
  | _ => none

/-- Whether a step creates a global frame that no session has. -/
def Step.detaches : Step → Bool
  | .env (.create _) => true
  | .globals (.toEnv _ _) => true
  | _ => false

/-- The register for an environment whose innermost frame a step builds. -/
def Step.builds? : Step → Option String
  | .session (.enter _ _ _ _ into) => some into
  | .env (.nest _ _ _ (_ + 1) into) => some into
  | _ => none

namespace Machine

/-- A session answers no call with an environment as foreign. -/
def Accepts (m : Machine) (id x : String) : Prop :=
  (m.sessions[id]?).isSome ∧ (m.envs.get? x).isSome ∧
    ∀ call : SessionStep, call.call? = some (id, x) →
      m.reply (.session call) ≠ .error (.fault .foreign)

/-- A session answers every call with an environment as foreign. -/
def Rejects (m : Machine) (id x : String) : Prop :=
  ∀ call : SessionStep, call.call? = some (id, x) →
    m.reply (.session call) = .error (.fault .foreign)

/-- What a machine tells about its environments is what the ledger has about their derivations. -/
structure Exact (m : Machine) (l : Ledger) : Prop where
  sessions : ∀ id : String, (l.sessions[id]?).isSome = (m.sessions[id]?).isSome
  envs : ∀ x : String, (l.envs[x]?).isSome = (m.envs.get? x).isSome
  accepts : ∀ (id x : String) (opened : Nat) (d : Lineage), l.sessions[id]? = some opened →
    l.envs[x]? = some d → (m.Accepts id x ↔ d.root = opened)
  rejects : ∀ (id x : String) (opened : Nat) (d : Lineage), l.sessions[id]? = some opened →
    l.envs[x]? = some d → (m.Rejects id x ↔ d.root ≠ opened)
  unique : ∀ (id other x y : String) (d d' : Lineage), l.envs[x]? = some d →
    l.envs[y]? = some d' → d.root = d'.root → m.Accepts id x → m.Accepts other y → id = other
  sameRoot : ∀ (x y : String) (d d' : Lineage), l.envs[x]? = some d → l.envs[y]? = some d' →
    m.reply (.env (.sameRoot x y)) = .ok (.flag (d.root = d'.root))
  sameFrame : ∀ (x y : String) (d d' : Lineage), l.envs[x]? = some d → l.envs[y]? = some d' →
    m.reply (.env (.sameFrame x y)) = .ok (.flag (d.origin = d'.origin))

/-- From the end of a script on, no session accepts an environment over the global frame that a
given step created. -/
def ForeignFrom (script : List Step) (created : Nat) : Prop :=
  ∀ (post : List Step) (id x : String) (d : Lineage),
    (ledger (script ++ post)).envs[x]? = some d → d.root = created →
      ¬ (({} : Machine).last (script ++ post)).Accepts id x

variable {m : Machine} {l : Ledger} {now : Nat} {b : Births}

/-! ## Registers through the ledger -/

namespace Tracks

/-- Behind an entry of a session there is a session, born at that step. -/
theorem session_of_entry (h : Tracks m l now b) {id : String} {opened : Nat}
    (hentry : l.sessions[id]? = some opened) :
    ∃ s, m.sessions[id]? = some s ∧ b.root s.root.slot = opened := by
  rw [h.sessions] at hentry
  exact Option.map_eq_some_iff.1 hentry

/-- Behind an entry of an environment there is one with this lineage. -/
theorem env_of_entry (h : Tracks m l now b) {x : String} {d : Lineage}
    (hentry : l.envs[x]? = some d) : ∃ e, m.envs.get? x = some e ∧ b.lineage e = d := by
  rw [h.envs] at hentry
  exact Option.map_eq_some_iff.1 hentry

/-- Two environments start with the same frame if their lineages start with the same creation. -/
theorem site_eq_iff (h : Tracks m l now b) (hm : m.Valid) {x y : String} {e f : Env}
    (he : m.envs.get? x = some e) (hf : m.envs.get? y = some f) :
    e.site = f.site ↔ (b.lineage e).origin = (b.lineage f).origin := by
  have hlive := hm.envLive x e he
  have hlive' := hm.envLive y f hf
  have hbelow := (hm.admits he).below
  have hbelow' := (hm.admits hf).below
  rcases e with ⟨frames, r⟩
  rcases f with ⟨frames', r'⟩
  -- A global frame and a nested one are never the same, by site as by creation.
  cases frames with
  | nil =>
      cases frames' with
      | nil =>
          constructor
          · intro hsite
            cases hsite
            rfl
          · intro horigin
            have hbirth : b.root r.slot = b.root r'.slot := Creation.root.inj horigin
            exact congrArg Site.root (h.rootInj r r' hlive hlive' hbirth)
      | cons g' rest' =>
          constructor
          · intro hsite
            cases hsite
          · intro horigin
            cases horigin
  | cons g rest =>
      cases frames' with
      | nil =>
          constructor
          · intro hsite
            cases hsite
          · intro horigin
            cases horigin
      | cons g' rest' =>
          constructor
          · intro hsite
            have hid : g.id = g'.id := Site.nested.inj hsite
            simp [Births.lineage, Lineage.origin, hid]
          · intro horigin
            have hbirth : b.frame g.id = b.frame g'.id := by
              rcases Creation.nested.inj horigin with ⟨hstep, hplace⟩
              exact Prod.ext hstep hplace
            exact congrArg Site.nested (h.frameInj g.id g'.id (hbelow g List.mem_cons_self)
              (hbelow' g' List.mem_cons_self) hbirth)

end Tracks

/-! ## The check at one time -/

/-- A call that a session and an environment can be put to the test with. -/
theorem exists_call (id x : String) : ∃ call : SessionStep, call.call? = some (id, x) :=
  ⟨.lookup id x "", rfl⟩

/-- A session accepts an environment exactly if the two have one global frame. -/
theorem accepts_iff {id x : String} {s : Session} {e : Env} (hs : m.sessions[id]? = some s)
    (he : m.envs.get? x = some e) : m.Accepts id x ↔ e.root = s.root := by
  constructor
  · rintro ⟨-, -, haccepts⟩
    rcases exists_call id x with ⟨call, hcall⟩
    by_cases hroot : e.root = s.root
    · exact hroot
    · exact absurd ((reply_eq_foreign_iff hcall hs he).2 hroot) (haccepts call hcall)
  · intro hroot
    refine ⟨Option.isSome_of_eq_some hs, Option.isSome_of_eq_some he, ?_⟩
    intro call hcall hforeign
    exact (reply_eq_foreign_iff hcall hs he).1 hforeign hroot

/-- A session rejects an environment exactly if the two have different global frames. -/
theorem rejects_iff {id x : String} {s : Session} {e : Env} (hs : m.sessions[id]? = some s)
    (he : m.envs.get? x = some e) : m.Rejects id x ↔ e.root ≠ s.root := by
  constructor
  · intro hrejects
    rcases exists_call id x with ⟨call, hcall⟩
    exact (reply_eq_foreign_iff hcall hs he).1 (hrejects call hcall)
  · intro hroot call hcall
    exact (reply_eq_foreign_iff hcall hs he).2 hroot

theorem Accepts.exists_root {id x : String} (h : m.Accepts id x) :
    ∃ s e, m.sessions[id]? = some s ∧ m.envs.get? x = some e ∧ e.root = s.root := by
  rcases Option.isSome_iff_exists.1 h.1 with ⟨s, hs⟩
  rcases Option.isSome_iff_exists.1 h.2.1 with ⟨e, he⟩
  exact ⟨s, e, hs, he, (accepts_iff hs he).1 h⟩

/-- What the machine compares by identity, the ledger compares by birth. -/
theorem Tracks.exact (h : Tracks m l now b) (hm : m.Valid) : Exact m l where
  sessions := by
    intro id
    rw [h.sessions, Option.isSome_map]
  envs := by
    intro x
    rw [h.envs, Option.isSome_map]
  accepts := by
    intro id x opened d hopened hd
    rcases h.session_of_entry hopened with ⟨s, hs, rfl⟩
    rcases h.env_of_entry hd with ⟨e, he, rfl⟩
    rw [accepts_iff hs he]
    constructor
    · intro hroot
      exact congrArg (fun r : Ref Globals => b.root r.slot) hroot
    · intro hbirth
      exact h.rootInj e.root s.root (hm.envLive x e he) (hm.sessionLive id s hs) hbirth
  rejects := by
    intro id x opened d hopened hd
    rcases h.session_of_entry hopened with ⟨s, hs, rfl⟩
    rcases h.env_of_entry hd with ⟨e, he, rfl⟩
    rw [rejects_iff hs he]
    constructor
    · intro hroot hbirth
      exact hroot (h.rootInj e.root s.root (hm.envLive x e he) (hm.sessionLive id s hs) hbirth)
    · intro hbirth hroot
      exact hbirth (congrArg (fun r : Ref Globals => b.root r.slot) hroot)
  unique := by
    intro id other x y d d' hd hd' hbirth haccepts haccepts'
    rcases haccepts.exists_root with ⟨s, e, hs, he, hroot⟩
    rcases haccepts'.exists_root with ⟨s', e', hs', he', hroot'⟩
    have hlineage : b.lineage e = d := Option.some.inj ((h.env_entry he).symm.trans hd)
    have hlineage' : b.lineage e' = d' := Option.some.inj ((h.env_entry he').symm.trans hd')
    subst hlineage
    subst hlineage'
    -- One birth of the roots means one root, and no two sessions share one.
    have hsame : e.root = e'.root :=
      h.rootInj e.root e'.root (hm.envLive x e he) (hm.envLive y e' he') hbirth
    refine hm.apart id other s s' hs hs' ?_
    calc
      s.root = e.root := hroot.symm
      _ = e'.root := hsame
      _ = s'.root := hroot'
  sameRoot := by
    intro x y d d' hd hd'
    rcases h.env_of_entry hd with ⟨e, he, rfl⟩
    rcases h.env_of_entry hd' with ⟨f, hf, rfl⟩
    have hreply : m.reply (.env (.sameRoot x y)) = .ok (.flag (e.sameRoot f)) := by
      simp only [reply, exec, execEnv, env?, he, hf, found_ok]
      rfl
    rw [hreply]
    refine congrArg (fun b => Except.ok (Answer.flag b)) (decide_eq_decide.2 ⟨?_, ?_⟩)
    · intro hroot
      exact congrArg (fun r : Ref Globals => b.root r.slot) hroot
    · intro hbirth
      exact h.rootInj e.root f.root (hm.envLive x e he) (hm.envLive y f hf) hbirth
  sameFrame := by
    intro x y d d' hd hd'
    rcases h.env_of_entry hd with ⟨e, he, rfl⟩
    rcases h.env_of_entry hd' with ⟨f, hf, rfl⟩
    have hreply : m.reply (.env (.sameFrame x y)) = .ok (.flag (e.sameFrame f)) := by
      simp only [reply, exec, execEnv, env?, he, hf, found_ok]
      rfl
    rw [hreply]
    exact congrArg (fun b => Except.ok (Answer.flag b)) (decide_eq_decide.2 (h.site_eq_iff hm he hf))

/-- After every script the comparisons of the machine are those of the ledger. -/
theorem exact_of_script (script : List Step) :
    Exact (({} : Machine).last script) (ledger script) := by
  rcases exists_tracks script with ⟨b, htracks⟩
  exact htracks.exact (valid_empty.last script)

/-! ## The check ever after -/

/-- Steps are counted from the beginning of a script, so whatever the ledger has is older than its
end. -/
theorem opened_lt_length {script : List Step} {id : String} {opened : Nat}
    (h : (ledger script).sessions[id]? = some opened) : opened < script.length := by
  rcases exists_tracks script with ⟨b, htracks⟩
  rcases htracks.session_of_entry h with ⟨s, hs, rfl⟩
  exact htracks.rootLt s.root ((valid_empty.last script).sessionLive id s hs)

/-- One step opens one session. -/
theorem eq_of_opened {script : List Step} {id other : String} {opened : Nat}
    (h : (ledger script).sessions[id]? = some opened)
    (h' : (ledger script).sessions[other]? = some opened) : id = other := by
  rcases exists_tracks script with ⟨b, htracks⟩
  have hm : (({} : Machine).last script).Valid := valid_empty.last script
  rcases htracks.session_of_entry h with ⟨s, hs, hbirth⟩
  rcases htracks.session_of_entry h' with ⟨s', hs', hbirth'⟩
  have hroot := htracks.rootInj s.root s'.root (hm.sessionLive id s hs)
    (hm.sessionLive other s' hs') (hbirth.trans hbirth'.symm)
  exact hm.apart id other s s' hs hs' hroot

/-- A step of the past that opened none of the present sessions opens none of the later ones. -/
theorem foreignFrom_of_not_opened {script : List Step} {created : Nat}
    (hpast : created < script.length)
    (hnone : ∀ id : String, (ledger script).sessions[id]? ≠ some created) :
    ForeignFrom script created := by
  intro post id x d hd hroot haccepts
  have hexact := exact_of_script (script ++ post)
  have hpresent : ((ledger (script ++ post)).sessions[id]?).isSome := by
    rw [hexact.sessions]
    exact haccepts.1
  rcases Option.isSome_iff_exists.1 hpresent with ⟨opened, hopened⟩
  -- A session that accepts it was opened by the step that created the root, and so is not a later
  -- one.
  have hcreated : created = opened :=
    hroot.symm.trans ((hexact.accepts id x opened d hopened hd).1 haccepts)
  subst hcreated
  rw [ledger_append] at hopened
  rcases sessions_recorded post hopened with hold | ⟨k, capacities, hlater, -⟩
  · exact hnone id hold
  · omega

theorem ledger_concat (script : List Step) (step : Step) : ledger (script ++ [step]) =
    (({} : Machine).last script).noted script.length (ledger script) step :=
  ledger_append script [step]

/-- An environment of a session that a step drops or replaces is foreign from then on. -/
theorem foreignFrom_of_closed {script : List Step} {id : String} {opened : Nat} {step : Step}
    (hopened : (ledger script).sessions[id]? = some opened)
    (hstep : step.sessionTarget? = some id) : ForeignFrom (script ++ [step]) opened := by
  have hpast := opened_lt_length hopened
  -- The step that opened the session opened no other.
  have hgone : ∀ other : String, other ≠ id → (ledger script).sessions[other]? ≠ some opened :=
    fun other hne hother => hne (eq_of_opened hother hopened)
  refine foreignFrom_of_not_opened ?_ ?_
  · rw [List.length_append]
    exact Nat.lt_add_right _ hpast
  · intro other hother
    rw [ledger_concat] at hother
    cases step with
    | session step =>
        cases step with
        | create into capacities =>
            cases hstep
            change ((ledger script).sessions.insert id script.length)[other]? = some opened at hother
            rw [Lookup.getElem?_insert] at hother
            split at hother
            · exact absurd (Option.some.inj hother) (Nat.ne_of_gt hpast)
            · rename_i hne
              exact hgone other hne hother
        | _ => cases hstep
    | drop kind dropped =>
        cases kind with
        | session =>
            cases hstep
            change ((ledger script).sessions.erase id)[other]? = some opened at hother
            rw [Lookup.getElem?_erase] at hother
            split at hother
            · cases hother
            · rename_i hne
              exact hgone other hne hother
        | _ => cases hstep
    | _ => cases hstep

/-- An environment over a detached global frame is foreign from the beginning. -/
theorem foreignFrom_of_detached {script : List Step} {step : Step} (hstep : step.detaches = true) :
    ForeignFrom (script ++ [step]) script.length := by
  refine foreignFrom_of_not_opened ?_ ?_
  · rw [List.length_append]
    exact Nat.lt_succ_self script.length
  · intro id hid
    rw [ledger_append] at hid
    rcases sessions_recorded [step] hid with hold | ⟨k, capacities, -, hcreate⟩
    · exact absurd (opened_lt_length hold) (Nat.lt_irrefl _)
    · -- The step itself creates a detached frame, so it is not one that opens a session.
      have hsame := List.mem_singleton.1 (List.mem_of_getElem? hcreate)
      subst hsame
      cases hstep

/-! ## Frames that are never the same, and one that always is -/

/-- A step that builds a frame enters it in the ledger as its own creation. -/
theorem entry_of_builds {script : List Step} {step : Step} {into : String} {a : Answer}
    (hbuilds : step.builds? = some into)
    (hreply : (({} : Machine).last script).reply step = .ok a) :
    ∃ d place, (ledger (script ++ [step])).envs[into]? = some d ∧
      d.origin = .nested script.length place := by
  rw [ledger_concat, noted_of_ok hreply]
  have hexact := exact_of_script script
  have hentry : ∀ (x : String) (n : Nat), (({} : Machine).last script).envs.get? x ≠ none →
      ∃ d place, ((ledger script).put into
        ((ledger script).envs[x]?.map fun d => d.extend script.length (n + 1))).envs[into]? =
          some d ∧ d.origin = .nested script.length place := by
    intro x n hx
    have hsome : ((ledger script).envs[x]?).isSome := by
      rw [hexact.envs]
      exact Option.isSome_iff_ne_none.2 hx
    rcases Option.isSome_iff_exists.1 hsome with ⟨d, hd⟩
    rw [hd]
    exact ⟨d.extend script.length (n + 1), n, Std.ExtTreeMap.getElem?_insert_self, rfl⟩
  cases step with
  | session step =>
      cases step with
      | enter id x names values _ =>
          cases hbuilds
          -- Without the environment the step would have been refused, whatever else it was given.
          refine hentry x 0 ?_
          intro hnone
          cases hs : (({} : Machine).last script).sessions[id]? <;>
            simp [reply, exec, execSession, register?, env?, hs, hnone] at hreply
      | _ => cases hbuilds
  | env step =>
      cases step with
      | nest names raws x count _ =>
          cases count with
          | zero => cases hbuilds
          | succ n =>
              cases hbuilds
              refine hentry x n ?_
              intro hnone
              cases haddresses : addresses? raws <;>
                simp [reply, exec, execEnv, env?, haddresses, hnone] at hreply
      | _ => cases hbuilds
  | _ => cases hbuilds

/-- A session gives out its global frame under the step that opened it. -/
theorem entry_of_own {script : List Step} {id : String} {opened : Nat}
    (hopened : (ledger script).sessions[id]? = some opened) (into : String) :
    (ledger (script ++ [.session (.globalEnv id into)])).envs[into]? = some ⟨opened, []⟩ := by
  have hpresent : ((({} : Machine).last script).sessions[id]?).isSome := by
    rw [← (exact_of_script script).sessions, hopened]
    rfl
  rcases Option.isSome_iff_exists.1 hpresent with ⟨s, hs⟩
  have hreply : (({} : Machine).last script).reply (.session (.globalEnv id into)) =
      .ok (.depth 0) := by
    simp only [reply, exec, execSession, register?, hs, found_ok]
    rfl
  rw [ledger_concat, noted_of_ok hreply, Ledger.record_globalEnv hopened]
  exact Std.ExtTreeMap.getElem?_insert_self

/-- An entry that no step touches stays in the ledger. -/
theorem entry_kept {script post : List Step} {x : String} {d : Lineage}
    (hd : (ledger script).envs[x]? = some d) (hpost : ∀ step ∈ post, step.envTarget? ≠ some x) :
    (ledger (script ++ post)).envs[x]? = some d := by
  rw [ledger_append]
  exact (envs_recorded_of_ne post hpost).trans hd

theorem envTarget_of_builds {step : Step} {into : String} (h : step.builds? = some into) :
    step.envTarget? = some into := by
  cases step with
  | session step => cases step <;> first | exact h | cases h
  | env step =>
      cases step with
      | nest _ _ _ count _ =>
          cases count with
          | zero => cases h
          | succ n => exact h
      | _ => cases h
  | _ => cases h

/-- Two steps that build frames build different ones, whatever they are given. -/
theorem sameFrame_of_builds {script mid : List Step} {first second : Step} {x y : String}
    {a a' : Answer} (hfirst : first.builds? = some x) (hsecond : second.builds? = some y)
    (hne : x ≠ y) (hmid : ∀ step ∈ mid, step.envTarget? ≠ some x)
    (hreply : (({} : Machine).last script).reply first = .ok a)
    (hreply' : (({} : Machine).last (script ++ first :: mid)).reply second = .ok a') :
    (({} : Machine).last (script ++ first :: mid ++ [second])).reply (.env (.sameFrame x y)) =
      .ok (.flag false) := by
  rcases entry_of_builds hfirst hreply with ⟨d, place, hd, horigin⟩
  rcases entry_of_builds hsecond hreply' with ⟨d', place', hd', horigin'⟩
  have hkept : (ledger (script ++ first :: mid ++ [second])).envs[x]? = some d := by
    have hpost : ∀ step ∈ mid ++ [second], step.envTarget? ≠ some x := by
      intro step hstep
      rcases List.mem_append.1 hstep with hstep | hstep
      · exact hmid step hstep
      · rw [List.mem_singleton.1 hstep, envTarget_of_builds hsecond]
        exact fun h => hne (Option.some.inj h).symm
    have hscript : script ++ first :: mid ++ [second] = script ++ [first] ++ (mid ++ [second]) := by
      simp
    rw [hscript]
    exact entry_kept hd hpost
  rw [(exact_of_script _).sameFrame x y d d' hkept hd', horigin, horigin']
  -- The two creations are told apart by their steps, so their places do not matter.
  have hsteps : script.length ≠ (script ++ first :: mid).length := by
    simp
  have hdiffer : decide (Creation.nested script.length place =
      .nested (script ++ first :: mid).length place') = false :=
    decide_eq_false fun h => hsteps (Creation.nested.inj h).1
  rw [hdiffer]

/-- The global frame of one session is always the same. -/
theorem sameFrame_of_own {script mid : List Step} {id x y : String} {opened : Nat}
    (hopened : (ledger script).sessions[id]? = some opened)
    (hopened' : (ledger (script ++ .session (.globalEnv id x) :: mid)).sessions[id]? = some opened)
    (hmid : ∀ step ∈ mid, step.envTarget? ≠ some x) :
    (({} : Machine).last (script ++ .session (.globalEnv id x) :: mid ++
      [.session (.globalEnv id y)])).reply (.env (.sameFrame x y)) = .ok (.flag true) := by
  have hd := entry_of_own hopened x
  have hd' := entry_of_own hopened' y
  have hkept : (ledger (script ++ .session (.globalEnv id x) :: mid ++
      [.session (.globalEnv id y)])).envs[x]? = some ⟨opened, []⟩ := by
    -- The second register may be the first one again.
    by_cases hxy : x = y
    · rw [hxy]
      rw [hxy] at hd'
      exact hd'
    · have hlast : ∀ step ∈ [Step.session (.globalEnv id y)], step.envTarget? ≠ some x := by
        intro step hstep
        rw [List.mem_singleton.1 hstep]
        exact fun h => hxy (Option.some.inj h).symm
      have hscript : script ++ .session (.globalEnv id x) :: mid =
          script ++ [.session (.globalEnv id x)] ++ mid := by
        simp
      refine entry_kept ?_ hlast
      rw [hscript]
      exact entry_kept hd hmid
  rw [(exact_of_script _).sameFrame x y _ _ hkept hd', decide_eq_true rfl]

/-! ## The whole check -/

/-- After every script the machine tells of its environments what the ledger has about their
derivations. The environments of a session that a step drops or replaces are foreign to every
session from then on; so are those over a detached global frame, from its creation on, and those
over any frame whose step opened no session that is still there. Two steps that build frames never
build the same frame, and a session always gives out the same global frame. -/
theorem root_check_is_provenance (script : List Step) :
    Exact (({} : Machine).last script) (ledger script) ∧
      (∀ (id : String) (opened : Nat) (step : Step),
        (ledger script).sessions[id]? = some opened → step.sessionTarget? = some id →
          ForeignFrom (script ++ [step]) opened) ∧
      (∀ step : Step, step.detaches = true → ForeignFrom (script ++ [step]) script.length) ∧
      (∀ created : Nat, created < script.length →
        (∀ id : String, (ledger script).sessions[id]? ≠ some created) →
          ForeignFrom script created) ∧
      (∀ (mid : List Step) (first second : Step) (x y : String) (a a' : Answer),
        first.builds? = some x → second.builds? = some y → x ≠ y →
        (∀ step ∈ mid, step.envTarget? ≠ some x) →
        (({} : Machine).last script).reply first = .ok a →
        (({} : Machine).last (script ++ first :: mid)).reply second = .ok a' →
          (({} : Machine).last (script ++ first :: mid ++ [second])).reply
            (.env (.sameFrame x y)) = .ok (.flag false)) ∧
      ∀ (mid : List Step) (id x y : String) (opened : Nat),
        (ledger script).sessions[id]? = some opened →
        (ledger (script ++ .session (.globalEnv id x) :: mid)).sessions[id]? = some opened →
        (∀ step ∈ mid, step.envTarget? ≠ some x) →
          (({} : Machine).last (script ++ .session (.globalEnv id x) :: mid ++
            [.session (.globalEnv id y)])).reply (.env (.sameFrame x y)) = .ok (.flag true) := by
  refine ⟨exact_of_script script, ?_, ?_, ?_, ?_, ?_⟩
  · intro id opened step hopened hstep
    exact foreignFrom_of_closed hopened hstep
  · intro step hstep
    exact foreignFrom_of_detached hstep
  · intro created hpast hnone
    exact foreignFrom_of_not_opened hpast hnone
  · intro mid first second x y a a' hfirst hsecond hne hmid hreply hreply'
    exact sameFrame_of_builds hfirst hsecond hne hmid hreply hreply'
  · intro mid id x y opened hopened hopened' hmid
    exact sameFrame_of_own hopened hopened' hmid

/-- A session that takes the place of another in its register does not take over its environments,
and the same frame built twice is not the same frame. -/
theorem root_check_replaced :
    let script : List Step := [.session (.create "s" {}), .session (.globalEnv "s" "top")]
    let replace : Step := .session (.create "s" {})
    let build : String → Step := fun into => .env (.nest ["a"] [0] "top" 1 into)
    (({} : Machine).last script).Accepts "s" "top" ∧
      ¬ (({} : Machine).last (script ++ [replace])).Accepts "s" "top" ∧
      (({} : Machine).last (script ++ [build "x"] ++ [build "y"])).reply
        (.env (.sameFrame "x" "y")) = .ok (.flag false) := by
  intro script replace build
  have hopened : (ledger script).sessions["s"]? = some 0 := by decide
  have htop : (ledger script).envs["top"]? = some ⟨0, []⟩ := by decide
  rcases root_check_is_provenance script with ⟨hexact, hclosed, -, -, hbuilds, -⟩
  refine ⟨(hexact.accepts "s" "top" 0 _ hopened htop).2 rfl, ?_, ?_⟩
  · have hforeign := hclosed "s" 0 replace hopened rfl
    exact hforeign [] "s" "top" ⟨0, []⟩ (by decide) rfl
  · exact hbuilds [] (build "x") (build "y") "x" "y" (.depth 1) (.depth 1) rfl rfl (by decide)
      (by simp) (by rfl) (by rfl)

end Machine

end ScopedStore.Script
