import ScopedStore.Proofs.Provenance.RootCheck
import ScopedStore.Proofs.Releasing.Handed
import ScopedStore.Proofs.Script.Calls

/-!
# What releases leave standing

A register of an environment or of a session lets go of what it holds when it is emptied, and when
something else is put into it. After any sequence of such steps, the registers that they leave alone
hold the environments that they held, down to the frames and the bindings of the global frame. Where
a chain is taken apart on the way, the loop that does it touches no frame that a register can reach,
and no register ever gets to the global frame that the loop puts in the place of broken links.
-/

namespace ScopedStore.Script

/-- Whether a step lets go of what a register of an environment or of a session holds: it empties
the register or puts something else into it. -/
def Step.releases (step : Step) : Bool :=
  step.envTarget?.isSome || step.sessionTarget?.isSome

namespace Machine

open Env Env.Nodes

/-- The environment `e` in the register `x` is after some steps what it was before them. The
environment lists the frames of the chain, each with its identity, its names and its addresses. -/
structure Survives (m m' : Machine) (x : String) (e : Env) : Prop where
  chain : m'.envs.get? x = some e
  globals : m'.world.globals e.root = m.world.globals e.root
  describe : m'.reply (.env (.describe x)) = m.reply (.env (.describe x))
  resolve : ∀ name : String, m'.reply (.env (.resolve x name)) = m.reply (.env (.resolve x name))

/-- How far a walk has come that takes apart what the register `x` held from `site` on. The walk
starts when the register has been handed over, and puts the global frame `detached` in the place of
the links that it takes out. -/
def walk (m m' : Machine) (x : String) (site : Site) (detached : Ref Globals) (turns : Nat) :
    Nodes × List Nat :=
  (m.envs.handed x (m'.envs.get? x)).nodes.letGo detached turns site

/-- What a step does to let go of what the register `x` held: the walk may be looked at after any
number of turns. -/
structure TakesApart (m m' : Machine) (x : String) (site : Site) (detached : Ref Globals) :
    Prop where
  /-- The frames that the walk has torn are freed at its end, and no others. -/
  freed : m'.envs = (m.envs.handed x (m'.envs.get? x)).withNodes
    ((m.walk m' x site detached site.rank).1.free (m.walk m' x site detached site.rank).2)
  /-- Only the links of torn frames change. -/
  links : ∀ turns, ∀ id ∉ (m.walk m' x site detached turns).2,
    (m.walk m' x site detached turns).1[id]?.map Node.enclosing =
      (m.envs.handed x (m'.envs.get? x)).nodes[id]?.map Node.enclosing
  /-- The link of a torn frame leads to the detached global frame, as long as the walk began above a
  chain: a frame that stands on a global frame and has no other holder is freed with the link that
  it has. -/
  torn : ∀ turns, ∀ id ∈ (m.walk m' x site detached turns).2,
    (m.walk m' x site detached turns).1[id]?.map Node.enclosing =
      if (m.envs.handed x (m'.envs.get? x)).nodes.bottom? site = none then some (.root detached)
      else (m.envs.handed x (m'.envs.get? x)).nodes[id]?.map Node.enclosing
  /-- No frame is torn that a register reaches. -/
  spared : ∀ (turns : Nat) (y : String) (f : Env), m'.envs.get? y = some f →
    Spared (m.walk m' x site detached turns) f
  /-- A global frame that is not one of the program's is the root of no register. -/
  rooted : ¬ m'.world.Live detached →
    ∀ (y : String) (f : Env), m'.envs.get? y = some f → f.root ≠ detached

variable {m m' : Machine} {step : Step} {id x : String} {s : Session} {e : Env}

/-! ## What a release leaves alone -/

/-- A release creates a global frame at most, and binds no name. -/
theorem Moves.globals_of_releases (h : m.Moves step m') (hstep : step.releases = true)
    {r : Ref Globals} (hlive : m.world.Live r) : m'.world.globals r = m.world.globals r := by
  have hfresh : ∀ g : Globals, (m.world.newRoot g).2.globals r = m.world.globals r := fun g => by
    simp [World.globals_newRoot, hlive.ne_newRoot g]
  cases h with
  | still _ hworld _ _ _ => rw [hworld]
  | stored _ _ _ => rfl
  | assigned _ _ _ => rfl
  | opened => exact hfresh {}
  | @defined change _ _ _ hbinder _ =>
      -- A step that binds names has no register of an environment or a session as its target.
      cases change with
      | bind _ _ _ => cases hstep
      | define _ _ _ => cases hstep
      | defineMany _ _ _ => cases hstep
      | _ => cases hbinder
  | bound _ _ => cases hstep
  | found _ => rfl
  | detached _ => exact hfresh _
  | entered _ _ _ => rfl
  | nested _ => rfl
  | closed => rfl
  | released => rfl

/-- Another store in a session does not change which global frame a session has. -/
theorem session_withSession {t : Session} {other : String} (hs : m.sessions[id]? = some s)
    (ht : m.sessions[other]? = some t) (store : Store) :
    ∃ t', (m.withSession id { s with store }).sessions[other]? = some t' ∧ t'.root = t.root := by
  have hget : (m.withSession id { s with store }).sessions[other]? =
      if other = id then some { s with store } else m.sessions[other]? :=
    Lookup.getElem?_insert m.sessions id other _
  by_cases hother : other = id
  · subst hother
    cases hs.symm.trans ht
    exact ⟨{ s with store }, by simpa using hget, rfl⟩
  · exact ⟨t, by simpa [hother, ht] using hget, rfl⟩

/-- A session keeps its global frame until its register is emptied or filled again. -/
theorem Moves.session_root (h : m.Moves step m') (hid : step.sessionTarget? ≠ some id)
    (hs : m.sessions[id]? = some s) : ∃ t, m'.sessions[id]? = some t ∧ t.root = s.root := by
  cases h with
  | still _ _ hsessions _ _ => exact ⟨s, by rw [hsessions]; exact hs, rfl⟩
  | stored _ _ hold => exact session_withSession hold hs _
  | assigned hold _ _ => exact session_withSession hold hs _
  | @opened into _ =>
      have hne : id ≠ into := fun heq => hid (congrArg some heq.symm)
      exact ⟨s, (Lookup.getElem?_insert m.sessions into id _).trans ((if_neg hne).trans hs), rfl⟩
  | defined _ hold => exact session_withSession hold hs _
  | bound _ _ => exact ⟨s, hs, rfl⟩
  | found _ => exact ⟨s, hs, rfl⟩
  | detached _ => exact ⟨s, hs, rfl⟩
  | entered hold _ _ => exact session_withSession hold hs _
  | nested _ => exact ⟨s, hs, rfl⟩
  | @closed other =>
      have hne : id ≠ other := fun heq => hid (congrArg some heq.symm)
      exact ⟨s, (Lookup.getElem?_erase m.sessions other id).trans ((if_neg hne).trans hs), rfl⟩
  | released => exact ⟨s, hs, rfl⟩

/-- A release leaves every global frame that there is with its bindings. -/
theorem globals_next_of_releases (hstep : step.releases = true) {r : Ref Globals}
    (hlive : m.world.Live r) : (m.next step).world.globals r = m.world.globals r := by
  rcases m.reply_cases step with ⟨-, -, hsame⟩ | ⟨-, -, hmove⟩
  · rw [hsame]
  · exact hmove.globals_of_releases hstep hlive

/-- A register that no step fills or drops keeps its environment, and releases keep the bindings of
its global frame as well. -/
theorem Valid.globals_last (releases : List Step) :
    ∀ {m : Machine}, m.Valid → (∀ step ∈ releases, step.releases = true) →
      (∀ step ∈ releases, step.envTarget? ≠ some x) → m.envs.get? x = some e →
        (m.last releases).world.globals e.root = m.world.globals e.root := by
  induction releases with
  | nil =>
      intro m _ _ _ _
      rfl
  | cons step rest ih =>
      intro m hm hreleases hx he
      have hkept : (m.next step).envs.get? x = some e := by
        rw [← he]
        exact hm.get?_last [step] fun other hother =>
          hx other (List.mem_cons.2 (.inl (List.mem_singleton.1 hother)))
      have hrest := ih (hm.next step)
        (fun other hother => hreleases other (List.mem_cons_of_mem step hother))
        (fun other hother => hx other (List.mem_cons_of_mem step hother)) hkept
      exact hrest.trans (globals_next_of_releases (hreleases step List.mem_cons_self)
        (hm.envLive x e he))

/-- A session keeps its global frame along a script until its register is emptied or filled again.
-/
theorem session_last (releases : List Step) :
    ∀ {m : Machine} {s : Session}, (∀ step ∈ releases, step.sessionTarget? ≠ some id) →
      m.sessions[id]? = some s →
        ∃ t, (m.last releases).sessions[id]? = some t ∧ t.root = s.root := by
  induction releases with
  | nil =>
      intro m s _ hs
      exact ⟨s, hs, rfl⟩
  | cons step rest ih =>
      intro m s hid hs
      have hnext : ∃ t, (m.next step).sessions[id]? = some t ∧ t.root = s.root := by
        rcases m.reply_cases step with ⟨-, -, hsame⟩ | ⟨-, -, hmove⟩
        · exact ⟨s, by rw [hsame]; exact hs, rfl⟩
        · exact hmove.session_root (hid step List.mem_cons_self) hs
      rcases hnext with ⟨t, ht, hroot⟩
      rcases ih (fun other hother => hid other (List.mem_cons_of_mem step hother)) ht with
        ⟨u, hu, hroot'⟩
      exact ⟨u, hu, hroot'.trans hroot⟩

/-! ## What survives -/

/-- An environment survives if its frames and the bindings of its global frame do. -/
theorem survives_of_kept (he : m.envs.get? x = some e) (he' : m'.envs.get? x = some e)
    (hglobals : m'.world.globals e.root = m.world.globals e.root) : m.Survives m' x e where
  chain := he'
  globals := hglobals
  describe := by rw [reply_describe he', reply_describe he, hglobals]
  resolve := by
    intro name
    simp only [reply_search he', reply_search he, World.find, hglobals]

/-- What no release lets go of survives all of them. -/
theorem Valid.survives_last (hm : m.Valid) {releases : List Step}
    (hreleases : ∀ step ∈ releases, step.releases = true)
    (hx : ∀ step ∈ releases, step.envTarget? ≠ some x) (he : m.envs.get? x = some e) :
    m.Survives (m.last releases) x e :=
  survives_of_kept he ((hm.get?_last releases hx).trans he)
    (hm.globals_last releases hreleases hx he)

/-- A step that lets go of an environment takes its chain apart and spares all others. -/
theorem Moves.takesApart (h : m.Moves step m') (hm : m.Valid) (hx : step.envTarget? = some x)
    {site : Site} (hentry : m.envs.entries[x]? = some site) (detached : Ref Globals) :
    m.TakesApart m' x site detached := by
  have hm' : m'.Valid := h.valid hm
  rcases h.hands hm hx with ⟨new, hhands⟩
  have hnew : m'.envs.get? x = new := hhands.holds
  have hsound : Table.Sound (m.envs.handed x new) m'.world.frameCount (site :: []) := by
    simpa [hentry] using hhands.sound
  have hwalk : ∀ turns, m.walk m' x site detached turns =
      (m.envs.handed x new).nodes.letGo detached turns site := fun turns => by rw [walk, hnew]
  constructor
  case freed =>
    rw [hwalk, hnew, free_letGo detached hsound.ordered (Nat.le_refl _), hhands.envs,
      Table.give_eq_release hentry]
  case links =>
    intro turns id hid
    rw [hwalk] at hid ⊢
    rw [letGo_enclosing detached turns hsound.ordered id, if_neg (fun h => hid h.1), hnew]
  case torn =>
    intro turns id hid
    rw [hwalk] at hid ⊢
    simp only [letGo_enclosing detached turns hsound.ordered id, hid, true_and, hnew]
  case spared =>
    intro turns y f hf
    have hgiven : Table.Sound (m.envs.give x new) m'.world.frameCount [] :=
      hhands.envs ▸ hm'.sound
    rcases hgiven.chain_handed hentry (hhands.envs ▸ hf) with ⟨hheld, hchain⟩
    simpa [hwalk] using hsound.letGo_spares detached turns hheld hchain
  case rooted =>
    intro hdetached y f hf hroot
    exact hdetached (hroot ▸ hm'.envLive y f hf)

/-- After any releases, an environment in a register that they leave alone is the environment that
it was, and the sessions that they leave alone accept it as they did. Each release that lets go of
an environment takes its chain apart in a loop that tears no frame which a register still reaches,
and that leaves each frame it tears with a link to the detached global frame. -/
theorem releases_spare_survivors (pre releases : List Step)
    (hreleases : ∀ step ∈ releases, step.releases = true) :
    let before := ({} : Machine).last pre
    let after := before.last releases
    (∀ (x : String) (e : Env), before.envs.get? x = some e →
      (∀ step ∈ releases, step.envTarget? ≠ some x) →
        before.Survives after x e ∧
          ∀ (id : String) (s : Session), before.sessions[id]? = some s →
            (∀ step ∈ releases, step.sessionTarget? ≠ some id) →
              (after.Accepts id x ↔ before.Accepts id x)) ∧
      ∀ (done : List Step) (step : Step) (rest : List Step), releases = done ++ step :: rest →
        ∀ (x : String) (site : Site) (a : Answer) (detached : Ref Globals),
          step.envTarget? = some x → (before.last done).envs.entries[x]? = some site →
            (before.last done).reply step = .ok a →
              (before.last done).TakesApart (before.last (done ++ [step])) x site detached := by
  intro before after
  have hbefore : before.Valid := valid_empty.last pre
  refine ⟨?_, ?_⟩
  · intro x e he hx
    have hsurvives := hbefore.survives_last hreleases hx he
    refine ⟨hsurvives, ?_⟩
    intro id s hs hid
    rcases session_last releases hid hs with ⟨t, ht, hroot⟩
    rw [accepts_iff hs he, accepts_iff ht hsurvives.chain, hroot]
  · intro done step rest _ x site a detached hx hentry ha
    rw [last_append]
    rcases (before.last done).reply_cases step with ⟨_, hrefused, -⟩ | ⟨-, -, hmove⟩
    · cases hrefused.symm.trans ha
    · exact hmove.takesApart (hbefore.last done) hx hentry detached

/-- Two closures on one frame. The first is dropped, the register of the frame is used for something
else, and the register of the global frame is dropped: the second finds the name of the frame that
they share, and the first release has torn the frame of the first closure and no other, so that its
link leads to the detached global frame. -/
theorem releases_spare_shared_frame :
    let before := ({} : Machine).last [.session (.create "s" {}), .session (.globalEnv "s" "top"),
      .env (.nest ["a"] [7] "top" 1 "inner"), .env (.nest ["b"] [8] "inner" 1 "p"),
      .env (.nest ["c"] [9] "inner" 1 "q")]
    let dropped := before.next (.drop .env "p")
    let releases : List Step := [.drop .env "p", .env (.create "inner"), .drop .env "top"]
    let q : Env := ⟨[⟨2, [("c", ⟨9⟩)]⟩, ⟨0, [("a", ⟨7⟩)]⟩], ⟨0⟩⟩
    (before.last releases).reply (.env (.resolve "q" "a")) = .ok (.address ⟨7⟩) ∧
      (before.last releases).Accepts "s" "q" ∧
      (before.walk dropped "p" (.nested 1) ⟨5⟩ 2).2 = [1] ∧
      (before.walk dropped "p" (.nested 1) ⟨5⟩ 2).1[1]?.map Node.enclosing = some (.root ⟨5⟩) ∧
      Spared (before.walk dropped "p" (.nested 1) ⟨5⟩ 2) q := by
  intro before dropped releases q
  have hq : before.envs.get? "q" = some q := by rfl
  have hs : before.sessions["s"]? = some ⟨{}, ⟨0⟩⟩ := by rfl
  rcases releases_spare_survivors _ releases (by decide) with ⟨hkept, happart⟩
  rcases hkept "q" q hq (by decide) with ⟨hsurvives, haccepts⟩
  have hfirst := happart [] (.drop .env "p") _ rfl "p" (.nested 1) (.flag true) ⟨5⟩ rfl (by rfl)
    (by rfl)
  have htorn : (before.walk dropped "p" (.nested 1) ⟨5⟩ 2).2 = [1] := by rfl
  refine ⟨(hsurvives.resolve "a").trans (by rfl), ?_, htorn, ?_, hfirst.spared 2 "q" q (by rfl)⟩
  · exact (haccepts "s" _ hs (by decide)).2 ((accepts_iff hs hq).2 rfl)
  · exact (hfirst.torn 2 1 (htorn ▸ List.mem_singleton_self 1)).trans (by rfl)

end Machine

end ScopedStore.Script
