import ScopedStore.Proofs.Isolation.Mirror

/-!
# Addressed steps in lockstep

A step addressed to a session, run on two machines that agree on the session, gets the same reply
from both and leaves machines that agree again. The combinators that steps are made of are related
first, and then each step is the composition of its parts.
-/

namespace ScopedStore.Script.Machine

/-- The two ends of a step: equal replies, and machines that agree on the session. -/
structure Agree (session : String) (x x' : Except Refusal Answer × Machine) : Prop where
  reply : x'.1 = x.1
  mirrors : Mirrors session x.2 x'.2

variable {session x : String} {m m' : Machine} {s s' : Session}

/-! ## The parts of a step -/

namespace Mirrors

theorem refused (h : Mirrors session m m') (refusal : Refusal) :
    Agree session (.error refusal, m) (.error refusal, m') :=
  ⟨rfl, h⟩

theorem answer (h : Mirrors session m m') {a a' : Answer} (ha : a' = a) :
    Agree session (m.answer a).value (m'.answer a').value :=
  ⟨congrArg Except.ok ha, h⟩

/-- Both machines go on with what was found independently of them, or both refuse. -/
theorem found_same (h : Mirrors session m m') {α : Type} (found : Except Refusal α)
    {next next' : α → Effect}
    (hnext : ∀ a, found = .ok a → Agree session (next a).value (next' a).value) :
    Agree session (m.found found next).value (m'.found found next').value := by
  cases found with
  | ok a => exact hnext a rfl
  | error refusal => exact h.refused refusal

/-- Operations with equal results are followed by steps that agree. -/
theorem outcome_same (h : Mirrors session m m') {α : Type} {result result' : Except Fault α}
    (hresult : result' = result) {next next' : α → Effect}
    (hnext : ∀ a, result = .ok a → Agree session (next a).value (next' a).value) :
    Agree session (m.outcome result next).value (m'.outcome result' next').value := by
  subst hresult
  cases result' with
  | ok a => exact hnext a rfl
  | error fault => exact h.refused (.fault fault)

/-- Both machines go on with their sessions, or both find none. -/
theorem found_session (h : Mirrors session m m') {next next' : Session → Effect}
    (hnext : ∀ s s', Mirror session m m' s s' → Agree session (next s).value (next' s').value) :
    Agree session (m.found (register? m.sessions session) next).value
      (m'.found (register? m'.sessions session) next').value := by
  rcases h.sessions with ⟨hnone, hnone'⟩ | ⟨s, s', hmirror⟩
  · simp only [register?, hnone, hnone']
    exact h.refused (.missing session)
  · simp only [register?, hmirror.left, hmirror.right]
    exact hnext s s' hmirror

/-- Both machines go on with the same cells, unless the first has a store of its own there. -/
theorem found_store (h : Mirrors session m m') (hbare : m.stores[session]? = none)
    {next next' : Store → Effect}
    (hnext : ∀ s s', Mirror session m m' s s' →
      Agree session (next s.store).value (next' s.store).value) :
    Agree session (m.found (m.store? session) next).value
      (m'.found (m'.store? session) next').value := by
  rw [store?_of_none hbare, store?_of_none h.bare]
  rcases h.sessions with ⟨hnone, hnone'⟩ | ⟨s, s', hmirror⟩
  · simp only [register?, hnone, hnone']
    exact h.refused (.missing session)
  · have hagree := hnext s s' hmirror
    simp only [register?, hmirror.left, hmirror.right, Except.map, found_ok, hmirror.store]
    exact hagree

/-- Equal stores that are put back into both machines leave them in agreement. -/
theorem putStore (h : Mirrors session m m') (hbare : m.stores[session]? = none)
    (hmirror : Mirror session m m' s s') (store : Store) {a a' : Answer} (ha : a' = a) :
    Agree session ((m.putStore session store).answer a).value
      ((m'.putStore session store).answer a').value := by
  -- Neither machine has a store of its own under the name, so both change the session's.
  rw [putStore_eq_withSession hbare hmirror.left, putStore_eq_withSession h.bare hmirror.right]
  have hmirrors : Mirrors session (m.withSession session { s with store })
      (m'.withSession session { s' with store }) := ⟨h.bare, .inr ⟨_, _, hmirror.withStore store⟩⟩
  exact hmirrors.answer ha

/-- A step that is addressed to a session finds it in both machines. -/
theorem exists_mirror (h : Mirrors session m m') (hrooted : m.rootedIn session x = true) :
    ∃ s s', Mirror session m m' s s' := by
  rcases rootedIn_eq_true_iff.1 hrooted with ⟨s, -, hs, -, -⟩
  rcases h.sessions with ⟨hnone, -⟩ | hmirror
  · rw [hnone] at hs
    cases hs
  · exact hmirror

end Mirrors

namespace Mirror

/-- Both machines go on with an environment that the first has rooted in the session. -/
theorem found_env (h : Mirror session m m' s s') (hrooted : m.rootedIn session x = true)
    {next next' : Env → Effect}
    (hnext : ∀ e e', m.envs.get? x = some e → m'.envs.get? x = some e' →
      Alike s.root s'.root e e' → Agree session (next e).value (next' e').value) :
    Agree session (m.found (m.env? x) next).value (m'.found (m'.env? x) next').value := by
  rcases rootedIn_eq_true_iff.1 hrooted with ⟨t, e, ht, he, hroot⟩
  have hsame : t = s := Option.some.inj (ht.symm.trans h.left)
  subst hsame
  rcases h.envs x e he hroot with ⟨e', he', halike⟩
  simp only [env?, he, he']
  exact hnext e e' he he' halike

/-- Environments that bind the same can be stored on both sides. -/
theorem storeEnv (h : Mirror session m m' s s') (hbare : m'.stores[session]? = none)
    (hm : m.Valid) (hm' : m'.Valid) {e e' : Env} (hadmits : m.Admits e) (hadmits' : m'.Admits e')
    (halike : Alike s.root s'.root e e') (into : String) :
    Agree session (m.storeEnv into e).value (m'.storeEnv into e').value :=
  ⟨congrArg (fun n => Except.ok (Answer.depth n)) halike.depth_eq,
    hbare, .inr ⟨s, s', h.withEnv hm hm' hadmits hadmits' halike into⟩⟩

/-- Environments with the same further frames are stored on both sides. -/
theorem storeStacked (h : Mirror session m m' s s') (hbare : m'.stores[session]? = none)
    (hm : m.Valid) (hm' : m'.Valid) {e e' : Env} (hadmits : m.Admits e) (hadmits' : m'.Admits e')
    (halike : Alike s.root s'.root e e') (into : String) (bindings : List (String × Address))
    (n : Nat) {a a' : Answer}
    (ha : a = .depth (Env.stacked bindings m.world.frameCount n ++ e.frames).length)
    (ha' : a' = .depth (Env.stacked bindings m'.world.frameCount n ++ e'.frames).length) :
    Agree session (.ok a, m.withFrames into e bindings n)
      (.ok a', m'.withFrames into e' bindings n) := by
  refine ⟨?_, hbare, .inr ⟨s, s', h.withFrames hm hm' hadmits hadmits' halike into bindings n⟩⟩
  have hdepth := (halike.stacked bindings m.world.frameCount m'.world.frameCount n).depth_eq
  rw [ha, ha']
  exact congrArg (fun n => Except.ok (Answer.depth n)) hdepth

/-- Names are bound in the global frames of both sessions. -/
theorem bind (h : Mirror session m m' s s') (hbare : m'.stores[session]? = none)
    (hlive : m.world.Live s.root) (hlive' : m'.world.Live s'.root)
    (bindings : List (String × Address)) {a a' : Answer} (ha : a' = a) :
    Agree session (.ok a, m.withBindings s.root bindings)
      (.ok a', m'.withBindings s'.root bindings) :=
  ⟨congrArg Except.ok ha, hbare, .inr ⟨s, s', h.withBindings hlive hlive' bindings⟩⟩

end Mirror

/-! ## Steps -/

namespace Mirrors

/-- Calls on the session get equal replies on both sides. -/
theorem execSession (h : Mirrors session m m') (hm : m.Valid) (hm' : m'.Valid)
    (step : SessionStep) (haddressed : m.addressed session (.session step) = true) :
    Agree session (m.execSession step).value (m'.execSession step).value := by
  cases step with
  | create into capacities =>
      have hinto : into = session := of_decide_eq_true haddressed
      subst hinto
      exact ⟨rfl, h.bare, .inr ⟨_, _, .opened hm into⟩⟩
  | globalEnv id into =>
      have hid : id = session := of_decide_eq_true haddressed
      subst hid
      refine h.found_session fun s s' hmirror => ?_
      exact hmirror.storeEnv h.bare hm hm' (.ofRoot (hm.sessionLive id s hmirror.left))
        (.ofRoot (hm'.sessionLive id s' hmirror.right)) (.ofRoot s.root s'.root) into
  | bind id name raw =>
      have hid : id = session := of_decide_eq_true haddressed
      subst hid
      refine h.found_same _ fun a _ => h.found_session fun s s' hmirror => ?_
      have hlive := hm.sessionLive id s hmirror.left
      have hlive' := hm'.sessionLive id s' hmirror.right
      -- The reply is the number of bindings, which is the same on both sides after the binding.
      have hglobals := (hmirror.withBindings hlive hlive' [(name, a)]).globals
      exact hmirror.bind h.bare hlive hlive' [(name, a)]
        (congrArg (fun g => Answer.count g.size) hglobals)
  | define id name v =>
      have hid : id = session := of_decide_eq_true haddressed
      subst hid
      refine h.found_session fun s s' hmirror => ?_
      have hlive := hm.sessionLive id s hmirror.left
      have hlive' := hm'.sessionLive id s' hmirror.right
      -- With equal stores the new cell has the same address on both sides.
      rcases s' with ⟨store, root'⟩
      have hstore : store = s.store := hmirror.store
      subst hstore
      exact (hmirror.withStore ⟨s.store.cells.push v⟩).bind h.bare hlive hlive'
        [(name, ⟨s.store.size⟩)] rfl
  | defineMany id stem count =>
      have hid : id = session := of_decide_eq_true haddressed
      subst hid
      refine h.found_session fun s s' hmirror => ?_
      have hlive := hm.sessionLive id s hmirror.left
      have hlive' := hm'.sessionLive id s' hmirror.right
      rcases s' with ⟨store, root'⟩
      have hstore : store = s.store := hmirror.store
      subst hstore
      simp only [Traced.value_bind, Session.value_defineMany]
      exact (hmirror.withStore (s.counting count).store).bind h.bare hlive hlive'
        (Session.definitions stem s.store.size count) rfl
  | enter id x names values into =>
      rcases Bool.and_eq_true_iff.1 haddressed with ⟨hid, hrooted⟩
      have hid : id = session := of_decide_eq_true hid
      subst hid
      refine h.found_session fun s s' hmirror => hmirror.found_env hrooted
        fun e e' he he' halike => ?_
      -- Both sessions own their environment, so neither answers as foreign.
      have howns := halike.owns s s' rfl rfl
      by_cases hl : names.length = values.length
      · simp only [Traced.value_bind, Session.value_enter howns.1 hl,
          Session.value_enter howns.2 hl]
        have hadmits := hm.admits he
        have hadmits' := hm'.admits he'
        have hvalid := hm.withStore hmirror.left ⟨s.store.cells ++ values.toArray⟩
        have hvalid' := hm'.withStore hmirror.right ⟨s.store.cells ++ values.toArray⟩
        rcases s' with ⟨store, root'⟩
        have hstore : store = s.store := hmirror.store
        subst hstore
        exact (hmirror.withStore ⟨s.store.cells ++ values.toArray⟩).storeStacked h.bare hvalid
          hvalid' ⟨hadmits.fits, hadmits.below, hadmits.live⟩
          ⟨hadmits'.fits, hadmits'.below, hadmits'.live⟩ halike into
          (names.zip ((List.range' s.store.size values.length).map Address.mk)) 1 rfl rfl
      · simp only [Session.enter_of_length_ne howns.1 hl, Session.enter_of_length_ne howns.2 hl]
        change Agree id
          (.error (.fault (.arity names.length values.length)), m.withSession id s)
          (.error (.fault (.arity names.length values.length)), m'.withSession id s')
        -- A failed call puts the session back as it was, on both sides.
        rw [withSession_self hmirror.left, withSession_self hmirror.right]
        exact h.refused _
  | lookup id x name =>
      rcases Bool.and_eq_true_iff.1 haddressed with ⟨hid, hrooted⟩
      have hid : id = session := of_decide_eq_true hid
      subst hid
      refine h.found_session fun s s' hmirror => hmirror.found_env hrooted
        fun e e' he he' halike => ?_
      have howns := halike.owns s s' rfl rfl
      have hfind := halike.find_eq hmirror.globals name
      have hvalue : (s'.lookup m'.world e' name).value = (s.lookup m.world e name).value := by
        rw [Session.value_lookup howns.1, Session.value_lookup howns.2, hfind, hmirror.store]
      simp only [Traced.value_bind]
      exact h.outcome_same hvalue fun v _ => h.answer rfl
  | assign id x name v =>
      rcases Bool.and_eq_true_iff.1 haddressed with ⟨hid, hrooted⟩
      have hid : id = session := of_decide_eq_true hid
      subst hid
      refine h.found_session fun s s' hmirror => hmirror.found_env hrooted
        fun e e' he he' halike => ?_
      have howns := halike.owns s s' rfl rfl
      have hfind := halike.find_eq hmirror.globals name
      simp only [Traced.value_bind]
      cases hfound : m.world.find e name with
      | ok a =>
          rw [Session.value_assign_of_ok howns.1 hfound,
            Session.value_assign_of_ok howns.2 (hfind.trans hfound), hmirror.store]
          exact ⟨rfl, h.bare, .inr ⟨_, _, hmirror.withStore (s.store.write a v).value⟩⟩
      | error fault =>
          rw [Session.value_assign_of_error howns.1 hfound,
            Session.value_assign_of_error howns.2 (hfind.trans hfound)]
          change Agree id (.error (.fault fault), m.withSession id s)
            (.error (.fault fault), m'.withSession id s')
          rw [withSession_self hmirror.left, withSession_self hmirror.right]
          exact h.refused _

/-- Steps on the store of the session get equal replies on both sides. -/
theorem execStore (h : Mirrors session m m') (step : StoreStep)
    (haddressed : m.addressed session (.store step) = true) :
    Agree session (m.execStore step).value (m'.execStore step).value := by
  rcases Bool.and_eq_true_iff.1 haddressed with ⟨hsubject, hcontains⟩
  have hsubject : step.subject? = some session := of_decide_eq_true hsubject
  have hbare : m.stores[session]? = none :=
    Std.ExtTreeMap.getElem?_eq_none_of_contains_eq_false (Bool.not_eq_eq_eq_not.1 hcontains)
  cases step with
  | create into => cases hsubject
  | copy store into => cases hsubject
  | same a b => cases hsubject
  | alloc store v =>
      cases hsubject
      exact h.found_store hbare fun s s' hmirror => h.putStore hbare hmirror _ rfl
  | allocMany store v count =>
      cases hsubject
      exact h.found_store hbare fun s s' hmirror => h.putStore hbare hmirror _ rfl
  | read store raw =>
      cases hsubject
      refine h.found_same _ fun a _ => h.found_store hbare fun s s' _ => ?_
      exact h.outcome_same rfl fun v _ => h.answer rfl
  | write store raw v =>
      cases hsubject
      refine h.found_same _ fun a _ => h.found_store hbare fun s s' hmirror => ?_
      exact h.putStore hbare hmirror _ rfl
  | lastAddressOf store v =>
      cases hsubject
      exact h.found_store hbare fun s s' _ => h.answer rfl
  | size store =>
      cases hsubject
      exact h.found_store hbare fun s s' _ => h.answer rfl
  | cells store =>
      cases hsubject
      exact h.found_store hbare fun s s' _ => h.answer rfl

/-- Steps on environments of the session get equal replies on both sides. -/
theorem execEnv (h : Mirrors session m m') (hm : m.Valid) (hm' : m'.Valid) (step : EnvStep)
    (haddressed : m.addressed session (.env step) = true) :
    Agree session (m.execEnv step).value (m'.execEnv step).value := by
  cases step with
  | create into => cases haddressed
  | kind x => cases haddressed
  | sameFrame a b => cases haddressed
  | sameRoot a b => cases haddressed
  | describe x => cases haddressed
  | copy x into =>
      rcases h.exists_mirror haddressed with ⟨s, s', hmirror⟩
      refine hmirror.found_env haddressed fun e e' he he' halike => ?_
      exact hmirror.storeEnv h.bare hm hm' (hm.admits he) (hm'.admits he') halike into
  | nest names raws x count into =>
      rcases h.exists_mirror haddressed with ⟨s, s', hmirror⟩
      refine h.found_same _ fun addresses _ => hmirror.found_env haddressed
        fun e e' he he' halike => ?_
      have hstored := hmirror.storeStacked h.bare hm hm' (hm.admits he) (hm'.admits he') halike into
        (names.zip addresses) count rfl rfl
      -- No frame means no comparison of lengths, and otherwise both sides make the same comparison.
      cases count with
      | zero => exact hstored
      | succ n =>
          by_cases hl : names.length = addresses.length
          · simp only [World.nestMany_eq names addresses hl]
            exact hstored
          · simp only [World.nestMany_of_length_ne hl]
            exact h.refused _
  | resolve x name =>
      rcases h.exists_mirror haddressed with ⟨s, s', hmirror⟩
      refine hmirror.found_env haddressed fun e e' _ _ halike => ?_
      have hfind := halike.find_eq hmirror.globals name
      exact h.outcome_same hfind fun a _ => h.answer rfl
  | findGlobal x name =>
      rcases h.exists_mirror haddressed with ⟨s, s', hmirror⟩
      refine hmirror.found_env haddressed fun e e' _ _ halike => ?_
      have hfind : (m'.world.globals e'.root).find name = (m.world.globals e.root).find name := by
        rw [halike.root, halike.root', hmirror.globals]
      exact h.outcome_same hfind fun a _ => h.answer rfl
  | bindGlobal x name raw =>
      rcases h.exists_mirror haddressed with ⟨s, s', hmirror⟩
      refine h.found_same _ fun a _ => hmirror.found_env haddressed fun e e' _ _ halike => ?_
      have hlive := hm.sessionLive session s hmirror.left
      have hlive' := hm'.sessionLive session s' hmirror.right
      have hglobals := (hmirror.withBindings hlive hlive' [(name, a)]).globals
      rw [halike.root, halike.root']
      exact hmirror.bind h.bare hlive hlive' [(name, a)]
        (congrArg (fun g => Answer.count g.size) hglobals)
  | global x into =>
      rcases h.exists_mirror haddressed with ⟨s, s', hmirror⟩
      refine hmirror.found_env haddressed fun e e' he he' halike => ?_
      have hglobal : Alike s.root s'.root e.global e'.global := ⟨halike.root, halike.root', rfl⟩
      exact hmirror.storeEnv h.bare hm hm' (.ofRoot (hm.envLive x e he))
        (.ofRoot (hm'.envLive x e' he')) hglobal into
  | enclosing x into =>
      rcases h.exists_mirror haddressed with ⟨s, s', hmirror⟩
      refine hmirror.found_env haddressed fun e e' he he' halike => ?_
      rcases halike.enclosing? with ⟨hnone, hnone'⟩ | ⟨f, f', hf, hf', htail⟩
      · rw [hnone, hnone']
        exact h.refused .notNested
      · rw [hf, hf']
        exact hmirror.storeEnv h.bare hm hm' ((hm.admits he).enclosing hf)
          ((hm'.admits he').enclosing hf') htail into

/-- Dropping a register empties it on both sides, and tells on both whether it was in use. -/
theorem drop (h : Mirrors session m m') (hm : m.Valid) (hm' : m'.Valid) {kind : Kind} {id : String}
    (haddressed : m.addressed session (.drop kind id) = true) :
    Agree session (m.drop id kind).value (m'.drop id kind).value := by
  cases kind with
  | session =>
      have hid : id = session := of_decide_eq_true haddressed
      subst hid
      -- Afterwards neither machine has the session, whichever way the relation held before.
      refine ⟨?_, h.bare, .inl ⟨Std.ExtTreeMap.getElem?_erase_self,
        Std.ExtTreeMap.getElem?_erase_self⟩⟩
      have hcontains : m'.sessions.contains id = m.sessions.contains id := by
        rw [Std.ExtTreeMap.contains_eq_isSome_getElem?, Std.ExtTreeMap.contains_eq_isSome_getElem?]
        rcases h.sessions with ⟨hnone, hnone'⟩ | ⟨s, s', hmirror⟩
        · rw [hnone, hnone']
        · rw [hmirror.left, hmirror.right]
          rfl
      exact congrArg (fun b => Except.ok (Answer.flag b)) hcontains
  | env =>
      rcases h.exists_mirror haddressed with ⟨s, s', hmirror⟩
      rcases rootedIn_eq_true_iff.1 haddressed with ⟨t, e, ht, he, hroot⟩
      have hsame : t = s := Option.some.inj (ht.symm.trans hmirror.left)
      subst hsame
      rcases hmirror.envs id e he hroot with ⟨e', he', -⟩
      refine ⟨?_, h.bare, .inr ⟨t, s', hmirror.released hm hm' id⟩⟩
      -- The register held an environment on the one side, so it held its counterpart on the other.
      have hcontains : m'.envs.contains id = m.envs.contains id :=
        (Env.Table.contains_of_get? he').trans (Env.Table.contains_of_get? he).symm
      exact congrArg (fun b => Except.ok (Answer.flag b)) hcontains
  | store => cases haddressed
  | globals => cases haddressed
  | cell => cases haddressed

/-- A step addressed to the session has equal replies, and the machines agree again after it. -/
theorem exec (h : Mirrors session m m') (hm : m.Valid) (hm' : m'.Valid) {step : Step}
    (haddressed : m.addressed session step = true) :
    m'.reply step = m.reply step ∧ Mirrors session (m.next step) (m'.next step) := by
  have hagree : Agree session (m.exec step).value (m'.exec step).value := by
    cases step with
    | session step => exact h.execSession hm hm' step haddressed
    | store step => exact h.execStore step haddressed
    | env step => exact h.execEnv hm hm' step haddressed
    | globals step => cases haddressed
    | cell step => cases haddressed
    | drop kind id => exact h.drop hm hm' haddressed
    | inspect kind id => cases haddressed
  exact ⟨hagree.reply, hagree.mirrors⟩

end Mirrors

end ScopedStore.Script.Machine
