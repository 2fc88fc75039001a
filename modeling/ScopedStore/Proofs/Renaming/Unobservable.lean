import ScopedStore.Proofs.Renaming.Renamed

/-!
# Allocation order and unused cells cannot be observed

Two names defined in either order get each other's addresses, and a cell allocated in between moves
all later addresses up by one. Both are renamings that keep the addresses bound before, if these are
addresses of cells. So what an evaluator is answered afterwards is the same.
-/

namespace ScopedStore.Script.Machine

variable {ρ : Address → Address} {session : String} {m m' : Machine} {s : Session}

/-! ## Renamings that keep what is bound -/

namespace Grounded

/-- A renaming that keeps the addresses of the cells that there are changes no environment. -/
theorem map_relocate (h : m.Grounded session) (hs : m.sessions[session]? = some s)
    (hkept : ∀ a : Address, a.index < s.store.size → ρ a = a) (x : String) :
    (m.envs.get? x).map (Env.relocate ρ s.root) = m.envs.get? x := by
  cases he : m.envs.get? x with
  | none => rfl
  | some e =>
      apply congrArg some
      apply Env.relocate_eq_self
      intro hroot f hf b hb
      exact hkept b.2 (h.envs x e he s hs hroot f hf b hb)

/-- A renaming that keeps the addresses of the cells that there are changes no global binding. -/
theorem map_find (h : m.Grounded session) (hm : m.Valid) (hs : m.sessions[session]? = some s)
    (hkept : ∀ a : Address, a.index < s.store.size → ρ a = a) (name : String) :
    ((m.world.globals s.root).find name).map ρ = (m.world.globals s.root).find name := by
  rw [(hm.indexed s.root).find_eq name]
  cases hfound : (m.world.globals s.root).bindings.lookup name with
  | none => rfl
  | some a => exact congrArg Except.ok (hkept a ((h.covers_bindings hs).lt_of_lookup hfound))

/-- A machine that differs in the store of the session alone. -/
theorem renamed (h : m.Grounded session) (hm : m.Valid) (hs : m.sessions[session]? = some s)
    {t : Store} (hs' : m'.sessions[session]? = some { s with store := t })
    (hworld : m'.world = m.world) (henvs : m'.envs = m.envs) (hstore : s.store.Relocated ρ t)
    (hkept : ∀ a : Address, a.index < s.store.size → ρ a = a) :
    Renamed ρ session m m' s { s with store := t } where
  left := hs
  right := hs'
  root := rfl
  count := by rw [hworld]
  store := hstore
  globals := fun name => by simp only [hworld, h.map_find hm hs hkept]
  envs := fun x => by simp only [henvs, h.map_relocate hs hkept]

/-- A machine corresponds to itself. -/
theorem renamed_refl (h : m.Grounded session) (hm : m.Valid)
    (hs : m.sessions[session]? = some s) : Renamed id session m m s s :=
  h.renamed hm hs hs rfl rfl s.store.relocated_refl fun _ _ => rfl

/-! ## One cell more -/

/-- An allocation changes the store of the session, or else a store that stands alone. -/
theorem renamed_alloc (h : m.Grounded session) (hm : m.Valid)
    (hs : m.sessions[session]? = some s) (v : Value) :
    ∃ ρ s', Function.Injective ρ ∧
      Renamed ρ session m (m.next (.store (.alloc session v))) s s' := by
  rcases m.reply_cases (.store (.alloc session v)) with ⟨-, -, hsame⟩ | ⟨-, -, hmove⟩
  · refine ⟨id, s, Function.injective_id, ?_⟩
    simpa only [hsame] using h.renamed_refl hm hs
  · generalize m.next (.store (.alloc session v)) = m' at hmove
    cases hmove with
    | still _ hworld hsessions henvs _ =>
        refine ⟨id, s, Function.injective_id, ?_⟩
        exact h.renamed hm hs (by rw [hsessions, hs]) hworld henvs s.store.relocated_refl
          fun _ _ => rfl
    | @stored _ id t store htarget _ ht hstore =>
        cases htarget
        cases ht.symm.trans hs
        cases hstore
        refine ⟨Address.skip s.store.size, { s with store := ⟨s.store.cells.push v⟩ },
          Address.skip_injective s.store.size, ?_⟩
        refine h.renamed hm hs ?_ rfl rfl (s.store.relocated_skip v) fun a ha =>
          Address.skip_of_lt ha
        simp [withSession]
    | found hfinds => cases hfinds
    | detached hdetaches => cases hdetaches

end Grounded

/-! ## Two cells in either order -/

/-- What two definitions in a row leave. The second name hides the first if they are the same. -/
theorem Valid.defines_both (hm : m.Valid) (hs : m.sessions[session]? = some s) (n₁ n₂ : String)
    (v₁ v₂ : Value) :
    let m₂ := m.last [.session (.define session n₁ v₁), .session (.define session n₂ v₂)]
    m₂.sessions[session]? = some { s with store := ⟨(s.store.cells.push v₁).push v₂⟩ } ∧
      m₂.world.frameCount = m.world.frameCount ∧ m₂.envs = m.envs ∧
      ∀ other : String, (m₂.world.globals s.root).find other =
        if other = n₂ then .ok ⟨s.store.size + 1⟩
        else if other = n₁ then .ok ⟨s.store.size⟩ else (m.world.globals s.root).find other := by
  intro m₂
  have hfirst := hm.defines hs n₁ v₁
  have hsecond := (hm.next (.session (.define session n₁ v₁))).defines hfirst.session n₂ v₂
  refine ⟨hsecond.session, hsecond.count.trans hfirst.count, hsecond.envs.trans hfirst.envs, ?_⟩
  intro other
  have hsize : (Store.mk (s.store.cells.push v₁)).size = s.store.size + 1 := Array.size_push v₁
  simpa only [m₂, last_cons, last_nil, hfirst.find, hsize] using hsecond.find other

/-- Two definitions in one order and in the other leave machines that correspond, with the two new
addresses exchanged. -/
theorem Grounded.renamed_swap (h : m.Grounded session) (hm : m.Valid)
    (hs : m.sessions[session]? = some s) {n₁ n₂ : String} (hne : n₁ ≠ n₂) (v₁ v₂ : Value) :
    ∃ ρ t t', Function.Injective ρ ∧ Renamed ρ session
      (m.last [.session (.define session n₁ v₁), .session (.define session n₂ v₂)])
      (m.last [.session (.define session n₂ v₂), .session (.define session n₁ v₁)]) t t' := by
  rcases hm.defines_both hs n₁ n₂ v₁ v₂ with ⟨hleft, hcount, henvs, hfind⟩
  rcases hm.defines_both hs n₂ n₁ v₂ v₁ with ⟨hright, hcount', henvs', hfind'⟩
  have hkept : ∀ a : Address, a.index < s.store.size →
      Equiv.swap ⟨s.store.size⟩ ⟨s.store.size + 1⟩ a = a := by
    intro a ha
    apply Equiv.swap_apply_of_ne_of_ne
    · rintro rfl
      exact Nat.lt_irrefl _ ha
    · rintro rfl
      exact Nat.lt_asymm ha (Nat.lt_succ_self _)
  refine ⟨Equiv.swap ⟨s.store.size⟩ ⟨s.store.size + 1⟩, _, _, Equiv.injective _,
    hleft, hright, rfl, hcount'.trans hcount.symm, s.store.relocated_swap v₁ v₂, ?_, ?_⟩
  · intro name
    -- Each of the two names finds the cell that the renaming gives for the other order.
    simp only [hfind, hfind']
    by_cases h₁ : name = n₁
    · simp [h₁, hne, Except.map]
    · by_cases h₂ : name = n₂
      · simp [h₂, Ne.symm hne, Except.map]
      · simpa only [if_neg h₁, if_neg h₂] using (h.map_find hm hs hkept name).symm
  · intro x
    simpa only [henvs, henvs'] using (h.map_relocate hs hkept x).symm

/-! ## What an evaluator is answered -/

/-- From any state in which all bindings of a session have cells: two names defined in either order,
and a cell allocated anywhere in between, make no difference to the answers to later calls. -/
theorem allocation_order_unobservable {pre : List Step} {session : String} {s : Session}
    (hs : (({} : Machine).last pre).sessions[session]? = some s)
    (hg : (({} : Machine).last pre).Grounded session) {n₁ n₂ : String} (hne : n₁ ≠ n₂)
    (v₁ v₂ : Value) {calls : List SessionStep}
    (hcalls : ∀ step ∈ calls, step.evaluates session = true) :
    let m := ({} : Machine).last pre
    let first : SessionStep := .define session n₁ v₁
    let second : SessionStep := .define session n₂ v₂
    (m.last [.session second, .session first]).replies calls =
        (m.last [.session first, .session second]).replies calls ∧
      ∀ (before after : List SessionStep) (unused : Value),
        first :: second :: calls = before ++ after →
          ((m.last (before.map .session)).next (.store (.alloc session unused))).replies after =
            (m.last (before.map .session)).replies after := by
  intro m first second
  have hm : m.Valid := valid_empty.last pre
  refine ⟨?_, ?_⟩
  · rcases hg.renamed_swap hm hs hne v₁ v₂ with ⟨ρ, t, t', hinj, hrenamed⟩
    have hdefines : ∀ step ∈ [first, second], step.evaluates session = true := by
      simp [first, second, SessionStep.evaluates]
    exact (hrenamed.run hinj hcalls (hm.last _) (hm.last _)
      (hg.last _ hm (lawful_of_evaluates hdefines m))).1
  · intro before after unused hsplit
    have hall : ∀ step ∈ before ++ after, step.evaluates session = true := by
      rw [← hsplit]
      simpa [first, second, SessionStep.evaluates] using hcalls
    have hbefore : ∀ step ∈ before, step.evaluates session = true :=
      fun step hstep => hall step (List.mem_append_left after hstep)
    have hafter : ∀ step ∈ after, step.evaluates session = true :=
      fun step hstep => hall step (List.mem_append_right before hstep)
    -- The session is still there when the cell is allocated.
    rcases ((hg.renamed_refl hm hs).run Function.injective_id hbefore hm hm hg).2 with ⟨t, t', hthere⟩
    have hm₁ := hm.last (before.map .session)
    have hg₁ := hg.last _ hm (lawful_of_evaluates hbefore m)
    rcases hg₁.renamed_alloc hm₁ hthere.left unused with ⟨ρ, u, hinj, hrenamed⟩
    exact (hrenamed.run hinj hafter hm₁ (hm₁.next _) hg₁).1

/-- With a name bound to a cell of another one: definitions in the opposite order, and a cell
allocated between them, and the calls are answered alike. -/
theorem allocation_order_of_aliased_cell :
    let pre : List Step := [.session (.create "a" {}), .session (.globalEnv "a" "g"),
      .session (.define "a" "n" (.int 1)), .session (.bind "a" "alias" 0)]
    let m := ({} : Machine).last pre
    let first : SessionStep := .define "a" "p" (.int 2)
    let second : SessionStep := .define "a" "q" (.int 3)
    let calls : List SessionStep := [.enter "a" "g" ["p"] [.int 4] "f",
      .assign "a" "f" "alias" (.int 5), .lookup "a" "f" "n", .lookup "a" "g" "p"]
    let answers : List (Except Refusal Answer) :=
      [.ok (.depth 1), .ok .done, .ok (.value (.int 5)), .ok (.value (.int 2))]
    (m.last [.session second, .session first]).replies calls = answers ∧
      (((m.next (.session first)).next (.store (.alloc "a" .void))).replies (second :: calls)) =
        answers := by
  intro pre m first second calls answers
  have hg : m.Grounded "a" := (Grounded.empty "a").last pre valid_empty (by decide)
  have hcalls : ∀ step ∈ calls, step.evaluates "a" = true := by decide
  have hs : m.sessions["a"]? = some { store := ⟨#[.int 1]⟩, root := ⟨0⟩ } := by rfl
  have horder : (m.last [.session first, .session second]).replies calls = answers := by
    simp only [answers, calls, second, first, m, pre]
    rfl
  have hne : "p" ≠ "q" := by decide
  rcases allocation_order_unobservable hs hg hne (.int 2) (.int 3) hcalls with ⟨hswap, hunused⟩
  refine ⟨hswap.trans horder, ?_⟩
  exact (hunused [first] (second :: calls) .void rfl).trans horder

end ScopedStore.Script.Machine
