import ScopedStore.Proofs.History.Kept
import ScopedStore.Proofs.History.Law
import ScopedStore.Proofs.Script.Calls

/-!
# Resolution by history

What a name means in an environment, at any time after the environment was made: what the innermost
nested frame that binds it lists first for it, and failing that the address bound to it last in the
whole history of the global frame. Both are read off lists of bindings, those of the nested frames
from the first one on and the history from the last one back. The nested frames decide once and for
all, and the history only grows, so a name that has a meaning never loses it.
-/

namespace ScopedStore.Script.Machine

def resolved (name : String) : Option Address → Except Refusal Answer
  | some a => .ok (.address a)
  | none => .error (.fault (.unbound name))

/-- The address bound to a name last, in bindings listed from the oldest on. -/
def lastBound (name : String) (history : List (String × Address)) : Option Address :=
  history.reverse.lookup name

variable {m : Machine} {x : String} {e : Env}

/-- What is bound later decides. -/
theorem lastBound_append (name : String) (old new : List (String × Address)) :
    lastBound name (old ++ new) = (lastBound name new).or (lastBound name old) := by
  unfold lastBound
  rw [List.reverse_append, List.lookup_append]

/-- A name is resolved by the lists of bindings of the nested frames, and then by the history of the
global frame. -/
theorem reply_resolve (hm : m.Valid) (he : m.envs.get? x = some e) (name : String) :
    m.reply (.env (.resolve x name)) =
      resolved name (((e.frames.flatMap Frame.bindings).lookup name).or
        (lastBound name (m.world.globals e.root).history.toList)) := by
  simp only [reply_search he, World.find_eq_found (hm.indexed e.root) name, e.find?_eq_lookup name]
  unfold lastBound Globals.bindings
  cases ((e.frames.flatMap Frame.bindings).lookup name).or
    ((m.world.globals e.root).history.toList.reverse.lookup name) <;> rfl

/-- What a script's global frames hold in the end is their history. -/
theorem history_eq_historyOf (steps : List Step) (r : Ref Globals) :
    ((({} : Machine).last steps).world.globals r).history.toList =
      ({} : Machine).historyOf r steps :=
  history_last steps valid_empty r

/-- After a script a name is resolved by the nested frames, and then by what the script has bound in
the global frame. -/
theorem reply_resolve_of_script (steps : List Step)
    (he : (({} : Machine).last steps).envs.get? x = some e) (name : String) :
    (({} : Machine).last steps).reply (.env (.resolve x name)) =
      resolved name (((e.frames.flatMap Frame.bindings).lookup name).or
        (lastBound name (({} : Machine).historyOf e.root steps))) := by
  rw [reply_resolve (valid_empty.last steps) he, history_eq_historyOf]

/-- A name that had a meaning has one after any further bindings. -/
theorem resolved_mono {name : String} {a : Answer} {inner : Option Address}
    {old : List (String × Address)} (new : List (String × Address))
    (h : resolved name (inner.or (lastBound name old)) = .ok a) :
    ∃ b, resolved name (inner.or (lastBound name (old ++ new))) = .ok b := by
  rw [lastBound_append]
  cases inner with
  | some b => exact ⟨.address b, rfl⟩
  | none =>
      cases hnew : lastBound name new with
      | some b => exact ⟨.address b, rfl⟩
      | none => exact ⟨a, h⟩

/-- The environment that a register holds at some time is found again unchanged, in that register
if no step touches it, and in every register that holds the same frame. There a name is resolved by
what its nested frames listed first for it when they were built, from the innermost frame on, and
otherwise by the last binding of the name in the whole history of the global frame. So a resolution
that succeeded goes on to succeed, and a name that a nested frame binds keeps the address that the
innermost such frame lists first for it. -/
theorem resolve_eq_history (pre post : List Step) {x : String} {e : Env}
    (he : (({} : Machine).last pre).envs.get? x = some e) (name : String) :
    let before := ({} : Machine).last pre
    let after := ({} : Machine).last (pre ++ post)
    let history := ({} : Machine).historyOf e.root (pre ++ post)
    ((∀ step ∈ post, step.envTarget? ≠ some x) → after.envs.get? x = some e) ∧
      ∀ (y : String) (f : Env), after.envs.get? y = some f → f.sameFrame e = true →
        f = e ∧
          after.reply (.env (.resolve y name)) =
            resolved name (((e.frames.flatMap Frame.bindings).lookup name).or
              (lastBound name history)) ∧
          (∀ a, before.reply (.env (.resolve x name)) = .ok a →
            ∃ b, after.reply (.env (.resolve y name)) = .ok b) ∧
          ∀ (inner outer : List Frame) (g : Frame) (a : Address), e.frames = inner ++ g :: outer →
            (∀ other ∈ inner, name ∉ other.names) → g.bindings.lookup name = some a →
              before.reply (.env (.resolve x name)) = .ok (.address a) ∧
                after.reply (.env (.resolve y name)) = .ok (.address a) := by
  intro before after history
  have hbefore : before.Valid := valid_empty.last pre
  have hsplit : after = before.last post := last_append {} pre post
  refine ⟨?_, ?_⟩
  · intro huntouched
    rw [hsplit, hbefore.get?_last post huntouched]
    exact he
  · intro y f hf hsame
    -- The environment could still be taken after the later steps, so its frame is what it was.
    have hadmits : after.Admits e := by
      rw [hsplit]
      exact (hbefore.admits he).last post hbefore
    have hfe : f = e := (valid_empty.last (pre ++ post)).eq_of_sameFrame hadmits hf hsame
    subst hfe
    have hold := reply_resolve_of_script pre he name
    have hnew := reply_resolve_of_script (pre ++ post) hf name
    refine ⟨rfl, hnew, ?_, ?_⟩
    · intro a ha
      -- The history has only grown, and a longer history answers wherever the shorter one did.
      have hgrown : history = ({} : Machine).historyOf f.root pre ++
          before.historyOf f.root post := historyOf_append f.root pre post {}
      rcases resolved_mono (before.historyOf f.root post) (hold.symm.trans ha) with ⟨b, hb⟩
      rw [← hgrown] at hb
      exact ⟨b, hnew.trans hb⟩
    · intro inner outer g a hframes hinner hg
      have hfirst : (f.frames.flatMap Frame.bindings).lookup name = some a := by
        rw [hframes]
        exact Frame.lookup_bindings_of_innermost hinner hg
      rw [hfirst] at hold hnew
      exact ⟨hold, hnew⟩

/-- Two nested frames over a global frame that binds another name again after they were built. Then
the registers in which the global frame and the outer nested frame were created are dropped. Of the
names in the nested frames, the first is listed in both and twice in the inner one, and the second
is listed in the outer one only. -/
theorem resolve_shadowed_and_rebound :
    let pre : List Step := [.env (.create "top"), .env (.bindGlobal "top" "a" 7),
      .env (.nest ["c", "b"] [3, 4] "top" 1 "outer"),
      .env (.nest ["b", "b"] [1, 2] "outer" 1 "inner")]
    let post : List Step := [.env (.bindGlobal "inner" "a" 9), .drop .env "top", .drop .env "outer"]
    let m := ({} : Machine).last (pre ++ post)
    m.reply (.env (.resolve "inner" "b")) = .ok (.address ⟨1⟩) ∧
      m.reply (.env (.resolve "inner" "c")) = .ok (.address ⟨3⟩) ∧
      m.reply (.env (.resolve "inner" "a")) = .ok (.address ⟨9⟩) ∧
      m.reply (.env (.resolve "inner" "d")) = .error (.fault (.unbound "d")) := by
  intro pre post m
  let outer : Frame := ⟨0, [("c", ⟨3⟩), ("b", ⟨4⟩)]⟩
  let inner : Frame := ⟨1, [("b", ⟨1⟩), ("b", ⟨2⟩)]⟩
  let e : Env := ⟨[inner, outer], ⟨0⟩⟩
  have he : (({} : Machine).last pre).envs.get? "inner" = some e := by decide
  have hkept := (resolve_eq_history pre post he "a").1 (by decide)
  have hlaw := fun name => (resolve_eq_history pre post he name).2 "inner" e hkept rfl
  refine ⟨?_, ?_, ?_, ?_⟩
  · exact ((hlaw "b").2.2.2 [] [outer] inner ⟨1⟩ rfl (by decide) rfl).2
  · exact ((hlaw "c").2.2.2 [inner] [] outer ⟨3⟩ rfl (by decide) rfl).2
  · have hlast : ((e.frames.flatMap Frame.bindings).lookup "a").or
        (lastBound "a" (({} : Machine).historyOf e.root (pre ++ post))) = some ⟨9⟩ := by decide
    exact (hlaw "a").2.1.trans (congrArg (resolved "a") hlast)
  · have hnone : ((e.frames.flatMap Frame.bindings).lookup "d").or
        (lastBound "d" (({} : Machine).historyOf e.root (pre ++ post))) = none := by decide
    exact (hlaw "d").2.1.trans (congrArg (resolved "d") hnone)

end ScopedStore.Script.Machine
