import ScopedStore.Proofs.History.Resolution
import ScopedStore.Proofs.Walks.Links

/-!
# Agreement of the walks

The environment in a register can be walked in several ways: by the loops along the links of its
stored frames, by steps that take it from a frame to the one under it, and by reading its list of
frames. All of them come to the same frames in the same order, and to the same global frame at the
end. A name is resolved to what is listed first for it among the bindings met on the way, and a
frame that is built on an environment is met before all of that.
-/

namespace ScopedStore

namespace Env

def outer (e : Env) (count : Nat) : Env :=
  ⟨e.frames.drop count, e.root⟩

@[simp] theorem outer_depth (e : Env) : e.outer e.depth = e.global := by
  simp [outer, depth, global, ofRoot]

@[simp] theorem depth_outer (e : Env) (count : Nat) : (e.outer count).depth = e.depth - count :=
  List.length_drop

theorem outer_of_getElem? {e : Env} {count : Nat} {f : Frame} (h : e.frames[count]? = some f) :
    e.outer count = { e with frames := f :: e.frames.drop (count + 1) } := by
  rcases List.getElem?_eq_some_iff.1 h with ⟨hlt, rfl⟩
  simp only [outer, List.drop_eq_getElem_cons hlt]

/-- A step outwards leaves out one more frame. -/
theorem enclosing?_outer {e : Env} {count : Nat} (h : count < e.depth) :
    (e.outer count).enclosing? = some (e.outer (count + 1)) :=
  congrArg enclosing? (outer_of_getElem? (List.getElem?_eq_getElem h))

end Env

namespace Script.Machine

/-- The steps that copy an environment to another register and take it outwards from there, over so
many frames. -/
def outwards (x y : String) (count : Nat) : List Step :=
  .env (.copy x y) :: List.replicate count (.env (.enclosing y y))

variable {m : Machine} {x y : String} {e : Env} {names : List String} {raws : List Int64}
variable {addresses : List Address}

theorem outwards_succ (x y : String) (count : Nat) :
    outwards x y (count + 1) = outwards x y count ++ [.env (.enclosing y y)] := by
  simp [outwards, List.replicate_succ']

/-! ## Single steps -/

theorem reply_kind (he : m.envs.get? x = some e) :
    m.reply (.env (.kind x)) = .ok (.kind e.isGlobal e.depth) := by
  simp only [reply, exec, execEnv, env?, he, found_ok]
  rfl

theorem next_copy (he : m.envs.get? x = some e) (into : String) :
    m.next (.env (.copy x into)) = m.withEnv into e := by
  simp only [next, exec, execEnv, env?, he, found_ok]
  rfl

theorem next_global (he : m.envs.get? x = some e) (into : String) :
    m.next (.env (.global x into)) = m.withEnv into e.global := by
  simp only [next, exec, execEnv, env?, he, found_ok]
  rfl

/-- A nested environment gives the one under its innermost frame. -/
theorem enclosing_step {f : Env} (he : m.envs.get? x = some e) (hf : e.enclosing? = some f)
    (into : String) :
    m.reply (.env (.enclosing x into)) = .ok (.depth f.depth) ∧
      m.next (.env (.enclosing x into)) = m.withEnv into f := by
  simp only [reply, next, exec, execEnv, env?, he, found_ok, hf]
  exact ⟨rfl, rfl⟩

/-- There is no step outwards from a global frame. -/
theorem reply_enclosing_of_global (he : m.envs.get? x = some e) (hnone : e.enclosing? = none)
    (into : String) : m.reply (.env (.enclosing x into)) = .error .notNested := by
  simp only [reply, exec, execEnv, env?, he, found_ok, hnone]
  rfl

theorem reply_sameFrame {f : Env} (he : m.envs.get? x = some e) (hf : m.envs.get? y = some f) :
    m.reply (.env (.sameFrame x y)) = .ok (.flag (e.sameFrame f)) := by
  simp only [reply, exec, execEnv, env?, he, hf, found_ok]
  rfl

theorem nest_step (he : m.envs.get? x = some e) (hraws : addresses? raws = .ok addresses)
    (hl : names.length = addresses.length) (into : String) :
    m.reply (.env (.nest names raws x 1 into)) = .ok (.depth (e.depth + 1)) ∧
      m.next (.env (.nest names raws x 1 into)) = m.withFrames into e (names.zip addresses) 1 := by
  simp only [reply, next, exec, execEnv, env?, hraws, he, found_ok,
    World.nestMany_eq names addresses hl]
  exact ⟨rfl, rfl⟩

theorem reply_nest_of_length_ne (he : m.envs.get? x = some e)
    (hraws : addresses? raws = .ok addresses) (hl : names.length ≠ addresses.length)
    (into : String) : m.reply (.env (.nest names raws x 1 into)) =
      .error (.fault (.arity names.length addresses.length)) := by
  simp only [reply, exec, execEnv, env?, hraws, he, found_ok, World.nestMany_of_length_ne hl]
  rfl

/-! ## Going outwards -/

/-- The steps outwards leave the frames as they are, and the register with the environment without
its innermost frames. -/
theorem Valid.last_outwards (hm : m.Valid) (he : m.envs.get? x = some e) (y : String) :
    ∀ count ≤ e.depth, (m.last (outwards x y count)).envs.get? y = some (e.outer count) ∧
      (m.last (outwards x y count)).world = m.world := by
  intro count
  induction count with
  | zero =>
      intro _
      have hcopy : m.last (outwards x y 0) = m.withEnv y e := next_copy he y
      simp only [hcopy]
      exact ⟨(hm.get?_withEnv (hm.admits he) y y).trans (if_pos rfl), rfl⟩
  | succ count ih =>
      intro hcount
      rcases ih (Nat.le_of_succ_le hcount) with ⟨hy, hworld⟩
      have hvalid : (m.last (outwards x y count)).Valid := hm.last _
      have hnext := enclosing_step hy (Env.enclosing?_outer hcount) y
      have hadmits := (hvalid.admits hy).enclosing (Env.enclosing?_outer hcount)
      simp only [outwards_succ, last_append, last_cons, last_nil, hnext.2]
      exact ⟨(hvalid.get?_withEnv hadmits y y).trans (if_pos rfl), hworld⟩

/-! ## The law -/

/-- What the walks along the chain of the environment in a register come to, and what is built on
this environment. -/
structure WalksAgree (m : Machine) (x : String) (e : Env) : Prop where
  /-- The loops along the links of the stored frames come to what the list of frames says. -/
  entry : m.envs.entries[x]? = some e.site
  depth : m.envs.nodes.depthOf e.site = some e.depth
  root : m.envs.nodes.rootOf e.site = some e.root
  search : ∀ name : String,
    m.envs.nodes.search m.world.globals name e.site = some (m.world.find e name)
  collect : m.envs.nodes.collect m.world.globals e.site = some (e.met m.world.globals)
  find : ∀ name : String,
    m.world.find e name = Globals.found name ((e.met m.world.globals).lookup name)
  kind : m.reply (.env (.kind x)) = .ok (.kind e.isGlobal e.depth)
  /-- Taken outwards, the environment starts with each of its nested frames in turn. -/
  nested : ∀ (y : String) (count : Nat) (f : Frame), e.frames[count]? = some f →
    let m' := m.last (outwards x y count)
    let outer : Env := { e with frames := f :: e.frames.drop (count + 1) }
    m'.envs.get? y = some outer ∧
      m'.reply (.env (.describe y)) = .ok (.env outer (m.world.globals e.root)) ∧
      m'.reply (.env (.kind y)) = .ok (.kind false (e.depth - count)) ∧
      m'.reply (.env (.enclosing y y)) = .ok (.depth (e.depth - (count + 1)))
  /-- After as many steps as it is deep it is the global frame, and goes no further. -/
  last : ∀ y : String,
    let m' := m.last (outwards x y e.depth)
    m'.envs.get? y = some e.global ∧
      m'.reply (.env (.describe y)) = .ok (.env e.global (m.world.globals e.root)) ∧
      m'.reply (.env (.kind y)) = .ok (.kind true 0) ∧
      m'.reply (.env (.enclosing y y)) = .error .notNested
  same : ∀ y z : String, y ≠ x → z ≠ y →
    (m.last (outwards x y e.depth ++ [.env (.global x z)])).reply (.env (.sameFrame y z)) =
      .ok (.flag true)
  /-- A name is resolved to the address that is met first. -/
  resolve : ∀ name : String,
    m.reply (.env (.resolve x name)) = resolved name ((e.met m.world.globals).lookup name)
  unbound_iff : ∀ name : String,
    m.reply (.env (.resolve x name)) = .error (.fault (.unbound name)) ↔
      ∀ b ∈ e.met m.world.globals, b.1 ≠ name
  /-- A frame that is built on the environment has the names and the addresses that were given, and
  the environment is what it encloses. -/
  nest : ∀ (names : List String) (addresses : List Address), names.length = addresses.length →
    ∃ f : Frame, (m.world.nest names addresses e).1 = .ok { e with frames := f :: e.frames } ∧
      f.names = names ∧ f.addresses = addresses
  nest_arity : ∀ (names : List String) (addresses : List Address),
    names.length ≠ addresses.length →
      m.world.nest names addresses e = (.error (.arity names.length addresses.length), m.world)
  built : ∀ (names : List String) (raws : List Int64) (addresses : List Address) (into : String),
    addresses? raws = .ok addresses → names.length = addresses.length →
      m.reply (.env (.nest names raws x 1 into)) = .ok (.depth (e.depth + 1)) ∧
        ∃ f : Frame, (m.next (.env (.nest names raws x 1 into))).envs.get? into =
            some { e with frames := f :: e.frames } ∧
          f.names = names ∧ f.addresses = addresses
  built_arity : ∀ (names : List String) (raws : List Int64) (addresses : List Address)
    (into : String), addresses? raws = .ok addresses → names.length ≠ addresses.length →
      m.reply (.env (.nest names raws x 1 into)) =
        .error (.fault (.arity names.length addresses.length))

/-- In a valid machine all walks along an environment come to the same. -/
theorem Valid.walksAgree (hm : m.Valid) (he : m.envs.get? x = some e) : m.WalksAgree x e := by
  rcases (hm.sound.get?_eq_some_iff x e).1 he with ⟨site, hentry, hchain⟩
  have hsite : e.site = site := hchain.site_eq
  subst hsite
  have hordered := hm.sound.ordered
  have hindexed := hm.indexed e.root
  have hresolve : ∀ name : String,
      m.reply (.env (.resolve x name)) = resolved name ((e.met m.world.globals).lookup name) := by
    intro name
    simp only [reply_search he, Env.find_eq_met hindexed]
    cases (e.met m.world.globals).lookup name <;> rfl
  constructor
  case entry => exact hentry
  case depth => exact hchain.depthOf_eq hordered
  case root => exact hchain.rootOf_eq hordered
  case search => exact hchain.search_eq hordered m.world
  case collect => exact hchain.collect_eq hordered m.world.globals
  case find => exact Env.find_eq_met hindexed
  case kind => exact reply_kind he
  case nested =>
    intro y count f hf
    have hcount : count < e.depth := (List.getElem?_eq_some_iff.1 hf).1
    rcases hm.last_outwards he y count (Nat.le_of_lt hcount) with ⟨hy, hworld⟩
    have hstep := enclosing_step hy (Env.enclosing?_outer hcount) y
    refine ⟨hy.trans (congrArg some (Env.outer_of_getElem? hf)), ?_, ?_, ?_⟩
    · simpa only [hworld, Env.outer_of_getElem? hf] using reply_describe hy
    · have hnested : (e.outer count).isGlobal = false := by
        simp [Env.outer_of_getElem? hf, Env.isGlobal]
      simpa only [hnested, Env.depth_outer] using reply_kind hy
    · simpa only [Env.depth_outer] using hstep.1
  case last =>
    intro y
    rcases hm.last_outwards he y e.depth (Nat.le_refl _) with ⟨hend, hworld⟩
    have hy := hend.trans (congrArg some e.outer_depth)
    refine ⟨hy, ?_, reply_kind hy, reply_enclosing_of_global hy rfl y⟩
    simpa only [hworld, Env.global, Env.root_ofRoot] using reply_describe hy
  case same =>
    intro y z hy hz
    rcases hm.last_outwards he y e.depth (Nat.le_refl _) with ⟨hend, -⟩
    have hx : (m.last (outwards x y e.depth)).envs.get? x = some e := by
      refine (hm.get?_last _ ?_).trans he
      intro step hstep
      rcases List.mem_cons.1 hstep with rfl | hstep
      · exact fun h => hy (Option.some.inj h)
      · rcases List.eq_of_mem_replicate hstep with rfl
        exact fun h => hy (Option.some.inj h)
    have hvalid : (m.last (outwards x y e.depth)).Valid := hm.last _
    have hadmits : (m.last (outwards x y e.depth)).Admits e.global :=
      .ofRoot (hvalid.envLive x e hx)
    simp only [last_append, last_cons, last_nil, next_global hx]
    have hgety := (hvalid.get?_withEnv hadmits z y).trans
      ((if_neg hz.symm).trans (hend.trans (congrArg some e.outer_depth)))
    have hgetz := (hvalid.get?_withEnv hadmits z z).trans (if_pos rfl)
    simpa [Env.sameFrame] using reply_sameFrame hgety hgetz
  case resolve => exact hresolve
  case unbound_iff =>
    intro name
    refine Iff.trans ?_ Globals.found_lookup_eq_unbound_iff
    simp only [hresolve]
    cases (e.met m.world.globals).lookup name <;> simp [resolved]
  case nest =>
    intro names addresses hl
    have hframe := Frame.names_addresses_zip hl
    exact ⟨⟨m.world.frameCount, names.zip addresses⟩, by simp [World.nest, hl], hframe _⟩
  case nest_arity =>
    intro names addresses hl
    exact World.nest_of_length_ne hl m.world e
  case built =>
    intro names raws addresses into hraws hl
    have hstep := nest_step he hraws hl into
    refine ⟨hstep.1, ⟨m.world.frameCount, names.zip addresses⟩, ?_, Frame.names_addresses_zip hl _⟩
    simp only [hstep.2]
    exact (hm.get?_withFrames (hm.admits he) into _ 1 into).trans (if_pos rfl)
  case built_arity =>
    intro names raws addresses into hraws hl
    exact reply_nest_of_length_ne he hraws hl into

/-- All walks along the chain of an environment that a script leaves in a register agree, however
deep the environment is. -/
theorem walks_agree (steps : List Step) (he : (({} : Machine).last steps).envs.get? x = some e) :
    (({} : Machine).last steps).WalksAgree x e :=
  (valid_empty.last steps).walksAgree he

/-- Two nested frames over a global frame, one of which lists a name twice and one of which hides a
global binding. -/
theorem walks_agree_two_deep :
    let steps : List Step := [.env (.create "top"), .env (.bindGlobal "top" "a" 7),
      .env (.nest ["a"] [3] "top" 1 "mid"), .env (.nest ["b", "b"] [1, 2] "mid" 1 "inner"),
      .env (.bindGlobal "mid" "a" 9)]
    let m := ({} : Machine).last steps
    let e : Env := ⟨[⟨1, [("b", ⟨1⟩), ("b", ⟨2⟩)]⟩, ⟨0, [("a", ⟨3⟩)]⟩], ⟨0⟩⟩
    m.envs.get? "inner" = some e ∧ m.WalksAgree "inner" e ∧
      e.met m.world.globals = [("b", ⟨1⟩), ("b", ⟨2⟩), ("a", ⟨3⟩), ("a", ⟨9⟩), ("a", ⟨7⟩)] ∧
      m.reply (.env (.resolve "inner" "b")) = .ok (.address ⟨1⟩) ∧
      m.reply (.env (.resolve "inner" "a")) = .ok (.address ⟨3⟩) ∧
      (m.last (outwards "inner" "y" 2)).reply (.env (.kind "y")) = .ok (.kind true 0) := by
  intro steps m e
  have he : m.envs.get? "inner" = some e := by rfl
  have hagree : m.WalksAgree "inner" e := walks_agree steps he
  have hmet : e.met m.world.globals =
      [("b", ⟨1⟩), ("b", ⟨2⟩), ("a", ⟨3⟩), ("a", ⟨9⟩), ("a", ⟨7⟩)] := by rfl
  refine ⟨he, hagree, hmet, ?_, ?_, (hagree.last "y").2.2.1⟩
  · exact (hagree.resolve "b").trans (by rfl)
  · exact (hagree.resolve "a").trans (by rfl)

end Script.Machine

end ScopedStore
