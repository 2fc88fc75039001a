import ScopedStore.Globals.Columns
import ScopedStore.Proofs.History.Resolution
import ScopedStore.Proofs.Script.Aside

/-!
# Global frames by what was added to them

A global frame is what was added to it. `Globals.Keeps` says how: the frame lists exactly the added
bindings from the newest on, its columns have grown in step, and a look-up by its index is the scan
of that list. This holds of the frames behind environments, and of the frames that stand alone in
registers, copies of one another included. What the registers hold is told by the steps alone, and a
step on one register is no matter to the copies in the others.
-/

namespace ScopedStore

namespace Globals

/-- A global frame that has grown from nothing by these bindings, listed from the oldest on. -/
structure Keeps (g : Globals) (added : List (String × Address)) : Prop where
  size : g.size = added.length
  bindings : g.bindings = added.reverse
  /-- The index answers what a scan answers that begins with the newest binding. -/
  scan : ∀ name : String, g.find name = found name (g.bindings.lookup name)
  unbound_iff : ∀ name : String,
    g.find name = .error (.unbound name) ↔ ∀ b ∈ g.bindings, b.1 ≠ name
  columns : g.columns = Columns.ofList added
  names : (Columns.ofList added).names.size = added.length
  addresses : (Columns.ofList added).addresses.size = added.length
  columns_size : (Columns.ofList added).size = g.size
  columns_bindings : (Columns.ofList added).bindings = g.bindings
  columns_find : ∀ name : String, (Columns.ofList added).find name = g.find name

variable {g h : Globals}

/-- The columns grow by one entry for each binding. -/
theorem columns_pushAll (bindings : List (String × Address)) :
    ∀ g : Globals, (g.pushAll bindings).columns =
      bindings.foldl (fun c b => c.push b.1 b.2) g.columns := by
  induction bindings with
  | nil =>
      intro g
      rfl
  | cons b rest ih =>
      intro g
      simp [ih]

/-- The history of a frame determines its index. -/
theorem Indexed.eq_of_history (hg : g.Indexed) (hh : h.Indexed)
    (hhistory : g.history.toList = h.history.toList) : g = h := by
  have hnewest : g.newest = h.newest := by
    apply Std.ExtTreeMap.ext_getElem?
    intro name
    calc
      g.newest[name]? = g.bindings.lookup name := hg name
      _ = h.bindings.lookup name := by simp only [Globals.bindings, hhistory]
      _ = h.newest[name]? := (hh name).symm
  cases g
  cases h
  simp_all

/-- Whatever is added to an empty frame is kept. -/
theorem keeps_pushAll (added : List (String × Address)) :
    (({} : Globals).pushAll added).Keeps added := by
  have hindexed : (({} : Globals).pushAll added).Indexed := indexed_empty.pushAll added
  have hbindings : (({} : Globals).pushAll added).bindings = added.reverse := by
    simp [Globals.bindings, history_pushAll]
  have hsize : (({} : Globals).pushAll added).size = added.length :=
    calc
      (({} : Globals).pushAll added).size =
          (({} : Globals).pushAll added).history.toList.length := Array.length_toList.symm
      _ = added.length := by simp [history_pushAll]
  have hcolumns : (({} : Globals).pushAll added).columns = Columns.ofList added :=
    calc
      (({} : Globals).pushAll added).columns =
          added.foldl (fun c b => c.push b.1 b.2) ({} : Globals).columns := columns_pushAll added {}
      _ = Columns.ofList added := by simp only [columns_empty, Columns.ofList]
  constructor
  case size => exact hsize
  case bindings => exact hbindings
  case scan => exact hindexed.find_eq
  case unbound_iff =>
    intro name
    simpa only [hindexed.find_eq] using found_lookup_eq_unbound_iff
  case columns => exact hcolumns
  case names => simpa [← hcolumns, Globals.columns, Globals.size] using hsize
  case addresses => simpa [← hcolumns, Globals.columns, Globals.size] using hsize
  case columns_size => simp only [← hcolumns, size_columns]
  case columns_bindings => simp only [← hcolumns, bindings_columns]
  case columns_find =>
    intro name
    simp only [← hcolumns, find_columns]

/-- A frame with an index that agrees with its history keeps this history. -/
theorem Indexed.keeps (hg : g.Indexed) : g.Keeps g.history.toList := by
  have hgrown : g = ({} : Globals).pushAll g.history.toList :=
    hg.eq_of_history (indexed_empty.pushAll _) (by simp [history_pushAll])
  simpa only [← hgrown] using keeps_pushAll g.history.toList

end Globals

namespace Script

/-! ## Registers of frames -/

/-- What a step makes of registers of frames, whatever stands for a frame in them. -/
def GlobalsStep.file {α : Type} (empty : α) (push : α → String → Address → α) (t : Registers α) :
    GlobalsStep → Registers α
  | .create into => t.insert into empty
  | .copy id into =>
    match t[id]? with
    | some g => t.insert into g
    | none => t
  | .bind id name raw =>
    match Address.ofRaw raw, t[id]? with
    | .ok a, some g => t.insert id (push g name a)
    | _, _ => t
  | _ => t

def Step.file {α : Type} (empty : α) (push : α → String → Address → α) (t : Registers α) :
    Step → Registers α
  | .globals step => step.file empty push t
  | .drop .globals id => t.erase id
  | _ => t

def Step.filed? : Step → Option String
  | .globals (.create into) => some into
  | .globals (.copy _ into) => some into
  | .globals (.bind id _ _) => some id
  | .drop .globals id => some id
  | _ => none

/-- The bindings that the steps of a script add to the frames in registers, oldest first. A copy
begins with what was added to its original. -/
def tally (steps : List Step) : Registers (List (String × Address)) :=
  steps.foldl (Step.file [] fun added name a => added ++ [(name, a)]) {}

section File

variable {α β : Type} {empty : α} {push : α → String → Address → α} {t : Registers α} {step : Step}
variable {empty' : β} {push' : β → String → Address → β} {u : Registers β} {f : α → β} {id : String}

/-- A step changes one register of frames at most. -/
theorem file_of_ne (h : step.filed? ≠ some id) : (step.file empty push t)[id]? = t[id]? := by
  have hother : ∀ {other : String}, step.filed? = some other → id ≠ other := by
    rintro other hfiled rfl
    exact h hfiled
  cases step with
  | globals step =>
      cases step with
      | create into => simp [Step.file, GlobalsStep.file, Lookup.getElem?_insert, hother rfl]
      | copy from' into =>
          simp only [Step.file, GlobalsStep.file]
          cases t[from']? <;> simp [Lookup.getElem?_insert, hother rfl]
      | bind into name raw =>
          simp only [Step.file, GlobalsStep.file]
          cases Address.ofRaw raw <;> cases t[into]? <;>
            simp [Lookup.getElem?_insert, hother rfl]
      | _ => rfl
  | drop kind other =>
      cases kind with
      | globals => simp [Step.file, Lookup.getElem?_erase, hother rfl]
      | _ => rfl
  | _ => rfl

/-- Registers that correspond go on to correspond, if the empty frame and further bindings do. -/
theorem map_file (hempty : f empty = empty')
    (hpush : ∀ g name a, f (push g name a) = push' (f g) name a)
    (h : ∀ id : String, t[id]?.map f = u[id]?) (step : Step) :
    ∀ id : String, (step.file empty push t)[id]?.map f = (step.file empty' push' u)[id]? := by
  have hinsert : ∀ (into : String) (g : α) (id : String),
      (t.insert into g)[id]?.map f = (u.insert into (f g))[id]? := by
    intro into g id
    simp only [Lookup.getElem?_insert, ← h id]
    split <;> rfl
  intro id
  cases step with
  | globals step =>
      cases step with
      | create into => simpa [Step.file, GlobalsStep.file, hempty] using hinsert into empty id
      | copy from' into =>
          simp only [Step.file, GlobalsStep.file, ← h from']
          cases t[from']? with
          | none => exact h id
          | some g => exact hinsert into g id
      | bind into name raw =>
          simp only [Step.file, GlobalsStep.file, ← h into]
          cases Address.ofRaw raw with
          | error fault => exact h id
          | ok a =>
              cases t[into]? with
              | none => exact h id
              | some g => simpa [hpush] using hinsert into (push g name a) id
      | _ => exact h id
  | drop kind other =>
      cases kind with
      | globals =>
          simp only [Step.file, Lookup.getElem?_erase, ← h id]
          split <;> rfl
      | _ => exact h id
  | _ => exact h id

end File

namespace Machine

variable {m : Machine} {step : Step} {id : String}

/-! ## What the machine does to its registers of frames -/

theorem globals_execCell (m : Machine) (step : CellStep) :
    Leaves Machine.globals m.globals (m.execCell step) := by
  cases step with
  | create into n => exact rfl
  | share cell into => exact .found rfl fun r => rfl
  | set cell n => exact .found rfl fun r => rfl
  | get cell => exact .found rfl fun r => rfl
  | same a b => exact .found rfl fun r => .found rfl fun t => rfl

/-- A step on frames in registers changes the registers as it says. -/
theorem globals_execGlobals (m : Machine) (step : GlobalsStep) :
    (m.execGlobals step).value.2.globals = step.file {} Globals.push m.globals := by
  cases step with
  | create into => rfl
  | copy id into =>
      simp only [execGlobals, GlobalsStep.file, register?]
      cases m.globals[id]? <;> rfl
  | bind id name raw =>
      simp only [execGlobals, GlobalsStep.file, address?, register?]
      cases Address.ofRaw raw with
      | error fault => rfl
      | ok a => cases m.globals[id]? <;> rfl
  | find id name => exact Leaves.found rfl fun g => .outcome rfl fun a => rfl
  | describe id => exact Leaves.found rfl fun g => rfl
  | toEnv id into => exact Leaves.found rfl fun g => rfl

/-- Every step does to the registers of frames what the step alone tells. -/
theorem globals_next (m : Machine) (step : Step) :
    (m.next step).globals = step.file {} Globals.push m.globals := by
  cases step with
  | session step => exact globals_of_aside (m.aside_execSession step)
  | store step => exact globals_of_aside (m.aside_execStore step)
  | env step => exact globals_of_aside (m.aside_execEnv step)
  | globals step => exact m.globals_execGlobals step
  | cell step => exact m.globals_execCell step
  | drop kind id => cases kind <;> rfl
  | inspect kind id => exact leaves_inspect Machine.globals m id kind

theorem globals_next_of_ne (h : step.filed? ≠ some id) :
    (m.next step).globals[id]? = m.globals[id]? := by
  simpa only [m.globals_next step] using file_of_ne h

/-- A register of frames keeps its frame until a step names it. -/
theorem globals_last_of_ne (steps : List Step) :
    ∀ {m : Machine}, (∀ step ∈ steps, step.filed? ≠ some id) →
      (m.last steps).globals[id]? = m.globals[id]? := by
  induction steps with
  | nil =>
      intro m _
      rfl
  | cons step rest ih =>
      intro m h
      exact (ih fun other hother => h other (List.mem_cons_of_mem step hother)).trans
        (globals_next_of_ne (h step List.mem_cons_self))

/-- The frames in registers hold what was added to them by the steps of the script. -/
theorem history_standing (steps : List Step) :
    ∀ {m : Machine} {t : Registers (List (String × Address))},
      (∀ id : String, m.globals[id]?.map (fun g => g.history.toList) = t[id]?) →
        ∀ id : String, (m.last steps).globals[id]?.map (fun g => g.history.toList) =
          (steps.foldl (Step.file [] fun added name a => added ++ [(name, a)]) t)[id]? := by
  induction steps with
  | nil =>
      intro m t h
      exact h
  | cons step rest ih =>
      intro m t h
      refine ih ?_
      simpa only [m.globals_next step] using
        map_file (f := fun g : Globals => g.history.toList) rfl
          (fun g name a => by simp [Globals.push]) h step

/-! ## The law -/

/-- What a script comes to for the global frames that it leaves. -/
structure KeepsFrames (steps : List Step) : Prop where
  /-- The registers hold the frames that the steps tell, and no others. -/
  standing : ∀ (id : String) (added : List (String × Address)), (tally steps)[id]? = some added →
    ∃ g, (({} : Machine).last steps).globals[id]? = some g ∧ g.Keeps added
  empty : ∀ id : String, (tally steps)[id]? = none →
    (({} : Machine).last steps).globals[id]? = none
  find : ∀ (id : String) (added : List (String × Address)), (tally steps)[id]? = some added →
    ∀ name : String, (({} : Machine).last steps).reply (.globals (.find id name)) =
      resolved name (added.reverse.lookup name)
  /-- So do the frames behind environments. -/
  roots : ∀ r : Ref Globals, ((({} : Machine).last steps).world.globals r).Keeps
    (({} : Machine).historyOf r steps)
  /-- Right after a copy its register holds what the original holds. From then on each of the two
  holds it until a step changes the register itself. -/
  copies : ∀ (id into : String) (g : Globals),
    (({} : Machine).last steps).globals[id]? = some g →
      ∀ (other : String), other = id ∨ other = into →
        ∀ later : List Step, (∀ step ∈ later, step.filed? ≠ some other) →
          (({} : Machine).last (steps ++ .globals (.copy id into) :: later)).globals[other]? =
            some g

/-- A step that searches a frame in a register answers what the frame finds. -/
theorem reply_find {g : Globals} (hg : m.globals[id]? = some g) (name : String) :
    m.reply (.globals (.find id name)) = ((g.find name).mapError .fault).map .address := by
  simp only [reply, exec, execGlobals, register?, hg, found_ok]
  cases g.find name <;> rfl

/-- A global frame is made up of what was added to it, whatever that is: its size, its list of
bindings, its columns and its index all say the same. So is every frame that a script leaves, in a
register or behind environments, and copies go their own ways. -/
theorem frames_keep_additions :
    (∀ added : List (String × Address), (({} : Globals).pushAll added).Keeps added) ∧
      ∀ steps : List Step, KeepsFrames steps := by
  refine ⟨Globals.keeps_pushAll, ?_⟩
  intro steps
  have hvalid : (({} : Machine).last steps).Valid := valid_empty.last steps
  have hhistory : ∀ id : String,
      (({} : Machine).last steps).globals[id]?.map (fun g => g.history.toList) =
        (tally steps)[id]? :=
    history_standing steps fun id => by simp
  have hstanding : ∀ (id : String) (added : List (String × Address)),
      (tally steps)[id]? = some added →
        ∃ g, (({} : Machine).last steps).globals[id]? = some g ∧ g.Keeps added := by
    intro id added hadded
    rcases Option.map_eq_some_iff.1 ((hhistory id).trans hadded) with ⟨g, hg, rfl⟩
    exact ⟨g, hg, (hvalid.standing id g hg).keeps⟩
  constructor
  case standing => exact hstanding
  case empty =>
    intro id hnone
    exact Option.map_eq_none_iff.1 ((hhistory id).trans hnone)
  case find =>
    intro id added hadded name
    rcases hstanding id added hadded with ⟨g, hg, hkeeps⟩
    simp only [reply_find hg, hkeeps.scan, hkeeps.bindings]
    cases added.reverse.lookup name <;> rfl
  case roots =>
    intro r
    simpa only [history_eq_historyOf] using (hvalid.indexed r).keeps
  case copies =>
    intro id into g hg other hother later hlater
    have hcopy : (({} : Machine).last (steps ++ [.globals (.copy id into)])).globals[other]? =
        some g := by
      have hnext := (({} : Machine).last steps).globals_next (.globals (.copy id into))
      simp only [Step.file, GlobalsStep.file, hg] at hnext
      simp only [last_append, last_cons, last_nil, hnext, Lookup.getElem?_insert]
      split
      · rfl
      · rename_i hne
        rcases hother with rfl | rfl
        · exact hg
        · exact absurd rfl hne
    have hsplit : steps ++ .globals (.copy id into) :: later =
        (steps ++ [.globals (.copy id into)]) ++ later := by simp
    simpa only [hsplit, last_append] using (globals_last_of_ne later hlater).trans hcopy

/-- A frame is bound further after it has been copied, and the copy does not see it. -/
example :
    let steps : List Step := [.globals (.create "f"), .globals (.bind "f" "a" 1),
      .globals (.copy "f" "g"), .globals (.bind "f" "a" 2)]
    (({} : Machine).last steps).reply (.globals (.find "g" "a")) = .ok (.address ⟨1⟩) := by rfl

end Machine

end Script

end ScopedStore
