import ScopedStore.Proofs.Script.Runs
import ScopedStore.Proofs.Texts.Quoted

/-!
# The text of a store determines its cells

The inspection text of a value names its kind and has its payload between parentheses, and the text
of a store has those of its cells between brackets. Payloads may hold all that the layout is made of,
since strings are quoted and numbers have none of it. So stores with one text have the same cells, in
number, order, kind and payload.
-/

namespace ScopedStore

open Text

/-! ## Values and addresses -/

theorem Address.delimited_inspect : Delimited Address.inspect :=
  (delimited_nat "Address(").comp fun a b h => by
    cases a
    cases b
    exact congrArg mk h

namespace Value

theorem delimited_int : Delimited fun n : Int64 => inspect (.int n) :=
  (Text.delimited_int "Int(").comp fun _ _ h => Int64.toInt_inj.1 h

/-- No two kinds of values are written alike from the beginning. -/
theorem delimited_inspect : Delimited Value.inspect := by
  intro v w r s h
  cases v with
  | int n =>
      cases w with
      | int m =>
          rcases delimited_int n m r s h with ⟨rfl, hrest⟩
          exact ⟨rfl, hrest⟩
      -- The text of a truth value is a literal only once it is known which one it is.
      | bool b => cases b <;> simp [inspect] at h
      | _ => simp [inspect] at h
  | bool b =>
      cases w with
      | bool b' => cases b <;> cases b' <;> simp_all [inspect]
      | _ => cases b <;> simp [inspect] at h
  | str t =>
      cases w with
      | str u =>
          rcases delimited_quoted.between "Str(" ")" t u r s h with ⟨rfl, hrest⟩
          exact ⟨rfl, hrest⟩
      | bool b => cases b <;> simp [inspect] at h
      | _ => simp [inspect] at h
  | symbol t =>
      cases w with
      | symbol u =>
          rcases delimited_quoted.between "Symbol(" ")" t u r s h with ⟨rfl, hrest⟩
          exact ⟨rfl, hrest⟩
      | bool b => cases b <;> simp [inspect] at h
      | _ => simp [inspect] at h
  | void =>
      cases w with
      | void => exact ⟨rfl, List.append_cancel_left h⟩
      | bool b => cases b <;> simp [inspect] at h
      | _ => simp [inspect] at h

/-- No text of a value looks like the end of a list. -/
theorem inspect_open (v : Value) : ∃ c cs, v.inspect.toList = c :: cs ∧ c ≠ ']' := by
  cases v with
  | bool b => cases b <;> simp [inspect]
  | _ => simp [inspect]

end Value

/-! ## Stores -/

namespace Store

theorem delimited_inspect : Delimited Store.inspect :=
  ((Value.delimited_inspect.list Value.inspect_open).between "Store \x7b cells: " " \x7d").comp
    fun s t h => by
      cases s
      cases t
      exact congrArg mk (Array.toList_inj.1 h)

/-- What can be read from a store is all that there is to it. -/
theorem ext_read {s t : Store} (h : ∀ a : Address, s.read a = t.read a) : s = t := by
  have hcell : ∀ (i : Nat) (v : Value), s.cells[i]? = some v ↔ t.cells[i]? = some v := by
    intro i v
    have hread := h ⟨i⟩
    rw [← @read_eq_ok_iff s ⟨i⟩ v, ← @read_eq_ok_iff t ⟨i⟩ v, hread]
  have hcells : s.cells = t.cells := Array.ext_getElem? fun i => Option.ext (hcell i)
  cases s
  cases t
  exact congrArg mk hcells

theorem read_inj {s t : Store} : (∀ a : Address, s.read a = t.read a) ↔ s = t :=
  ⟨ext_read, fun h a => by rw [h]⟩

end Store

namespace Script.Machine

variable {m n : Machine} {x y : String}

theorem reply_inspect_store (m : Machine) (x : String) :
    m.reply (.inspect .store x) = (m.store? x).map fun s => .text s.inspect := by
  simp only [reply, exec, inspect]
  cases m.store? x <;> rfl

theorem reply_same_eq_true_iff :
    m.reply (.store (.same x y)) = .ok (.flag true) ↔
      ∃ s, m.store? x = .ok s ∧ m.store? y = .ok s := by
  simp only [reply, exec, execStore]
  cases m.store? x with
  | error refusal => simp
  | ok s =>
      cases m.store? y with
      | error refusal => simp
      | ok t => simp [answer, eq_comm]

end Script.Machine

/-- Two values have one text only if they are the same, and so do two stores: only if they have as
many cells and every cell of the one holds what the cell at its address in the other does. A text of
a store can even be told from whatever is written behind it. In a script, the registers whose texts
are the same are those whose stores are found equal. -/
theorem Store.inspect_determines_cells :
    (∀ v w : Value, v.inspect = w.inspect ↔ v = w) ∧
    (∀ s t : Store, s.inspect = t.inspect ↔
      s.size = t.size ∧ ∀ a : Address, s.read a = t.read a) ∧
    (∀ (s t : Store) (behind behind' : List Char),
      s.inspect.toList ++ behind = t.inspect.toList ++ behind' ↔ s = t ∧ behind = behind') ∧
    (∀ (m n : Script.Machine) (x y : String),
      m.reply (.inspect .store x) = n.reply (.inspect .store y) ↔ m.store? x = n.store? y) ∧
    ∀ (m : Script.Machine) (x y : String),
      m.reply (.store (.same x y)) = .ok (.flag true) ↔
        ∃ text, m.reply (.inspect .store x) = .ok (.text text) ∧
          m.reply (.inspect .store y) = .ok (.text text) := by
  have hvalue := Value.delimited_inspect.injective
  have hstore := delimited_inspect.injective
  refine ⟨fun v w => hvalue.eq_iff, ?_, ?_, ?_, ?_⟩
  · intro s t
    rw [read_inj, hstore.eq_iff]
    exact ⟨fun h => ⟨by rw [h], h⟩, And.right⟩
  · intro s t behind behind'
    refine ⟨delimited_inspect s t behind behind', ?_⟩
    rintro ⟨rfl, rfl⟩
    rfl
  · intro m n x y
    rw [Script.Machine.reply_inspect_store, Script.Machine.reply_inspect_store]
    cases m.store? x <;> cases n.store? y <;> simp [Except.map, hstore.eq_iff]
  · intro m x y
    rw [Script.Machine.reply_same_eq_true_iff, Script.Machine.reply_inspect_store,
      Script.Machine.reply_inspect_store]
    cases m.store? x <;> cases m.store? y <;> simp [Except.map, hstore.eq_iff, eq_comm]

/-- A string that reads like the end of its cell and the beginning of another. -/
example : (⟨#[.str "\"), Bool(true"]⟩ : Store).inspect =
    "Store \x7b cells: [Str(\"\\\"), Bool(true\")] \x7d" := by decide

end ScopedStore
