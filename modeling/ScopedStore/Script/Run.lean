import ScopedStore.Inspect
import ScopedStore.Script.Machine
import ScopedStore.Script.Step

/-!
# Running a script

What each step does to a machine. A step first converts the addresses it was given, then looks
up its registers in the order in which it names them, and only then calls the operation; the
first of these that fails decides the refusal. A script goes on after a refused step.
-/

namespace ScopedStore.Script.Machine

def execSession (m : Machine) : SessionStep → Effect
  | .create into capacities => do
    let (s, world) ← Session.create m.world capacities
    { m with world, sessions := m.sessions.insert into s }.answer .done
  | .globalEnv session into =>
    m.found (register? m.sessions session) fun s => m.storeEnv into s.globalEnv
  | .bind session name raw =>
    m.found (address? raw) fun a =>
    m.found (register? m.sessions session) fun s => do
      let world ← s.bind m.world name a
      { m with world }.answer (.count (world.globals s.root).size)
  | .define session name v =>
    m.found (register? m.sessions session) fun s => do
      let (a, s, world) ← s.define m.world name v
      { m with world, sessions := m.sessions.insert session s }.answer (.address a)
  | .defineMany session stem count =>
    m.found (register? m.sessions session) fun s => do
      let (a, s, world) ← s.defineMany m.world stem count
      { m with world, sessions := m.sessions.insert session s }.answer (.address? a)
  | .enter session env names values into =>
    m.found (register? m.sessions session) fun s =>
    m.found (m.env? env) fun e => do
      let (entered, s, world) ← s.enter m.world e names values
      let m := { m with world, sessions := m.sessions.insert session s }
      m.outcome entered (m.storeEnv into)
  | .lookup session env name =>
    m.found (register? m.sessions session) fun s =>
    m.found (m.env? env) fun e => do
      m.outcome (← s.lookup m.world e name) fun v => m.answer (.value v)
  | .assign session env name v =>
    m.found (register? m.sessions session) fun s =>
    m.found (m.env? env) fun e => do
      let (assigned, s) ← s.assign m.world e name v
      let m := { m with sessions := m.sessions.insert session s }
      m.outcome assigned fun _ => m.answer .done

def execStore (m : Machine) : StoreStep → Effect
  | .create into => { m with stores := m.stores.insert into {} }.answer (.store {})
  | .copy store into =>
    m.found (m.store? store) fun s => { m with stores := m.stores.insert into s }.answer .done
  | .same a b =>
    m.found (m.store? a) fun s =>
    m.found (m.store? b) fun t => m.answer (.flag (s = t))
  | .alloc store v =>
    m.found (m.store? store) fun s => do
      let (a, s) ← s.alloc v
      (m.putStore store s).answer (.address a)
  | .allocMany store v count =>
    m.found (m.store? store) fun s => do
      let (a, s) ← s.allocMany v count
      (m.putStore store s).answer (.address? a)
  | .read store raw =>
    m.found (address? raw) fun a =>
    m.found (m.store? store) fun s =>
    m.outcome (s.read a) fun v => m.answer (.value v)
  | .write store raw v =>
    m.found (address? raw) fun a =>
    m.found (m.store? store) fun s => do
      let s ← s.write a v
      (m.putStore store s).answer (.count s.size)
  | .lastAddressOf store v =>
    m.found (m.store? store) fun s => m.answer (.address? (s.lastAddressOf? v))
  | .size store => m.found (m.store? store) fun s => m.answer (.size s.size)
  | .cells store => m.found (m.store? store) fun s => m.answer (.store s)

def execEnv (m : Machine) : EnvStep → Effect
  | .create into =>
    let (r, world) := m.world.newRoot
    { m with world }.storeEnv into (.ofRoot r)
  | .copy env into => m.found (m.env? env) (m.storeEnv into)
  | .nest names raws env count into =>
    m.found (addresses? raws) fun addresses =>
    m.found (m.env? env) fun e =>
      let (nested, world) := m.world.nestMany names addresses e count
      let m := { m with world }
      m.outcome nested (m.storeEnv into)
  | .resolve env name =>
    m.found (m.env? env) fun e => do
      m.outcome (← m.world.resolve e name) fun a => m.answer (.address a)
  | .findGlobal env name =>
    m.found (m.env? env) fun e =>
    m.outcome ((m.world.globals e.root).find name) fun a => m.answer (.address a)
  | .kind env => m.found (m.env? env) fun e => m.answer (.kind e.isGlobal e.depth)
  | .sameFrame a b =>
    m.found (m.env? a) fun e =>
    m.found (m.env? b) fun f => m.answer (.flag (e.sameFrame f))
  | .sameRoot a b =>
    m.found (m.env? a) fun e =>
    m.found (m.env? b) fun f => m.answer (.flag (e.sameRoot f))
  | .bindGlobal env name raw =>
    m.found (address? raw) fun a =>
    m.found (m.env? env) fun e => do
      let world ← m.world.bind e.root name a
      { m with world }.answer (.count (world.globals e.root).size)
  | .global env into => m.found (m.env? env) fun e => m.storeEnv into e.global
  | .enclosing env into =>
    m.found (m.env? env) fun e =>
    m.found (e.enclosing?.elim (.error .notNested) .ok) (m.storeEnv into)
  | .describe env =>
    m.found (m.env? env) fun e => m.answer (.env e (m.world.globals e.root))

def execGlobals (m : Machine) : GlobalsStep → Effect
  | .create into => { m with globals := m.globals.insert into {} }.answer (.globals {})
  | .copy id into =>
    m.found (register? m.globals id) fun g =>
      { m with globals := m.globals.insert into g }.answer .done
  | .bind id name raw =>
    m.found (address? raw) fun a =>
    m.found (register? m.globals id) fun g => do
      let g ← g.bind name a
      { m with globals := m.globals.insert id g }.answer (.size g.size)
  | .find id name =>
    m.found (register? m.globals id) fun g =>
    m.outcome (g.find name) fun a => m.answer (.address a)
  | .describe id => m.found (register? m.globals id) fun g => m.answer (.globals g)
  | .toEnv id into =>
    m.found (register? m.globals id) fun g =>
      let (r, world) := m.world.newRoot g
      { m with world }.storeEnv into (.ofRoot r)

def execCell (m : Machine) : CellStep → Effect
  | .create into n =>
    let (r, slots) := m.slots.alloc n
    { m with slots, cells := m.cells.insert into r }.answer .done
  | .share cell into =>
    m.found (register? m.cells cell) fun r =>
      { m with cells := m.cells.insert into r }.answer .done
  | .set cell n =>
    m.found (register? m.cells cell) fun r =>
      { m with slots := m.slots.modify r fun _ => n }.answer .done
  | .get cell => m.found (register? m.cells cell) fun r => m.answer (.int (m.slot r))
  | .same a b =>
    m.found (register? m.cells a) fun r =>
    m.found (register? m.cells b) fun s => m.answer (.flag (r = s))

/-- Empties a register; whatever other registers refer to stays. -/
def drop (m : Machine) (id : String) : Kind → Effect
  | .session => { m with sessions := m.sessions.erase id }.answer (.flag (m.sessions.contains id))
  | .store => { m with stores := m.stores.erase id }.answer (.flag (m.stores.contains id))
  | .env => { m with envs := m.envs.erase id }.answer (.flag (m.envs.contains id))
  | .globals => { m with globals := m.globals.erase id }.answer (.flag (m.globals.contains id))
  | .cell => { m with cells := m.cells.erase id }.answer (.flag (m.cells.contains id))

def inspect (m : Machine) (id : String) : Kind → Effect
  | .session =>
    m.found (register? m.sessions id) fun s => m.answer (.text (s.inspect m.world))
  | .store => m.found (m.store? id) fun s => m.answer (.text s.inspect)
  | .env =>
    m.found (m.env? id) fun e => m.answer (.text (e.inspect (m.world.globals e.root)))
  | .globals => m.found (register? m.globals id) fun g => m.answer (.text g.inspect)
  | .cell =>
    m.found (register? m.cells id) fun r =>
      m.answer (.text (inspectSlot (toString (m.slot r).toInt)))

def exec (m : Machine) : Step → Effect
  | .session step => m.execSession step
  | .store step => m.execStore step
  | .env step => m.execEnv step
  | .globals step => m.execGlobals step
  | .cell step => m.execCell step
  | .drop kind id => m.drop id kind
  | .inspect kind id => m.inspect id kind

/-- Runs steps one after the other, each on the machine that the one before left. A refused
step does not stop the script. -/
def run (m : Machine) : List Step → List Effect
  | [] => []
  | step :: rest =>
    let effect := m.exec step
    effect :: effect.value.2.run rest

@[simp] theorem length_run (m : Machine) (steps : List Step) :
    (m.run steps).length = steps.length := by
  induction steps generalizing m with
  | nil => rfl
  | cons step rest ih => simp [run, ih]

end ScopedStore.Script.Machine
