import MiniVerilog.Simulation.Block
import MiniVerilog.Simulation.State

/-! # Steps of a simulation

A step changes nothing until its end. It stages the stimulus, then the continuous
assignments, then the always blocks that are triggered; every staged change is
logged. The commit at the end makes the staged values current, moves the time on
and samples the waveform.
-/

namespace MiniVerilog

/-- What has been staged in a step, and the events logged in it. -/
structure Staging where
  staged : NameMap Value := ∅
  log : List Event := []
  deriving DecidableEq, Repr

namespace SimulationState

/-- The staged value of a name, or else the current one. -/
def pending (state : SimulationState) (staging : Staging) (name : String) : Value :=
  ((staging.staged.get? name).or (state.values.get? name)).getD 0

end SimulationState

namespace Simulator

variable (simulator : Simulator) (state : SimulationState)

/-- The value an expression reads under a name: that of a signal, or of a
parameter. -/
def lookup (name : String) : Option Value :=
  (state.values.get? name).or (simulator.module.constant? name)

/-- Stages a value, unless it is the pending one. -/
def stage (kind : EventKind) (staging : Staging) (write : String × Value) : Staging :=
  let value := simulator.module.mask write.1 write.2
  if value = state.pending staging write.1 then staging
  else
    { staged := staging.staged.insert write.1 value
      log := staging.log ++ [⟨state.time, write.1, value, kind⟩] }

/-- Stages values one after another. -/
def stageAll (kind : EventKind) (staging : Staging) (writes : List (String × Value)) : Staging :=
  writes.foldl (simulator.stage state kind) staging

/-- The clocks that toggle in this step, with their new values. -/
def toggles : List (String × Value) :=
  (simulator.clocks.filter fun clock => state.time % clock.halfPeriod = 0).map fun clock =>
    (clock.signal, Value.ofBool (state.pending {} clock.signal == 0))

/-- The drives of this step. -/
def currentDrives : List (String × Value) :=
  (simulator.drives.filter fun drive => drive.time = state.time).map fun drive =>
    (drive.signal, drive.value)

/-- The values of the continuous assignments. An assignment without a target means
nothing. -/
def assignedValues : List (String × Value) :=
  (simulator.module.assigns.filter fun assign => assign.target != "").map fun assign =>
    (assign.target, Expression.evaluate (simulator.lookup state) assign.expression)

/-- An item of a sensitivity list has happened between the current and the pending
values. -/
def happened (staging : Staging) (item : SensitivityItem) : Bool :=
  if item.signal = "*" then !staging.staged.isEmpty
  else
    let old := (state.values.get? item.signal).getD 0
    let new := state.pending staging item.signal
    match item.edge with
    | some .posedge => old &&& 1 == 0 && new &&& 1 == 1
    | some .negedge => old &&& 1 == 1 && new &&& 1 == 0
    | none => old != new

/-- A word of a sensitivity list names something that changed in this step. -/
def changed (staging : Staging) (word : String) : Bool :=
  if word = "*" then !staging.log.isEmpty
  else staging.log.any fun event => event.signal = word

/-- The event control of a block fires. -/
def isTriggered (trigger : TriggerMode) (staging : Staging) (block : AlwaysBlock) : Bool :=
  match trigger with
  | .level =>
    (block.sensitivityList.filter fun word => (ClockEdge.ofWord? word).isNone).any
      (changed staging)
  | .edge => block.sensitivity.any (happened state staging)

/-- The writes of a body in this step. -/
def blockWrites (body : List StatementTree) : List (String × Value) :=
  (StatementTree.runBody simulator.module.mask (simulator.lookup state) {} body).writes

/-- Runs a block if it is triggered, and stages its writes. -/
def runBlock (staging : Staging) (block : AlwaysBlock × List StatementTree) : Staging :=
  if isTriggered state simulator.trigger staging block.1 then
    simulator.stageAll state .change staging (simulator.blockWrites state block.2)
  else staging

/-- What is staged before the always blocks run. -/
def stageInputs : Staging :=
  let staging := simulator.stageAll state .edge {} (simulator.toggles state)
  let staging := simulator.stageAll state .change staging (simulator.currentDrives state)
  simulator.stageAll state .change staging (simulator.assignedValues state)

/-- Everything that is staged in a step. -/
def stageStep : Staging :=
  simulator.blocks.foldl (simulator.runBlock state) (simulator.stageInputs state)

end Simulator

namespace SimulationState

/-- Makes the staged values current. -/
def commit (state : SimulationState) (staging : Staging) : SimulationState :=
  let values := state.values.overlay staging.staged
  { time := state.time + 1
    values := values
    previous := state.values
    events := state.events ++ staging.log
    waveform := state.waveform.sample (state.time + 1) values.get? }

end SimulationState

namespace Simulator

/-- Runs one step. -/
def step (simulator : Simulator) (state : SimulationState) : SimulationState :=
  state.commit (simulator.stageStep state)

/-- Runs a number of steps. -/
def run (simulator : Simulator) : (steps : Nat) → SimulationState → SimulationState
  | 0, state => state
  | steps + 1, state => simulator.run steps (simulator.step state)

end Simulator

end MiniVerilog
