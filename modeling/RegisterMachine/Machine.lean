import RegisterMachine.Machine.Fetch
import RegisterMachine.Machine.Registers

/-!
# RegisterMachine.Machine

The machine that runs code.

Rules:
1. a step reads the instruction at `ip` and leaves `ip` past it; then the instruction takes effect,
   so an operand `ip` stands for the address after the instruction;
2. arithmetic is exact on the operands' views and wraps at their width when it is stored;
3. a step that cannot read or carry out its instruction faults: it changes no data, and `ip` stands
   past the fields that were read;
4. a machine that has halted or faulted does not step any more.
-/

namespace RegisterMachine

/-- Whether a machine still runs, and how it ended. -/
inductive Status where
  | running | halted | faulted
deriving DecidableEq, Repr

/-- The state of a machine. -/
structure Machine where
  registers : Registers := .zero
  /-- The outcome of the last comparison. -/
  flag : Ordering := .eq
  status : Status := .running
  /-- Where the last step began. -/
  lastAddress : UInt64 := 0
deriving DecidableEq, Repr

namespace Machine

/-- A machine with every register zero. -/
def initial : Machine := {}

def ip (m : Machine) : UInt64 :=
  m.registers.get .ip

def setIp (m : Machine) (address : UInt64) : Machine :=
  { m with registers := m.registers.set .ip address }

/-- The machine `offset` bytes further, modulo `2 ^ 64`. -/
def skip (m : Machine) (offset : UInt64) : Machine :=
  m.setIp (m.ip + offset)

end Machine

/-! ## Effects -/

namespace Instruction

/-- The effect of an instruction, with `ip` already past it. Only a division by zero has none. -/
def execute? (m : Machine) : Instruction → Option Machine
  | .load w destination value =>
    some { m with registers := m.registers.put w destination value.toNat }
  | .alu op w destination source =>
    let t : IntType := ⟨op.signed, w⟩
    (op.arithmetic.result? (m.registers.view t destination) (m.registers.view t source)).map
      fun v => { m with registers := m.registers.put w destination v }
  | .compare signed w left right =>
    let t : IntType := ⟨signed, w⟩
    some { m with flag := Ord.compare (m.registers.view t left) (m.registers.view t right) }
  | .jump offset => some (m.skip offset)
  | .jumpIf c offset => some (if c.holds m.flag then m.skip offset else m)
  | .halt => some { m with status := .halted }

end Instruction

namespace Machine

/-! ## Steps and runs -/

/-- One step of a machine that runs. -/
def stepRunning (code : List UInt8) (m : Machine) : Machine :=
  let (fetched, next) := (Fetch.instruction code).run m.ip.toNat
  let reached := { m.setIp (UInt64.ofNat next) with lastAddress := m.ip }
  match fetched.bind (·.execute? reached) with
  | some m => m
  | none => { reached with status := .faulted }

/-- One step; a machine that does not run stays as it is. -/
def step (code : List UInt8) (m : Machine) : Machine :=
  if m.status = .running then m.stepRunning code else m

/-- Steps until the machine no longer runs, at most as often as the budget says. The answer counts
the steps on from `taken`. -/
def advance (code : List UInt8) : (budget taken : Nat) → Machine → Nat × Machine
  | 0, taken, m => (taken, m)
  | budget + 1, taken, m =>
    if m.status = .running then advance code budget (taken + 1) (m.step code) else (taken, m)

/-- Why a run does not halt. -/
inductive RunError where
  /-- The instruction at an address faulted; there is no byte beyond the end of the code. -/
  | fault (address : UInt64) (byte : Option UInt8)
  /-- The machine still runs after all steps that were allowed. -/
  | stepLimit (limit : Nat)
  /-- The machine still runs at the horizon of a run without a limit. -/
  | unfinished
deriving DecidableEq, Repr

/-- How a run ended that took so many steps and left the machine in this state. -/
def outcome (code : List UInt8) (limit : Option Nat) (steps : Nat) (m : Machine) :
    Except RunError Nat :=
  match m.status, limit with
  | .halted, _ => .ok steps
  | .faulted, _ => .error (.fault m.lastAddress code[m.lastAddress.toNat]?)
  | .running, some n => .error (.stepLimit n)
  | .running, none => .error .unfinished

/-- Runs the machine: the number of steps if it halts, and its last state. A run without a limit is
followed up to a horizon. -/
def run (code : List UInt8) (limit : Option Nat) (horizon : Nat) (m : Machine) :
    Except RunError Nat × Machine :=
  let (steps, last) := m.advance code (limit.getD horizon) 0
  (last.outcome code limit steps, last)

/-- A horizon beyond every run that comes to an end in practice. -/
def farHorizon : Nat :=
  1 <<< 62

end Machine

/-! ## Reports -/

/-- What is wrong with the byte at which an instruction faulted. -/
def faultDetail : Option UInt8 → String
  | none => "ran past the end of the code"
  | some b =>
    match Opcode.ofByte? b with
    | none => "illegal opcode 0x" ++ hex 2 b.toNat
    | some .illegal => "illegal opcode 0x" ++ hex 2 b.toNat
    | some op => op.name ++ " failed"

def Machine.RunError.message : Machine.RunError → String
  | .fault address byte => "machine fault at 0x" ++ hex 4 address.toNat ++ ": " ++ faultDetail byte
  | .stepLimit limit => "execution step limit exceeded (" ++ toString limit ++ ")"
  | .unfinished => "the program did not halt"

/-- The name of the outcome of a comparison. -/
def flagName : Ordering → String
  | .lt => "Less"
  | .eq => "Equal"
  | .gt => "Greater"

end RegisterMachine
