import RegisterMachine.Machine
import RegisterMachine.Proofs.Program.Action
import RegisterMachine.Proofs.Program.Lines
import RegisterMachine.Proofs.Word

/-!
# RegisterMachine.Proofs.Program.Execution

The meaning of a program, line by line and without code.

Rules:
1. lines are performed in order, from one procedure on into the next one; behind the last line the
   program faults;
2. a load replaces the low bits of its register, arithmetic is exact on the operands' values and
   wraps when it is written, and only a division by zero has no result;
3. a branch compares, and like a jump it goes on at the label of its own procedure;
4. an operand `ip` is the address behind the comparison or the arithmetic that reads it.

`ProgramState.count` is the number of steps that a machine takes for some lines. It grows with the
number of lines as long as the program runs (`exists_le_count`), for labels cannot follow each other
forever.
-/

namespace RegisterMachine

/-- The state of a program between two lines. -/
structure ProgramState where
  /-- The line that is next. -/
  next : Nat
  /-- The cells of `r0` to `r7`; the one of `ip` is not used. -/
  registers : Registers
  flag : Ordering
  status : Status := .running
deriving DecidableEq, Repr

/-- The steps that a machine takes for an action. -/
def Action.steps : Action → Nat
  | .label => 0
  | .branch _ _ _ _ _ => 2
  | _ => 1

namespace ProgramState

/-! ## Lines -/

/-- The cell of an operand. -/
def read (lines : List Line) (s : ProgramState) (r : Register) : UInt64 :=
  if r = .ip then UInt64.ofNat (addressOf lines s.next + Shape.registerRegister.size)
  else s.registers.get r

/-- The number that a type sees in an operand. -/
def value (lines : List Line) (s : ProgramState) (type : IntType) (r : Register) : Int :=
  type.value (s.read lines r)

/-- The order of two operands. -/
def order (lines : List Line) (s : ProgramState) (type : IntType) (left right : Register) :
    Ordering :=
  Ord.compare (s.value lines type left) (s.value lines type right)

def pass (s : ProgramState) : ProgramState :=
  { s with next := s.next + 1 }

/-- The program goes on at a label of a procedure; a label that nobody defines stands at the end. -/
def goTo (lines : List Line) (procedure : Nat) (label : String) (s : ProgramState) : ProgramState :=
  { s with next := (labelLine? lines procedure label).getD lines.length }

/-- What an action of a procedure makes of a state. -/
def perform (lines : List Line) (procedure : Nat) (s : ProgramState) : Action → ProgramState
  | .label => s.pass
  | .load type destination constant =>
    { s.pass with registers := s.registers.put type.width destination constant.toNat }
  | .arithmetic op type destination source =>
    match op.result? (s.value lines type destination) (s.value lines type source) with
    | some v => { s.pass with registers := s.registers.put type.width destination v }
    | none => { s with status := .faulted }
  | .compare type left right => { s.pass with flag := s.order lines type left right }
  | .branch c type left right label =>
    let compared := { s with flag := s.order lines type left right }
    if c.holds compared.flag then compared.goTo lines procedure label else compared.pass
  | .jump label => s.goTo lines procedure label
  | .halt => { s.pass with status := .halted }

/-- One line; a program that does not run stays as it is. -/
def step (lines : List Line) (s : ProgramState) : ProgramState :=
  if s.status = .running then
    match lines[s.next]? with
    | none => { s with status := .faulted }
    | some l =>
      match l.statement.action? with
      | none => { s with status := .faulted }
      | some action => s.perform lines l.procedure action
  else s

/-- The steps that a machine takes for the next line. -/
def cost (lines : List Line) (s : ProgramState) : Nat :=
  if s.status = .running then
    ((lines[s.next]?.bind fun l => l.statement.action?).map Action.steps).getD 1
  else 0

/-- The program after some lines. -/
def after (lines : List Line) : (n : Nat) → ProgramState → ProgramState
  | 0, s => s
  | n + 1, s => after lines n (s.step lines)

/-- The steps that a machine takes for some lines. -/
def count (lines : List Line) : (n : Nat) → ProgramState → Nat
  | 0, _ => 0
  | n + 1, s => s.cost lines + count lines n (s.step lines)

variable {lines : List Line} {s : ProgramState}

theorem step_of_not_running (hs : s.status ≠ .running) : s.step lines = s :=
  if_neg hs

theorem cost_of_not_running (hs : s.status ≠ .running) : s.cost lines = 0 :=
  if_neg hs

section Running

variable {l : Line} {action : Action} (hs : s.status = .running)
include hs

theorem step_of_action? (hl : lines[s.next]? = some l)
    (haction : l.statement.action? = some action) :
    s.step lines = s.perform lines l.procedure action := by
  rw [step, if_pos hs, hl]
  simp only [haction]

theorem cost_of_action? (hl : lines[s.next]? = some l)
    (haction : l.statement.action? = some action) :
    s.cost lines = action.steps := by
  rw [cost, if_pos hs, hl, Option.bind_some, haction, Option.map_some, Option.getD_some]

theorem step_of_length_le (hlen : lines.length ≤ s.next) :
    s.step lines = { s with status := .faulted } := by
  rw [step, if_pos hs, List.getElem?_eq_none hlen]

theorem cost_of_length_le (hlen : lines.length ≤ s.next) : s.cost lines = 1 := by
  rw [cost, if_pos hs, List.getElem?_eq_none hlen]
  rfl

/-- A program stops in a single step. -/
theorem cost_of_stops (hstops : (s.step lines).status ≠ .running) : s.cost lines = 1 := by
  cases hl : lines[s.next]? with
  | none => exact cost_of_length_le hs (List.getElem?_eq_none_iff.1 hl)
  | some l =>
      cases haction : l.statement.action? with
      | none =>
          rw [cost, if_pos hs, hl, Option.bind_some, haction]
          rfl
      | some action =>
          rw [cost_of_action? hs hl haction]
          rw [step_of_action? hs hl haction] at hstops
          cases action with
          | label => exact absurd hs hstops
          | branch c type left right label =>
              refine absurd ?_ hstops
              simp only [perform]
              split <;> exact hs
          | _ => rfl

/-- Only a label costs nothing, and behind it the program goes on. -/
theorem step_of_cost_eq_zero (hcost : s.cost lines = 0) :
    s.next < lines.length ∧ s.step lines = s.pass := by
  cases hl : lines[s.next]? with
  | none =>
      rw [cost_of_length_le hs (List.getElem?_eq_none_iff.1 hl)] at hcost
      contradiction
  | some l =>
      refine ⟨(List.getElem?_eq_some_iff.1 hl).1, ?_⟩
      cases haction : l.statement.action? with
      | none =>
          rw [cost, if_pos hs, hl, Option.bind_some, haction] at hcost
          contradiction
      | some action =>
          rw [cost_of_action? hs hl haction] at hcost
          cases action with
          | label => exact step_of_action? hs hl haction
          | _ => contradiction

end Running

/-! ## Runs -/

theorem after_add (lines : List Line) (a b : Nat) (s : ProgramState) :
    s.after lines (a + b) = (s.after lines a).after lines b := by
  induction a generalizing s with
  | zero => rw [Nat.zero_add, after]
  | succ a ih => rw [Nat.succ_add, after, ih, after]

theorem count_add (lines : List Line) (a b : Nat) (s : ProgramState) :
    s.count lines (a + b) = s.count lines a + (s.after lines a).count lines b := by
  induction a generalizing s with
  | zero => rw [Nat.zero_add, count, after, Nat.zero_add]
  | succ a ih => rw [Nat.succ_add, count, ih, count, after, Nat.add_assoc]

theorem after_succ (lines : List Line) (n : Nat) (s : ProgramState) :
    s.after lines (n + 1) = (s.after lines n).step lines := by
  rw [after_add, after, after]

theorem count_succ (lines : List Line) (n : Nat) (s : ProgramState) :
    s.count lines (n + 1) = s.count lines n + (s.after lines n).cost lines := by
  rw [count_add, count, count, Nat.add_zero]

/-- A program that runs comes to a line that is not a label. -/
theorem exists_count_pos (hs : s.status = .running) : ∃ n, 0 < s.count lines n := by
  -- on the number of lines from the next one on, for only labels are passed
  induction hleft : lines.length - s.next generalizing s with
  | zero =>
      refine ⟨1, ?_⟩
      rw [count, cost_of_length_le hs (by omega)]
      omega
  | succ left ih =>
      by_cases hcost : s.cost lines = 0
      · obtain ⟨hlt, hstep⟩ := step_of_cost_eq_zero hs hcost
        obtain ⟨n, hn⟩ := ih (s := s.pass) hs (by simp only [pass]; omega)
        refine ⟨n + 1, ?_⟩
        rw [count, hstep]
        omega
      · refine ⟨1, ?_⟩
        rw [count]
        omega

/-- A program either stops or takes a machine as many steps as one likes. -/
theorem exists_le_count (lines : List Line) (s : ProgramState) (k : Nat) :
    ∃ n, k ≤ s.count lines n ∨ (s.after lines n).status ≠ .running := by
  induction k with
  | zero => exact ⟨0, .inl (Nat.zero_le _)⟩
  | succ k ih =>
      obtain ⟨n, hn⟩ := ih
      by_cases hrunning : (s.after lines n).status = .running
      · obtain ⟨n', hn'⟩ : ∃ n', 0 < (s.after lines n).count lines n' := exists_count_pos hrunning
        have hk := hn.resolve_right fun h => h hrunning
        refine ⟨n + n', .inl ?_⟩
        rw [count_add]
        omega
      · exact ⟨n, .inr hrunning⟩

end ProgramState

end RegisterMachine
