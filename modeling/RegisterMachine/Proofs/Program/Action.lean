import RegisterMachine.Assembly.Operand

/-!
# RegisterMachine.Proofs.Program.Action

What the statements of a program ask for.

* `Statement.action?` is what a statement asks for, with its operands read; labels keep the spelling
  of the program;
* `KeepsIp` -- no statement of a program loads or computes into `ip`;
* `AvoidsIp` -- no statement of a program names `ip` at all.
-/

namespace RegisterMachine

/-- What a statement asks for. -/
inductive Action where
  | label
  | load (type : IntType) (destination : Register) (constant : BitVec type.width.bits)
  | arithmetic (op : Arithmetic) (type : IntType) (destination source : Register)
  | compare (type : IntType) (left right : Register)
  | branch (c : Condition) (type : IntType) (left right : Register) (target : String)
  | jump (target : String)
  | halt
deriving DecidableEq, Repr

/-- The register in a role, if a register stands there. -/
def Statement.register? (s : Statement) (role : Role) : Option Register :=
  match (s.operand role).map Token.kind with
  | some (.register r) => some r
  | _ => none

/-- What a statement asks for, if its operands are as they should be. -/
def Statement.action? (s : Statement) : Option Action :=
  match s.form? with
  | none => none
  | some .label => some .label
  | some (.operation (.load type)) => do
    let destination ← s.register? .destination
    let t ← s.source
    let constant ← (constantBits type t).toOption
    return .load type destination constant
  | some (.operation (.arithmetic op type)) => do
    let destination ← s.register? .destination
    let source ← s.register? .source
    return .arithmetic op type destination source
  | some (.operation (.compare type)) => do
    let left ← s.register? .destination
    let right ← s.register? .source
    return .compare type left right
  | some (.operation (.branch c type)) => do
    let left ← s.register? .destination
    let right ← s.register? .source
    let t ← s.target
    return .branch c type left right t.text
  | some (.operation .jump) => do
    let t ← s.target
    return .jump t.text
  | some (.operation .halt) => some .halt

/-- The form of a statement that asks for an action. -/
def Action.form : Action → Form
  | .label => .label
  | .load type _ _ => .operation (.load type)
  | .arithmetic op type _ _ => .operation (.arithmetic op type)
  | .compare type _ _ => .operation (.compare type)
  | .branch c type _ _ _ => .operation (.branch c type)
  | .jump _ => .operation .jump
  | .halt => .operation .halt

/-- A statement that asks for an action has its form. -/
theorem form?_of_action? {s : Statement} {action : Action} (h : s.action? = some action) :
    s.form? = some action.form := by
  rw [Statement.action?] at h
  split at h
  next => contradiction
  next hform =>
    cases h
    exact hform
  next type hform =>
    obtain ⟨destination, -, h⟩ := Option.bind_eq_some_iff.1 h
    obtain ⟨t, -, h⟩ := Option.bind_eq_some_iff.1 h
    obtain ⟨constant, -, h⟩ := Option.bind_eq_some_iff.1 h
    cases h
    exact hform
  next op type hform =>
    obtain ⟨destination, -, h⟩ := Option.bind_eq_some_iff.1 h
    obtain ⟨source, -, h⟩ := Option.bind_eq_some_iff.1 h
    cases h
    exact hform
  next type hform =>
    obtain ⟨left, -, h⟩ := Option.bind_eq_some_iff.1 h
    obtain ⟨right, -, h⟩ := Option.bind_eq_some_iff.1 h
    cases h
    exact hform
  next c type hform =>
    obtain ⟨left, -, h⟩ := Option.bind_eq_some_iff.1 h
    obtain ⟨right, -, h⟩ := Option.bind_eq_some_iff.1 h
    obtain ⟨t, -, h⟩ := Option.bind_eq_some_iff.1 h
    cases h
    exact hform
  next hform =>
    obtain ⟨t, -, h⟩ := Option.bind_eq_some_iff.1 h
    cases h
    exact hform
  next hform =>
    cases h
    exact hform

/-- The register that an action loads or computes into. -/
def Action.written? : Action → Option Register
  | .load _ destination _ => some destination
  | .arithmetic _ _ destination _ => some destination
  | _ => none

/-- The registers that an action names. -/
def Action.registers : Action → List Register
  | .load _ destination _ => [destination]
  | .arithmetic _ _ destination source => [destination, source]
  | .compare _ left right => [left, right]
  | .branch _ _ left right _ => [left, right]
  | _ => []

theorem Action.mem_registers_of_written? {action : Action} {r : Register}
    (h : action.written? = some r) : r ∈ action.registers := by
  cases action <;> simp_all [written?, registers]

/-- The label that an action may go to. -/
def Action.label? : Action → Option String
  | .branch _ _ _ _ target => some target
  | .jump target => some target
  | _ => none

/-- The register that a statement loads or computes into. -/
def Statement.written? (s : Statement) : Option Register :=
  s.action?.bind Action.written?

/-- The registers that a statement names. -/
def Statement.registers (s : Statement) : List Register :=
  (s.action?.map Action.registers).getD []

/-- No statement of a program loads or computes into `ip`. -/
def KeepsIp (procedures : List Procedure) : Prop :=
  ∀ p ∈ procedures, ∀ s ∈ p.body, s.written? ≠ some .ip

instance (procedures : List Procedure) : Decidable (KeepsIp procedures) :=
  inferInstanceAs (Decidable (∀ p ∈ procedures, ∀ s ∈ p.body, s.written? ≠ some .ip))

/-- No statement of a program names `ip` as an operand. -/
def AvoidsIp (procedures : List Procedure) : Prop :=
  ∀ p ∈ procedures, ∀ s ∈ p.body, .ip ∉ s.registers

instance (procedures : List Procedure) : Decidable (AvoidsIp procedures) :=
  inferInstanceAs (Decidable (∀ p ∈ procedures, ∀ s ∈ p.body, .ip ∉ s.registers))

theorem AvoidsIp.keepsIp {procedures : List Procedure} (h : AvoidsIp procedures) :
    KeepsIp procedures := by
  intro p hp s hs hwritten
  obtain ⟨action, haction, hwritten⟩ := Option.bind_eq_some_iff.1 hwritten
  refine h p hp s hs ?_
  rw [Statement.registers, haction]
  exact Action.mem_registers_of_written? hwritten

end RegisterMachine
