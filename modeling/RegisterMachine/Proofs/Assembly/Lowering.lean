import RegisterMachine.Proofs.Assembly.Layout
import RegisterMachine.Proofs.Listing.Sweep
import RegisterMachine.Proofs.Program.Action

/-!
# RegisterMachine.Proofs.Assembly.Lowering

What the assembler makes of a statement.

* `Action.lowering?` is what a decoder shows of the instructions that carry an action out, given the
  addresses of labels, and `Line.lowering?` takes these addresses from the lines of a program;
* `lowering?_of_instructions` -- the instructions of a statement carry out what it asks for.
-/

namespace RegisterMachine

open Instruction

/-! ## What carries actions out -/

/-- The opcodes and operands that carry an action out, given where labels stand. -/
def Action.lowering? (labels : String → Option UInt64) :
    Action → Option (List (Opcode × List Operand))
  | .label => some []
  | .load type destination constant =>
    some [(.load type.width, [.register destination, .immediate type.width constant])]
  | .arithmetic op type destination source =>
    some [(.alu (AluOp.ofArithmetic type.signed op) type.width,
      [.register destination, .register source])]
  | .compare type left right =>
    some [(.compare type.signed type.width, [.register left, .register right])]
  | .branch c type left right target =>
    (labels target).map fun t =>
      [(.compare type.signed type.width, [.register left, .register right]),
        (.jumpIf c, [.target t])]
  | .jump target => (labels target).map fun t => [(.jump, [.target t])]
  | .halt => some [(.halt, [])]

/-- The address that a label of a procedure stands for: that of the line that defines it. -/
def labelAddress? (lines : List Line) (procedure : Nat) (label : String) : Option UInt64 :=
  (labelLine? lines procedure label).map fun k => UInt64.ofNat (addressOf lines k)

/-- What the assembler is to make of a line among all lines. -/
def Line.lowering? (lines : List Line) (l : Line) : Option (List (Opcode × List Operand)) :=
  l.statement.action?.bind fun action => action.lowering? (labelAddress? lines l.procedure)

/-- What the assembler is to make of some lines among all lines. -/
def lowering? (lines : List Line) : List Line → Option (List (Opcode × List Operand))
  | [] => some []
  | l :: later => do
    let first ← l.lowering? lines
    let rest ← lowering? lines later
    return first ++ rest

/-- The bytes of what a decoder shows. -/
def shownSize : List (Opcode × List Operand) → Nat
  | [] => 0
  | (op, _) :: shown => op.shape.size + shownSize shown

/-! ## Statements -/

section Statements

variable {s : Statement} {procedure : String} {labels : Labels} {address : Nat}

theorem require_eq_ok {role : Role} {t : Token} (h : s.require role = .ok t) :
    s.operand role = some t := by
  rw [Statement.require] at h
  split at h
  next t' ht =>
    cases h
    exact ht
  next => contradiction

theorem register?_of_registerOperand {role : Role} {r : Register}
    (h : s.registerOperand role = .ok r) : s.register? role = some r := by
  obtain ⟨t, ht, hr⟩ := eq_ok_of_bind_eq_ok h
  rw [Statement.register?, require_eq_ok ht, Option.map_some]
  split at hr
  next r' hk =>
    cases hr
    rw [hk]
  next => contradiction

theorem lookup_of_targetAddress {t : Nat} (h : s.targetAddress procedure labels = .ok t) :
    ∃ token, s.target = some token ∧ labels.lookup token.text = some t := by
  obtain ⟨token, htoken, hlookup⟩ := eq_ok_of_bind_eq_ok h
  refine ⟨token, require_eq_ok htoken, ?_⟩
  split at hlookup
  next a ha =>
    cases hlookup
    exact ha
  next => contradiction

/-- What carries an action out takes the bytes that the layout reserves for it. -/
theorem shownSize_of_lowering? {action : Action} {target : String → Option UInt64}
    {shown : List (Opcode × List Operand)} (h : action.lowering? target = some shown) :
    shownSize shown = action.form.size := by
  cases action with
  | branch c type left right label =>
      obtain ⟨t, -, rfl⟩ := Option.map_eq_some_iff.1 h
      rfl
  | jump label =>
      obtain ⟨t, -, rfl⟩ := Option.map_eq_some_iff.1 h
      rfl
  | _ => exact Option.some.inj h ▸ rfl

/-- A jump of the assembler goes where its label stands. -/
theorem targetAddress_jumpOffset (address target : Nat) :
    targetAddress address Shape.relative.size (jumpOffset address target) =
      UInt64.ofNat target := by
  rw [targetAddress, jumpOffset, UInt64.add_comm, UInt64.sub_add_cancel]

theorem comparison_eq_ok {i : Instruction} {type : IntType} (h : s.comparison type = .ok i) :
    ∃ left right, s.register? .destination = some left ∧ s.register? .source = some right ∧
      i = .compare type.signed type.width left right := by
  obtain ⟨left, hleft, h⟩ := eq_ok_of_bind_eq_ok h
  obtain ⟨right, hright, h⟩ := eq_ok_of_bind_eq_ok h
  cases h
  exact ⟨left, right, register?_of_registerOperand hleft, register?_of_registerOperand hright, rfl⟩

/-- The instructions of a statement carry out what it asks for. -/
theorem lowering?_of_instructions {instructions : List Instruction}
    (h : s.instructions procedure labels address = .ok instructions) :
    ∃ action, s.action? = some action ∧
      action.lowering? (fun label => (labels.lookup label).map UInt64.ofNat) =
        some ((placed address instructions).map decoded) := by
  rw [Statement.instructions] at h
  split at h
  next => contradiction
  next hform =>
    cases h
    exact ⟨.label, by rw [Statement.action?, hform], rfl⟩
  next m hform =>
    cases m with
    | load type =>
        obtain ⟨destination, hdestination, h⟩ := eq_ok_of_bind_eq_ok h
        obtain ⟨t, ht, h⟩ := eq_ok_of_bind_eq_ok h
        obtain ⟨constant, hconstant, h⟩ := eq_ok_of_bind_eq_ok h
        cases h
        have ht : s.source = some t := require_eq_ok ht
        refine ⟨.load type destination constant, ?_, rfl⟩
        rw [Statement.action?, hform]
        simp [register?_of_registerOperand hdestination, ht, hconstant, Except.toOption]
    | arithmetic op type =>
        obtain ⟨destination, hdestination, h⟩ := eq_ok_of_bind_eq_ok h
        obtain ⟨source, hsource, h⟩ := eq_ok_of_bind_eq_ok h
        cases h
        refine ⟨.arithmetic op type destination source, ?_, rfl⟩
        rw [Statement.action?, hform]
        simp [register?_of_registerOperand hdestination, register?_of_registerOperand hsource]
    | compare type =>
        obtain ⟨i, hi, h⟩ := eq_ok_of_bind_eq_ok h
        obtain ⟨left, right, hleft, hright, rfl⟩ := comparison_eq_ok hi
        cases h
        refine ⟨.compare type left right, ?_, rfl⟩
        rw [Statement.action?, hform]
        simp [hleft, hright]
    | branch c type =>
        obtain ⟨i, hi, h⟩ := eq_ok_of_bind_eq_ok h
        obtain ⟨target, htarget, h⟩ := eq_ok_of_bind_eq_ok h
        obtain ⟨left, right, hleft, hright, rfl⟩ := comparison_eq_ok hi
        obtain ⟨t, ht, hlookup⟩ := lookup_of_targetAddress htarget
        cases h
        refine ⟨.branch c type left right t.text, ?_, ?_⟩
        · rw [Statement.action?, hform]
          simp [hleft, hright, ht]
        · rw [Action.lowering?, hlookup, Option.map_some, Option.map_some,
            ← targetAddress_jumpOffset]
          rfl
    | jump =>
        obtain ⟨target, htarget, h⟩ := eq_ok_of_bind_eq_ok h
        obtain ⟨t, ht, hlookup⟩ := lookup_of_targetAddress htarget
        cases h
        refine ⟨.jump t.text, ?_, ?_⟩
        · rw [Statement.action?, hform]
          simp [ht]
        · rw [Action.lowering?, hlookup, Option.map_some, Option.map_some,
            ← targetAddress_jumpOffset]
          rfl
    | halt =>
        cases h
        exact ⟨.halt, by rw [Statement.action?, hform], rfl⟩

end Statements

/-! ## Lines -/

theorem shownSize_placed (address : Nat) (instructions : List Instruction) :
    shownSize ((placed address instructions).map decoded) = totalSize instructions := by
  induction instructions generalizing address with
  | nil => rfl
  | cons i instructions ih =>
      rw [placed, List.map_cons, decoded, shownSize, ih, totalSize, Instruction.size]

/-- What the assembler makes of a line takes the bytes that the layout reserves for it. -/
theorem Line.shownSize_of_lowering? {lines : List Line} {l : Line}
    {shown : List (Opcode × List Operand)} (h : l.lowering? lines = some shown) :
    shownSize shown = l.size := by
  obtain ⟨action, haction, hshown⟩ := Option.bind_eq_some_iff.1 h
  rw [RegisterMachine.shownSize_of_lowering? hshown, Line.size, form?_of_action? haction]
  rfl

theorem KeepsIp.written?_ne {procedures : List Procedure} (hkeeps : KeepsIp procedures) {l : Line}
    (hl : l ∈ linesOf procedures) : l.statement.written? ≠ some .ip := by
  obtain ⟨p, hp, hs⟩ := exists_procedure_of_mem_linesFrom hl
  exact hkeeps p hp l.statement hs

end RegisterMachine
