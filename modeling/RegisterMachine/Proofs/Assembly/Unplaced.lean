import RegisterMachine.Assembly
import RegisterMachine.Proofs.Except
import RegisterMachine.Proofs.Program.Unplaced

/-!
# RegisterMachine.Proofs.Assembly.Unplaced

Assembling does not depend on where the tokens stand, but for the position that an error gives.

Every function of the assembler commutes with `unplaced`: on a program without places it has the
same value, or the same error without its place (`assembleProgram_map_unplaced`).
-/

namespace RegisterMachine

/-- An error without its place. -/
def AssemblyError.unplaced (e : AssemblyError) : AssemblyError :=
  ⟨e.problem, .origin⟩

/-! ## Operands -/

variable {α : Type}

theorem require_unplaced_bind (s : Statement) (role : Role) (f : Token → Except AssemblyError α) :
    s.unplaced.require role >>= f =
      (s.require role).mapError .unplaced >>= fun t => f t.unplaced := by
  rw [Statement.require, Statement.require, Statement.operand_unplaced]
  cases s.operand role <;> rfl

theorem registerOperand_unplaced (s : Statement) (role : Role) :
    s.unplaced.registerOperand role = (s.registerOperand role).mapError .unplaced := by
  rw [Statement.registerOperand, Statement.registerOperand, require_unplaced_bind, mapError_bind]
  refine bind_congr fun t => ?_
  obtain ⟨kind, text, position, span⟩ := t
  cases kind <;> rfl

theorem constantBits_unplaced (type : IntType) (t : Token) :
    constantBits type t.unplaced = (constantBits type t).mapError .unplaced := by
  obtain ⟨kind, text, position, span⟩ := t
  cases kind with
  | integer =>
      simp only [constantBits, Token.unplaced]
      split
      next => rfl
      next => split <;> rfl
  | float =>
      simp only [constantBits, Token.unplaced]
      split
      next => rfl
      next => split <;> rfl
  | _ => rfl

theorem targetAddress_unplaced (procedure : String) (labels : Labels) (s : Statement) :
    s.unplaced.targetAddress procedure labels =
      (s.targetAddress procedure labels).mapError .unplaced := by
  rw [Statement.targetAddress, Statement.targetAddress, require_unplaced_bind, mapError_bind]
  refine bind_congr fun t => ?_
  simp only [Token.unplaced]
  split <;> rfl

/-! ## Statements -/

theorem comparison_unplaced (s : Statement) (type : IntType) :
    s.unplaced.comparison type = (s.comparison type).mapError .unplaced := by
  simp only [Statement.comparison, registerOperand_unplaced, mapError_bind]
  rfl

theorem instructions_unplaced (procedure : String) (labels : Labels) (address : Nat)
    (s : Statement) :
    s.unplaced.instructions procedure labels address =
      (s.instructions procedure labels address).mapError .unplaced := by
  rw [Statement.instructions, Statement.instructions, Statement.form?_unplaced]
  split
  next => rfl
  next => rfl
  next m hform =>
    cases m with
    | load type =>
        simp only [registerOperand_unplaced, require_unplaced_bind, constantBits_unplaced,
          mapError_bind]
        rfl
    | arithmetic op type =>
        simp only [registerOperand_unplaced, mapError_bind]
        rfl
    | compare type =>
        simp only [comparison_unplaced, mapError_bind]
        rfl
    | branch condition type =>
        simp only [comparison_unplaced, targetAddress_unplaced, mapError_bind]
        rfl
    | jump =>
        simp only [targetAddress_unplaced, mapError_bind]
        rfl
    | halt => rfl

theorem assembleBody_unplaced (procedure : String) (labels : Labels) (address : Nat)
    (body : List Statement) :
    assembleBody procedure labels address (body.map Statement.unplaced) =
      (assembleBody procedure labels address body).mapError .unplaced := by
  induction body generalizing address with
  | nil => rfl
  | cons s body ih =>
      simp only [List.map_cons, assembleBody, instructions_unplaced, ih, mapError_bind]
      rfl

/-! ## Layout -/

theorem defineLabel_unplaced (procedure : String) (address : Nat) (labels : Labels)
    (s : Statement) :
    s.unplaced.defineLabel procedure address labels =
      (s.defineLabel procedure address labels).mapError .unplaced := by
  rw [Statement.defineLabel, Statement.defineLabel, Statement.form?_unplaced]
  split
  next =>
    by_cases hdefined : (labels.lookup s.head.text).isSome
    · rw [if_pos hdefined]
      exact if_pos hdefined
    · rw [if_neg hdefined]
      exact if_neg hdefined
  next => rfl

theorem layoutBody_unplaced (procedure : String) (address : Nat) (labels : Labels)
    (body : List Statement) :
    layoutBody procedure address labels (body.map Statement.unplaced) =
      (layoutBody procedure address labels body).mapError .unplaced := by
  induction body generalizing address labels with
  | nil => rfl
  | cons s body ih =>
      rw [List.map_cons, layoutBody, layoutBody, defineLabel_unplaced, mapError_bind]
      refine bind_congr fun defined => ?_
      rw [Statement.form?_unplaced]
      split
      next form hform => exact ih _ _
      next => rfl

theorem layout_unplaced (address : Nat) (procedures : List Procedure) :
    layout address (procedures.map Procedure.unplaced) =
      (layout address procedures).mapError .unplaced := by
  induction procedures generalizing address with
  | nil => rfl
  | cons p procedures ih =>
      simp only [List.map_cons, layout, Procedure.unplaced, layoutBody_unplaced, ih, mapError_bind]
      rfl

/-! ## Programs -/

theorem assembleProcedures_unplaced (address : Nat) (placed : List (Procedure × ProcedureLayout)) :
    assembleProcedures address (placed.map (Prod.map Procedure.unplaced id)) =
      (assembleProcedures address placed).mapError .unplaced := by
  induction placed generalizing address with
  | nil => rfl
  | cons p placed ih =>
      simp only [List.map_cons, Prod.map, id, assembleProcedures, Procedure.unplaced,
        assembleBody_unplaced, ih, mapError_bind]
      rfl

/-- A program without places has the same image, or the same error without its place. -/
theorem assembleProgram_map_unplaced (procedures : List Procedure) :
    assembleProgram (procedures.map Procedure.unplaced) =
      (assembleProgram procedures).mapError .unplaced := by
  rw [assembleProgram, assembleProgram, layout_unplaced, mapError_bind]
  refine bind_congr fun layouts => ?_
  dsimp only
  rw [List.zip_map_left, assembleProcedures_unplaced, mapError_bind]
  refine bind_congr fun instructions => ?_
  rw [List.map_map]
  rfl

end RegisterMachine
