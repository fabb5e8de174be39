import RegisterMachine.Proofs.Assembly.Emission
import RegisterMachine.Proofs.Machine.Boundary

/-!
# RegisterMachine.Proofs.Assembly.Safety

Assembled code does not go wrong.

The code of an image is closed (`closedCode_of_assembleProgram`) if its program leaves `ip` alone:
all jumps go to addresses of lines, and every line stands on a boundary. So runs from its procedures
are contained.
-/

namespace RegisterMachine

open Instruction

/-! ## Lines stand on boundaries -/

theorem boundary_totalSize (before after : List Instruction) :
    Boundary (encodeAll (before ++ after)) (totalSize before) := by
  cases after with
  | nil =>
      rw [List.append_nil, ← length_encodeAll]
      exact .inl rfl
  | cons i after =>
      refine .inr ⟨i, ?_⟩
      rw [sweep_encodeAll, placed_append, Nat.zero_add, placed]
      exact List.mem_append_right _ List.mem_cons_self

/-- Every line begins on a boundary, and the last one ends on one. -/
theorem Emits.boundary {lines : List Line} {instructions : List Instruction}
    (h : Emits lines 0 lines instructions) (k : Nat) :
    Boundary (encodeAll instructions) (addressOf lines k) := by
  cases hl : lines[k]? with
  | none =>
      have hlen : lines.length ≤ k := List.getElem?_eq_none_iff.1 hl
      rw [addressOf, List.take_of_length_le hlen, ← h.totalSize_eq, ← length_encodeAll]
      exact .inl rfl
  | some l =>
      obtain ⟨before, own, after, rfl, hsize, -⟩ := h.at_line hl
      rw [← hsize]
      exact boundary_totalSize before _

/-- Every instruction is one of a line. -/
theorem Emits.exists_line {lines xs : List Line} {address : Nat} {instructions : List Instruction}
    (h : Emits lines address xs instructions) {a : Nat} {i : Instruction}
    (hi : (a, i) ∈ placed address instructions) :
    ∃ l ∈ xs, ∃ shown, l.lowering? lines = some shown ∧ decoded (a, i) ∈ shown := by
  induction h with
  | nil => contradiction
  | @cons address l later first rest hshown _ ih =>
      rw [placed_append, List.mem_append] at hi
      rcases hi with hi | hi
      · exact ⟨l, List.mem_cons_self, _, hshown, List.mem_map_of_mem hi⟩
      · obtain ⟨l', hl', hexists⟩ := ih hi
        exact ⟨l', List.mem_cons_of_mem l hl', hexists⟩

/-! ## Instructions of lines -/

theorem target_mem_operands {address : Nat} {i : Instruction} {t : UInt64}
    (h : i.target? address = some t) : Operand.target t ∈ i.operands address := by
  cases i <;> simp_all [target?, operands]

/-- Only jumps to a label have a target, and it is where the label stands. -/
theorem Action.exists_label_of_target_mem {action : Action} {labels : String → Option UInt64}
    {shown : List (Opcode × List Operand)} (h : action.lowering? labels = some shown)
    {op : Opcode} {operands : List Operand} (hmem : (op, operands) ∈ shown) {t : UInt64}
    (ht : Operand.target t ∈ operands) : ∃ label, labels label = some t := by
  cases action with
  | branch c type left right label =>
      obtain ⟨t', hlabel, rfl⟩ := Option.map_eq_some_iff.1 h
      refine ⟨label, ?_⟩
      simp only [List.mem_cons, Prod.mk.injEq, List.not_mem_nil, or_false] at hmem
      rcases hmem with ⟨-, rfl⟩ | ⟨-, rfl⟩
      · simp at ht
      · simp only [List.mem_singleton, Operand.target.injEq] at ht
        rw [ht, hlabel]
  | jump label =>
      obtain ⟨t', hlabel, rfl⟩ := Option.map_eq_some_iff.1 h
      simp only [List.mem_singleton, Prod.mk.injEq] at hmem
      rw [hmem.2, List.mem_singleton, Operand.target.injEq] at ht
      exact ⟨label, ht ▸ hlabel⟩
  | _ =>
      cases Option.some.inj h
      simp_all

/-- An instruction of an action loads or computes into the register of the action. -/
theorem Action.written?_of_mem {action : Action} {labels : String → Option UInt64}
    {shown : List (Opcode × List Operand)} (h : action.lowering? labels = some shown)
    {address : Nat} {i : Instruction} (hmem : decoded (address, i) ∈ shown) {r : Register}
    (hr : i.written? = some r) : action.written? = some r := by
  cases action with
  | branch c type left right label =>
      obtain ⟨t, -, rfl⟩ := Option.map_eq_some_iff.1 h
      cases i <;> simp_all [decoded, opcode, Instruction.written?]
  | jump label =>
      obtain ⟨t, -, rfl⟩ := Option.map_eq_some_iff.1 h
      cases i <;> simp_all [decoded, opcode, Instruction.written?]
  | _ =>
      cases Option.some.inj h
      cases i <;> simp_all [decoded, opcode, operands, Instruction.written?, Action.written?]

/-- An instruction of an action names no other registers than the action. -/
theorem Action.mem_registers_of_mem {action : Action} {labels : String → Option UInt64}
    {shown : List (Opcode × List Operand)} (h : action.lowering? labels = some shown)
    {address : Nat} {i : Instruction} (hmem : decoded (address, i) ∈ shown) {r : Register}
    (hr : r ∈ i.registers) : r ∈ action.registers := by
  cases action with
  | branch c type left right label =>
      obtain ⟨t, -, rfl⟩ := Option.map_eq_some_iff.1 h
      cases i <;> simp_all [decoded, opcode, operands, Instruction.registers, Action.registers]
  | jump label =>
      obtain ⟨t, -, rfl⟩ := Option.map_eq_some_iff.1 h
      cases i <;> simp_all [decoded, opcode, Instruction.registers]
  | _ =>
      cases Option.some.inj h
      cases i <;> simp_all [decoded, opcode, operands, Instruction.registers, Action.registers]

/-! ## Images -/

section Images

variable {procedures : List Procedure} {image : Image}

/-- Every instruction that a sweep finds in an image is one of a line. -/
theorem exists_action_of_mem_sweep (h : assembleProgram procedures = .ok image) {a : Nat}
    {i : Instruction} (hi : (a, i) ∈ (sweep image.code).instructions) :
    ∃ l ∈ linesOf procedures, ∃ action, l.statement.action? = some action ∧ ∃ shown,
      action.lowering? (labelAddress? (linesOf procedures) l.procedure) = some shown ∧
        decoded (a, i) ∈ shown := by
  obtain ⟨instructions, hcode, hemits⟩ := emits_of_assembleProgram h
  rw [hcode, sweep_encodeAll] at hi
  obtain ⟨l, hl, shown, hshown, hmem⟩ := hemits.exists_line hi
  obtain ⟨action, haction, hlowering⟩ := Option.bind_eq_some_iff.1 hshown
  exact ⟨l, hl, action, haction, shown, hlowering, hmem⟩

theorem boundary_of_assembleProgram (h : assembleProgram procedures = .ok image)
    (hfits : image.code.length < UInt64.size) (k : Nat) :
    Boundary image.code (UInt64.ofNat (addressOf (linesOf procedures) k)).toNat := by
  obtain ⟨instructions, hcode, hemits⟩ := emits_of_assembleProgram h
  have hle := addressOf_le (linesOf procedures) k
  rw [← hemits.totalSize_eq, ← length_encodeAll, ← hcode] at hle
  rw [UInt64.toNat_ofNat_of_lt' (Nat.lt_of_le_of_lt hle hfits), hcode]
  exact hemits.boundary k

/-- The code of a program that leaves `ip` alone is closed. -/
theorem closedCode_of_assembleProgram (h : assembleProgram procedures = .ok image)
    (hkeeps : KeepsIp procedures) (hfits : image.code.length < UInt64.size) :
    ClosedCode image.code := by
  obtain ⟨instructions, hcode, -⟩ := emits_of_assembleProgram h
  have hsweep : sweep image.code = ⟨placed 0 instructions, image.code.length, []⟩ := by
    rw [hcode, sweep_encodeAll]
  refine ⟨?_, hfits, fun a i hi t ht => ?_, fun a i hi hwritten => ?_⟩
  · have hcovers := covers_sweep image.code
    rwa [congrArg Sweep.stop hsweep] at hcovers
  · obtain ⟨l, -, action, -, shown, hlowering, hmem⟩ := exists_action_of_mem_sweep h hi
    obtain ⟨label, hlabel⟩ :=
      action.exists_label_of_target_mem hlowering hmem (target_mem_operands ht)
    obtain ⟨k, -, rfl⟩ := Option.map_eq_some_iff.1 hlabel
    exact boundary_of_assembleProgram h hfits k
  · obtain ⟨l, hl, action, haction, shown, hlowering, hmem⟩ := exists_action_of_mem_sweep h hi
    refine hkeeps.written?_ne hl ?_
    rw [Statement.written?, haction, Option.bind_some]
    exact action.written?_of_mem hlowering hmem hwritten

/-- **Assembled code does not go wrong.** A machine that starts at a procedure of a program that
leaves `ip` alone always stands where an instruction starts or where the code ends, whatever its
registers hold; and if it faults it has run past the end, or it divides by zero. The code must fit
into the addresses of the machine. -/
theorem after_stands_on_boundary (h : assembleProgram procedures = .ok image)
    (hkeeps : KeepsIp procedures) (hfits : image.code.length < UInt64.size)
    {e : Entry} (he : e ∈ image.procedures) (m : Machine) (hm : m.status = .running)
    (hip : m.ip = e.address) (n : Nat) :
    let last := m.after image.code n
    let swept := (sweep image.code).instructions
    (last.ip.toNat = image.code.length ∨ ∃ i, (last.ip.toNat, i) ∈ swept) ∧
      (last.status = .faulted → last.lastAddress.toNat = image.code.length ∨
        ∃ i, (last.lastAddress.toNat, i) ∈ swept ∧ i.DividesByZero last) := by
  intro last swept
  have hcode := closedCode_of_assembleProgram h hkeeps hfits
  have hstart : Boundary image.code m.ip.toNat := by
    rw [procedures_of_assembleProgram h] at he
    obtain ⟨k, hk, rfl⟩ := List.mem_mapIdx.1 he
    rw [hip]
    exact boundary_of_assembleProgram h hfits _
  have hcontained : m.Contained image.code := ⟨hstart, fun hfault => by simp [hm] at hfault⟩
  have hlast := hcontained.after hcode n
  exact ⟨hlast.boundary, hlast.fault⟩

end Images

/-- Four steps from the start of `main` the machine stands between the halves of the branch. -/
theorem countdown_stands_on_boundary :
    let last := Machine.initial.after countdownImage.code 4
    KeepsIp countdown ∧ last.ip = 12 ∧ Boundary countdownImage.code last.ip.toNat := by
  intro last
  have hkeeps : KeepsIp countdown := by decide
  have hmain : (⟨"main", 0⟩ : Entry) ∈ countdownImage.procedures := by decide
  have himage : assembleProgram countdown = .ok countdownImage := rfl
  have hlast := after_stands_on_boundary himage hkeeps (by decide) hmain Machine.initial rfl rfl 4
  exact ⟨hkeeps, rfl, hlast.1⟩

end RegisterMachine
