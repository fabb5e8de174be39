import RegisterMachine.Machine
import RegisterMachine.Proofs.Word

/-!
# RegisterMachine.Proofs.Machine.Step

The machine reads an instruction field by field and the decoder takes it from a slice of the code.
Both read the same instructions, so a step is what the decoded instruction means.

* `Fetch.result?_instruction` -- the two readers agree, and a whole instruction moves
  the machine by its size;
* `step_of_decodeAt?` -- a step carries out the decoded instruction;
* `Instruction.Means` -- what an instruction does to registers, flag and status, in terms of the
  numbers that the operands' low bits stand for;
* `step_agrees_with_decodeAt?` -- a step faults where nothing decodes and on a division by zero, and
  does what the instruction means everywhere else.
-/

namespace RegisterMachine

/-! ## Two readers -/

namespace Instruction

/-- The instruction of an opcode whose fields stand at the front of some bytes. -/
def readFields? (op : Opcode) (bytes : List UInt8) : Option Instruction :=
  let fields := bytes.take (op.shape.size - 1)
  if fields.length = op.shape.size - 1 then ofFields? op fields else none

theorem decode?_cons (b : UInt8) (rest : List UInt8) :
    decode? (b :: rest) = (Opcode.ofByte? b).bind (readFields? · rest) := by
  rw [decode?]
  cases Opcode.ofByte? b <;> rfl

/-- A decoded instruction has the opcode that it was read with. -/
theorem opcode_of_readFields? {op : Opcode} {bytes : List UInt8} {i : Instruction}
    (h : readFields? op bytes = some i) : i.opcode = op := by
  rw [readFields?] at h
  split at h
  · cases op with
    | illegal => simp [ofFields?] at h
    | load w =>
        simp only [ofFields?] at h
        split at h
        · contradiction
        · obtain ⟨r, -, rfl⟩ := Option.map_eq_some_iff.1 h
          rfl
    | alu op w =>
        obtain ⟨⟨a, b⟩, -, rfl⟩ := Option.map_eq_some_iff.1 h
        rfl
    | compare signed w =>
        obtain ⟨⟨a, b⟩, -, rfl⟩ := Option.map_eq_some_iff.1 h
        rfl
    | jump => exact Option.some.inj h ▸ rfl
    | jumpIf c => exact Option.some.inj h ▸ rfl
    | halt => exact Option.some.inj h ▸ rfl
  · contradiction

end Instruction

namespace Fetch

/-- What is read and the address behind it, if the read does not fail. -/
def result? {α : Type} (x : Fetch α) (address : Nat) : Option (α × Nat) :=
  (x.run address).1.map (·, (x.run address).2)

theorem run_of_result?_eq_some {α : Type} {x : Fetch α} {address reached : Nat} {a : α}
    (h : x.result? address = some (a, reached)) : x.run address = (some a, reached) := by
  obtain ⟨b, hb, heq⟩ := Option.map_eq_some_iff.1 h
  obtain ⟨rfl, rfl⟩ := Prod.mk.inj heq
  exact Prod.ext hb rfl

theorem fst_run_of_result?_eq_none {α : Type} {x : Fetch α} {address : Nat}
    (h : x.result? address = none) : (x.run address).1 = none :=
  Option.map_eq_none_iff.1 h

@[simp]
theorem result?_pure {α : Type} (a : α) (address : Nat) :
    (pure a : Fetch α).result? address = some (a, address) := rfl

@[simp]
theorem result?_fail {α : Type} (address : Nat) : (fail : Fetch α).result? address = none := rfl

@[simp]
theorem result?_bind {α β : Type} (x : Fetch α) (f : α → Fetch β) (address : Nat) :
    (x >>= f).result? address = (x.result? address).bind fun (a, reached) =>
      (f a).result? reached := by
  simp only [result?, run_bind]
  split
  next a reached h => simp [h]
  next reached h => simp [h]

@[simp]
theorem result?_number (code : List UInt8) (n address : Nat) :
    (number code n).result? address =
      if ((code.drop address).take n).length = n then
        some (ofLittleEndian ((code.drop address).take n), address + n)
      else none := by
  rw [result?, run_number]
  split <;> rfl

@[simp]
theorem result?_named {α : Type} (code : List UInt8) (ofByte? : UInt8 → Option α) (address : Nat) :
    (named code ofByte?).result? address =
      match code.drop address with
      | [] => none
      | b :: _ => (ofByte? b).map (·, address + 1) := by
  rw [result?, run_named]
  cases code.drop address <;> rfl

theorem drop_succ_of_drop_eq_cons {code : List UInt8} {address : Nat} {b : UInt8}
    {rest : List UInt8} (h : code.drop address = b :: rest) : code.drop (address + 1) = rest := by
  rw [← List.drop_drop, h, List.drop_succ_cons, List.drop_zero]

/-- Two registers are read one after the other. -/
theorem result?_registerPair (code : List UInt8) (address : Nat)
    (f : Register → Register → Instruction) :
    (do let a ← register code; let b ← register code; return f a b : Fetch Instruction).result?
        address =
      (if ((code.drop address).take 2).length = 2 then
        (Instruction.registerPair? ((code.drop address).take 2)).map fun (a, b) => f a b
      else none).map (·, address + 2) := by
  simp only [register, result?_bind, result?_pure, result?_named]
  cases h : code.drop address with
  | nil => rfl
  | cons a rest =>
      have hrest := drop_succ_of_drop_eq_cons h
      cases ha : Register.ofByte? a with
      | none => cases rest <;> simp [ha, Instruction.registerPair?]
      | some r =>
          cases rest with
          | nil => simp [hrest]
          | cons b rest' =>
              cases hb : Register.ofByte? b <;> simp [ha, hb, hrest, Instruction.registerPair?]

/-- The offset of a jump is read at once. -/
theorem result?_offset (code : List UInt8) (address : Nat) (f : UInt64 → Instruction) :
    (do let d ← offset code; return f d : Fetch Instruction).result? address =
      (if ((code.drop address).take 8).length = 8 then
        some (f (Instruction.offsetOf ((code.drop address).take 8)))
      else none).map (·, address + 8) := by
  simp only [offset, result?_bind, result?_pure, result?_number]
  split <;> rfl

/-- The fields of a load: a register, and then a constant that is read whole or not at all. -/
theorem result?_load (code : List UInt8) (address : Nat) (w : Width) :
    (afterOpcode code (.load w)).result? address =
      (Instruction.readFields? (.load w) (code.drop address)).map (·, address + (1 + w.bytes)) := by
  have hsize : (Opcode.load w).shape.size - 1 = w.bytes + 1 := by
    simp only [Opcode.shape, Shape.size]
    omega
  simp only [afterOpcode, register, result?_bind, result?_pure, result?_named, result?_number,
    Instruction.readFields?, hsize]
  cases h : code.drop address with
  | nil => simp
  | cons r rest =>
      rw [List.take_succ_cons, List.length_cons]
      cases hr : Register.ofByte? r with
      | none => simp [Instruction.ofFields?, hr]
      | some destination =>
          simp only [hr, Option.map_some, Option.bind_some, drop_succ_of_drop_eq_cons h,
            Nat.add_right_cancel_iff]
          split
          · simp only [Option.bind_some, Instruction.ofFields?, hr, Option.map_some, Nat.add_assoc]
          · rfl

/-- What follows an opcode is read as the decoder reads it. -/
theorem result?_afterOpcode (code : List UInt8) (op : Opcode) (address : Nat) :
    (afterOpcode code op).result? address =
      (Instruction.readFields? op (code.drop address)).map (·, address + (op.shape.size - 1)) := by
  cases op with
  | illegal => rfl
  | load w =>
      have hsize : (Opcode.load w).shape.size - 1 = 1 + w.bytes := by
        simp only [Opcode.shape, Shape.size]
        omega
      rw [result?_load, hsize]
  | alu op w => exact result?_registerPair code address (.alu op w)
  | compare signed w => exact result?_registerPair code address (.compare signed w)
  | jump => exact result?_offset code address .jump
  | jumpIf c => exact result?_offset code address (.jumpIf c)
  | halt =>
    simp [afterOpcode, Instruction.readFields?, Opcode.shape, Shape.size, Instruction.ofFields?]

/-- The machine reads what the decoder decodes, and stands behind it then. -/
theorem result?_instruction (code : List UInt8) (address : Nat) :
    (instruction code).result? address =
      (Instruction.decodeAt? code address).map fun i => (i, address + i.size) := by
  rw [instruction, result?_bind, result?_named, Instruction.decodeAt?]
  cases h : code.drop address with
  | nil => rfl
  | cons b rest =>
      rw [Instruction.decode?_cons]
      cases hb : Opcode.ofByte? b with
      | none => simp [hb]
      | some op =>
          simp only [hb, Option.map_some, Option.bind_some, result?_afterOpcode,
            drop_succ_of_drop_eq_cons h]
          cases hi : Instruction.readFields? op rest with
          | none => rfl
          | some i =>
              have hop := Instruction.opcode_of_readFields? hi
              have hsize : 0 < i.size := i.size_pos
              have hreach : address + 1 + (op.shape.size - 1) = address + i.size := by
                rw [Instruction.size, hop] at hsize ⊢
                omega
              simp only [Option.map_some, hreach]

end Fetch

/-! ## What a step carries out -/

namespace Machine

variable {code : List UInt8} {m : Machine} {i : Instruction}

/-- The machine as an instruction finds it: `ip` stands past the instruction. -/
def past (m : Machine) (i : Instruction) : Machine :=
  { m.setIp (UInt64.ofNat (m.ip.toNat + i.size)) with lastAddress := m.ip }

@[simp]
theorem ip_setIp (m : Machine) (address : UInt64) : (m.setIp address).ip = address :=
  Registers.get_set_self _ _ _

@[simp]
theorem ip_past (m : Machine) (i : Instruction) :
    (m.past i).ip = UInt64.ofNat (m.ip.toNat + i.size) :=
  Registers.get_set_self _ _ _

theorem get_past_of_ne (m : Machine) (i : Instruction) {r : Register} (hr : r ≠ .ip) :
    (m.past i).registers.get r = m.registers.get r :=
  Registers.get_set_of_ne _ (Ne.symm hr) _

theorem ip_put (m : Machine) (w : Width) {r : Register} (hr : r ≠ .ip) (v : Int) :
    ({ m with registers := m.registers.put w r v } : Machine).ip = m.ip :=
  Registers.get_set_of_ne _ hr _

/-- A step carries out the instruction that decodes at `ip`, or faults if it has no effect. -/
theorem step_of_decodeAt? (hm : m.status = .running)
    (hi : Instruction.decodeAt? code m.ip.toNat = some i) :
    m.step code = (i.execute? (m.past i)).getD { m.past i with status := .faulted } := by
  have hread : (Fetch.instruction code).result? m.ip.toNat = some (i, m.ip.toNat + i.size) := by
    rw [Fetch.result?_instruction, hi, Option.map_some]
  rw [step, if_pos hm, stepRunning, Fetch.run_of_result?_eq_some hread]
  simp only [Option.bind_some, past]
  split
  next m' h => rw [h, Option.getD_some]
  next h => rw [h, Option.getD_none]

/-- Where nothing decodes a step faults, and only `ip` has moved. -/
theorem step_of_decodeAt?_eq_none (hm : m.status = .running)
    (hi : Instruction.decodeAt? code m.ip.toNat = none) :
    ∃ reached, m.step code = { m.setIp reached with status := .faulted, lastAddress := m.ip } := by
  have hread : (Fetch.instruction code).result? m.ip.toNat = none := by
    rw [Fetch.result?_instruction, hi, Option.map_none]
  refine ⟨UInt64.ofNat ((Fetch.instruction code).run m.ip.toNat).2, ?_⟩
  rw [step, if_pos hm, stepRunning]
  simp only [Fetch.fst_run_of_result?_eq_none hread, Option.bind_none]

/-- Past the end of the code a step faults on the spot. -/
theorem step_of_length_le (hm : m.status = .running) (hlen : code.length ≤ m.ip.toNat) :
    m.step code = { m with status := .faulted, lastAddress := m.ip } := by
  have hdrop : code.drop m.ip.toNat = [] := List.drop_eq_nil_of_le hlen
  have hrun : (Fetch.instruction code).run m.ip.toNat = (none, m.ip.toNat) := by
    rw [Fetch.instruction, Fetch.run_bind, Fetch.run_named, hdrop]
  have hset : m.setIp m.ip = m := by
    obtain ⟨⟨cells⟩, flag, status, lastAddress⟩ := m
    simp [setIp, ip, Registers.set, Registers.get]
  rw [step, if_pos hm, stepRunning, hrun]
  simp only [Option.bind_none, UInt64.ofNat_toNat, hset]

/-- A machine that does not run stays as it is. -/
theorem step_of_not_running (hm : m.status ≠ .running) : m.step code = m :=
  if_neg hm

end Machine

/-! ## What instructions mean -/

/-- The exact result of an operation in the integers; a quotient is taken toward zero. -/
def AluOp.exact : AluOp → Int → Int → Int
  | .add, a, b => a + b
  | .sub, a, b => a - b
  | .mul, a, b => a * b
  | .imul, a, b => a * b
  | .div, a, b => a.tdiv b
  | .idiv, a, b => a.tdiv b

/-- One machine is another with an integer in the low bits of a register: the upper bits of that
register and everything else are the same. -/
structure Machine.Wrote (w : Width) (r : Register) (v : Int) (before after : Machine) : Prop where
  replaced : w.Replaces (before.registers.get r) v (after.registers.get r)
  others : ∀ s, s ≠ r → after.registers.get s = before.registers.get s
  flag : after.flag = before.flag
  status : after.status = before.status
  lastAddress : after.lastAddress = before.lastAddress

namespace Instruction

/-- The instruction is a division, and the low bits of its divisor are zero. -/
def DividesByZero (m : Machine) : Instruction → Prop
  | .alu op w _ source => (op = .div ∨ op = .idiv) ∧ w.lowBits (m.registers.get source) = 0
  | _ => False

/-- What an instruction at an address makes of a machine whose `ip` stands past it. -/
def Means (address : Nat) (before after : Machine) (i : Instruction) : Prop :=
  let value (signed : Bool) (w : Width) (r : Register) : Int :=
    IntType.value ⟨signed, w⟩ (before.registers.get r)
  match i with
  | .load w destination constant => before.Wrote w destination constant.toNat after
  | .alu op w destination source =>
    before.Wrote w destination
      (op.exact (value op.signed w destination) (value op.signed w source)) after
  | .compare signed w left right =>
    after = { before with flag := Ord.compare (value signed w left) (value signed w right) }
  | .jump _ => some after = (i.target? address).map before.setIp
  | .jumpIf c _ =>
    if c.holds before.flag then some after = (i.target? address).map before.setIp
    else after = before
  | .halt => after = { before with status := .halted }

end Instruction

theorem IntType.value_eq_zero_iff (t : IntType) (cell : UInt64) :
    t.value cell = 0 ↔ t.width.lowBits cell = 0 := by
  change _ ↔ t.width.lowBits cell = 0#t.width.bits
  rw [IntType.value]
  cases t.signed with
  | false =>
      simp only [Bool.false_eq_true, if_false]
      rw [← BitVec.toNat_inj, BitVec.toNat_ofNat, Nat.zero_mod]
      omega
  | true =>
      simp only [if_true]
      rw [← BitVec.toInt_inj, BitVec.toInt_zero]

/-- An operation has its exact result unless it divides by zero. -/
theorem AluOp.result?_arithmetic (op : AluOp) (a b : Int) :
    op.arithmetic.result? a b =
      if (op = .div ∨ op = .idiv) ∧ b = 0 then none else some (op.exact a b) := by
  cases op <;> simp [AluOp.arithmetic, Arithmetic.result?, AluOp.exact]

theorem Machine.wrote_put (m : Machine) (w : Width) (r : Register) (v : Int) :
    m.Wrote w r v { m with registers := m.registers.put w r v } where
  replaced := by
    rw [Registers.put, Registers.get_set_self]
    exact w.replaces_store _ v
  others s hs := Registers.get_set_of_ne _ (Ne.symm hs) _
  flag := rfl
  status := rfl
  lastAddress := rfl

namespace Instruction

variable {m m' : Machine} {i : Instruction}

/-- Only a division by zero has no effect. -/
theorem execute?_eq_none_iff : i.execute? m = none ↔ i.DividesByZero m := by
  cases i with
  | alu op w destination source =>
      simp only [execute?, DividesByZero, Option.map_eq_none_iff, AluOp.result?_arithmetic,
        Registers.view, IntType.view_eq_value, IntType.value_eq_zero_iff]
      split
      next h => exact iff_of_true rfl h
      next h => exact iff_of_false (Option.some_ne_none _) h
  | _ => simp [execute?, DividesByZero]

/-- A jump goes from the end of the instruction. -/
theorem setIp_targetAddress (m : Machine) (i : Instruction) (offset : UInt64) :
    (m.past i).skip offset = (m.past i).setIp (targetAddress m.ip.toNat i.size offset) := by
  rw [Machine.skip, targetAddress]
  simp [Machine.past, Machine.ip, Machine.setIp]

/-- An operation of the machine has the effect of the operation of the program that it stands for.
-/
theorem execute?_ofArithmetic (m : Machine) (op : Arithmetic) (type : IntType)
    (destination source : Register) :
    (alu (AluOp.ofArithmetic type.signed op) type.width destination source).execute? m =
      (op.result? (m.registers.view type destination) (m.registers.view type source)).map fun v =>
        { m with registers := m.registers.put type.width destination v } := by
  have h := map_store_ofArithmetic type op (m.registers.get destination) (m.registers.get source)
    (m.registers.get destination)
  have hset := congrArg (Option.map fun cell =>
    { m with registers := m.registers.set destination cell }) h
  simp only [Option.map_map] at hset
  exact hset

/-- The effect of an instruction is what it means. -/
theorem means_of_execute? (h : i.execute? (m.past i) = some m') :
    i.Means m.ip.toNat (m.past i) m' := by
  cases i with
  | load w destination constant => exact Option.some.inj h ▸ Machine.wrote_put ..
  | alu op w destination source =>
      obtain ⟨v, hv, rfl⟩ := Option.map_eq_some_iff.1 h
      rw [AluOp.result?_arithmetic] at hv
      split at hv
      · contradiction
      · simp only [Registers.view, IntType.view_eq_value] at hv
        exact Option.some.inj hv ▸ Machine.wrote_put ..
  | compare signed w left right =>
      simp only [execute?, Registers.view, IntType.view_eq_value] at h
      exact (Option.some.inj h).symm
  | jump offset =>
      rw [execute?, setIp_targetAddress] at h
      exact h.symm
  | jumpIf c offset =>
      simp only [execute?, setIp_targetAddress] at h
      have h := Option.some.inj h
      by_cases hc : c.holds (m.past (.jumpIf c offset)).flag = true
      · rw [if_pos hc] at h
        simp only [Means, if_pos hc]
        exact congrArg some h.symm
      · rw [if_neg hc] at h
        simp only [Means, if_neg hc]
        exact h.symm
  | halt => exact (Option.some.inj h).symm

/-- Effects do not fault. -/
theorem status_of_execute? (hm : m.status = .running) (h : i.execute? m = some m') :
    m'.status ≠ .faulted := by
  cases i with
  | alu op w destination source =>
      obtain ⟨v, -, rfl⟩ := Option.map_eq_some_iff.1 h
      simp [hm]
  | jumpIf c offset =>
      have h := Option.some.inj h
      split at h <;> simp [← h, hm, Machine.skip, Machine.setIp]
  | _ => simp [← Option.some.inj h, hm, Machine.skip, Machine.setIp]

end Instruction

/-! ## Steps -/

/-- A conditional jump goes on at its target or behind itself. -/
theorem Machine.step_jumpIf {code : List UInt8} {m : Machine} {c : Condition} {offset : UInt64}
    (hm : m.status = .running)
    (hj : Instruction.decodeAt? code m.ip.toNat = some (.jumpIf c offset)) :
    m.step code =
      if c.holds m.flag then
        (m.past (.jumpIf c offset)).setIp
          (Instruction.targetAddress m.ip.toNat Shape.relative.size offset)
      else m.past (.jumpIf c offset) := by
  rw [step_of_decodeAt? hm hj, Instruction.execute?, Option.getD_some,
    Instruction.setIp_targetAddress]
  rfl

/-- **Decoder and machine agree** on every code, at every address and in every state of the
registers: where nothing decodes a step faults; where an instruction decodes it faults exactly on a
division by zero, and otherwise does what the instruction means with `ip` past it. -/
theorem step_agrees_with_decodeAt? (code : List UInt8) (m : Machine) (hm : m.status = .running) :
    match Instruction.decodeAt? code m.ip.toNat with
    | none => (m.step code).status = .faulted
    | some i =>
      ((m.step code).status = .faulted ↔ i.DividesByZero (m.past i)) ∧
        (¬ i.DividesByZero (m.past i) → i.Means m.ip.toNat (m.past i) (m.step code)) := by
  split
  next h =>
    obtain ⟨reached, hstep⟩ := Machine.step_of_decodeAt?_eq_none hm h
    rw [hstep]
  next i h =>
    rw [Machine.step_of_decodeAt? hm h]
    cases hi : i.execute? (m.past i) with
    | none =>
        have hzero := Instruction.execute?_eq_none_iff.1 hi
        exact ⟨iff_of_true rfl hzero, fun hne => absurd hzero hne⟩
    | some m' =>
        have hzero : ¬ i.DividesByZero (m.past i) := fun hz => by
          rw [Instruction.execute?_eq_none_iff.2 hz] at hi
          contradiction
        have hrun : (m.past i).status = .running := hm
        exact ⟨iff_of_false (Instruction.status_of_execute? hrun hi) hzero,
          fun _ => Instruction.means_of_execute? hi⟩

/-- A division by `ip` divides by the address of the next instruction, here `0x100`. -/
theorem step_divides_by_ip :
    let code := List.replicate 253 0 ++ [17, 0, 8]
    let m := Machine.initial.setIp 253
    m.status = .running ∧ (m.step code).status = .faulted := by
  intro code m
  have hi : Instruction.decodeAt? code m.ip.toNat = some (.alu .div .w8 .r0 .ip) := rfl
  have h := step_agrees_with_decodeAt? code m rfl
  rw [hi] at h
  exact ⟨rfl, h.1.2 ⟨.inl rfl, by decide⟩⟩

end RegisterMachine
