import RegisterMachine.Proofs.Machine.Run

/-!
# RegisterMachine.Proofs.Machine.Fault

What a fault leaves behind, and what is reported of it.

* `bytesRead` is what a machine has read of an instruction that faults: registers are read up to the
  first byte that names none, and a constant or an offset is read whole or not at all;
* `step_of_faulted` -- a step that faults has moved `ip` past these bytes and done nothing else;
* `Opcode.Defect` is what may be wrong with an instruction that has a legal opcode,
  and `status_step_eq_faulted_iff` says that a step faults for these reasons and
  for the lack of an opcode;
* `faultDetail_eq_ended_iff`, `faultDetail_eq_illegal_iff`, `faultDetail_eq_failed_iff` -- the three
  details of a report exclude each other;
* `fault_keeps_data_and_is_reported` puts steps and reports together.
-/

namespace RegisterMachine

/-! ## What was read -/

/-- The number of registers that follow an opcode. -/
def Shape.registers : Shape → Nat
  | .bare | .relative => 0
  | .registerImmediate _ => 1
  | .registerRegister => 2

/-- The opcode of a byte, if it is one that can be carried out. -/
def Opcode.legal? (b : UInt8) : Option Opcode :=
  (Opcode.ofByte? b).filter (· ≠ .illegal)

/-- The bytes that are read as so many registers, up to the first that names none. -/
def registersRead : (registers : Nat) → List UInt8 → Nat
  | 0, _ => 0
  | _ + 1, [] => 0
  | n + 1, b :: rest => if (Register.ofByte? b).isSome then 1 + registersRead n rest else 1

/-- The bytes that are read of an instruction before it faults. -/
def bytesRead : List UInt8 → Nat
  | [] => 0
  | b :: rest =>
    match Opcode.legal? b with
    | none => 1
    | some op => 1 + registersRead op.shape.registers rest

theorem Opcode.legal?_eq_some_iff {b : UInt8} {op : Opcode} :
    Opcode.legal? b = some op ↔ Opcode.ofByte? b = some op ∧ op ≠ .illegal := by
  simp [legal?, Option.filter_eq_some_iff]

theorem Opcode.legal?_eq_none_iff {b : UInt8} :
    Opcode.legal? b = none ↔ Opcode.ofByte? b = none ∨ Opcode.ofByte? b = some .illegal := by
  cases h : Opcode.ofByte? b with
  | none => simp [legal?, h]
  | some op => simp [legal?, h]

theorem registersRead_le (n : Nat) (bytes : List UInt8) : registersRead n bytes ≤ n := by
  induction n generalizing bytes with
  | zero => simp [registersRead]
  | succ n ih =>
      cases bytes with
      | nil => simp [registersRead]
      | cons b rest =>
          have hrest := ih rest
          rw [registersRead]
          split <;> omega

/-- Where no byte names none, all registers are read. -/
theorem registersRead_eq {n : Nat} {bytes : List UInt8} (hlength : n ≤ bytes.length)
    (h : ∀ b ∈ bytes.take n, (Register.ofByte? b).isSome) : registersRead n bytes = n := by
  induction n generalizing bytes with
  | zero => simp [registersRead]
  | succ n ih =>
      cases bytes with
      | nil => contradiction
      | cons b rest =>
          rw [List.take_succ_cons] at h
          have hb := h b List.mem_cons_self
          have hrest := ih (Nat.le_of_succ_le_succ hlength)
            fun b' hb' => h b' (List.mem_cons_of_mem b hb')
          rw [registersRead, if_pos hb, hrest, Nat.add_comm]

theorem Shape.registers_le (s : Shape) : s.registers ≤ 2 := by
  cases s <;> simp [registers]

/-- An opcode and two registers at most are read before a fault. -/
theorem bytesRead_le (bytes : List UInt8) : bytesRead bytes ≤ 3 := by
  cases bytes with
  | nil => simp [bytesRead]
  | cons b rest =>
      rw [bytesRead]
      split
      next => omega
      next op _ =>
        have hread := registersRead_le op.shape.registers rest
        have hshape := op.shape.registers_le
        omega

namespace Fetch

variable {code : List UInt8} {address : Nat}

theorem run_register (code : List UInt8) (address : Nat) :
    (register code).run address =
      match code.drop address with
      | [] => (none, address)
      | b :: _ => (Register.ofByte? b, address + 1) :=
  run_named code Register.ofByte? address

theorem run_bind_pure {α β : Type} (x : Fetch α) (f : α → β) (address : Nat) :
    (x >>= fun a => pure (f a)).run address = ((x.run address).1.map f, (x.run address).2) := by
  rw [run_bind]
  split
  next a reached h => rw [h, run_pure, Option.map_some]
  next reached h => rw [h, Option.map_none]

/-- A number that is not read whole moves nothing. -/
theorem snd_run_number {n : Nat} (h : ((number code n).run address).1 = none) :
    ((number code n).run address).2 = address := by
  rw [run_number] at h ⊢
  split at h
  next => contradiction
  next hlength => rw [if_neg hlength]

/-- Neither does the offset of a jump. -/
theorem snd_run_offset {f : UInt64 → Instruction}
    (h : ((do let d ← offset code; return f d : Fetch Instruction).run address).1 = none) :
    ((do let d ← offset code; return f d : Fetch Instruction).run address).2 = address := by
  rw [run_bind_pure, offset, run_bind_pure] at h ⊢
  simp only [Option.map_eq_none_iff] at h
  exact snd_run_number h

/-- Two registers are read up to the first byte that names none. -/
theorem snd_run_registerPair {f : Register → Register → Instruction}
    (h : ((do let a ← register code; let b ← register code; return f a b : Fetch Instruction).run
      address).1 = none) :
    ((do let a ← register code; let b ← register code; return f a b : Fetch Instruction).run
      address).2 = address + registersRead 2 (code.drop address) := by
  simp only [run_bind, run_register, run_pure] at h ⊢
  cases hdrop : code.drop address with
  | nil => rfl
  | cons a rest =>
      have hrest := drop_succ_of_drop_eq_cons hdrop
      cases ha : Register.ofByte? a with
      | none => simp [registersRead, ha]
      | some r =>
          cases rest with
          | nil => simp [registersRead, ha, hrest]
          | cons b rest =>
              cases hb : Register.ofByte? b with
              | none => simp [registersRead, ha, hb, hrest]
              | some s => simp [hdrop, ha, hb, hrest] at h

/-- A load fails at its register or behind it. -/
theorem snd_run_load {w : Width} (h : ((afterOpcode code (.load w)).run address).1 = none) :
    ((afterOpcode code (.load w)).run address).2 =
      address + registersRead 1 (code.drop address) := by
  rw [afterOpcode, run_bind, run_register] at h ⊢
  cases hdrop : code.drop address with
  | nil => rfl
  | cons b rest =>
      rw [hdrop] at h
      cases hb : Register.ofByte? b with
      | none => simp [registersRead, hb]
      | some r =>
          simp only [hb, run_bind_pure, Option.map_eq_none_iff] at h ⊢
          simp [snd_run_number h, registersRead, hb]

/-- Behind a legal opcode registers are read up to the first byte that names
none, and nothing else. -/
theorem snd_run_afterOpcode {op : Opcode} (hop : op ≠ .illegal)
    (h : ((afterOpcode code op).run address).1 = none) :
    ((afterOpcode code op).run address).2 =
      address + registersRead op.shape.registers (code.drop address) := by
  cases op with
  | illegal => contradiction
  | load w => exact snd_run_load h
  | alu op w => exact snd_run_registerPair h
  | compare signed w => exact snd_run_registerPair h
  | jump => exact snd_run_offset h
  | jumpIf c => exact snd_run_offset h
  | halt => contradiction

/-- A machine that cannot read an instruction stands behind the bytes that it has read of it. -/
theorem snd_run_instruction (h : ((instruction code).run address).1 = none) :
    ((instruction code).run address).2 = address + bytesRead (code.drop address) := by
  rw [instruction, run_bind, run_named] at h ⊢
  cases hdrop : code.drop address with
  | nil => rfl
  | cons b rest =>
      rw [hdrop] at h
      cases hb : Opcode.ofByte? b with
      | none => simp [bytesRead, hb, Opcode.legal?_eq_none_iff.2 (.inl hb)]
      | some op =>
          simp only [hb] at h ⊢
          by_cases hop : op = .illegal
          · rw [hop] at hb ⊢
            simp [bytesRead, Opcode.legal?_eq_none_iff.2 (.inr hb), afterOpcode]
          · have hread := snd_run_afterOpcode hop h
            rw [drop_succ_of_drop_eq_cons hdrop] at hread
            simp [hread, bytesRead, Opcode.legal?_eq_some_iff.2 ⟨hb, hop⟩, Nat.add_assoc]

end Fetch

/-! ## Instructions that cannot be read -/

namespace Instruction

/-- Two bytes are those of registers exactly if each of them names one. -/
theorem isSome_registerPair?_iff {bytes : List UInt8} (h : 2 ≤ bytes.length) :
    (registerPair? (bytes.take 2)).isSome ↔ ∀ b ∈ bytes.take 2, (Register.ofByte? b).isSome := by
  obtain ⟨a, b, rest, rfl⟩ : ∃ a b rest, bytes = a :: b :: rest := by
    match bytes, h with
    | a :: b :: rest, _ => exact ⟨a, b, rest, rfl⟩
  cases ha : Register.ofByte? a <;> cases hb : Register.ofByte? b <;> simp [registerPair?, ha, hb]

/-- Fields are read exactly if there are enough bytes and each register byte names a register. -/
theorem isSome_readFields?_iff {op : Opcode} (hop : op ≠ .illegal) {bytes : List UInt8} :
    (readFields? op bytes).isSome ↔ op.shape.size - 1 ≤ bytes.length ∧
      ∀ b ∈ bytes.take op.shape.registers, (Register.ofByte? b).isSome := by
  have hlength : (bytes.take (op.shape.size - 1)).length = op.shape.size - 1 ↔
      op.shape.size - 1 ≤ bytes.length := by
    rw [List.length_take]
    omega
  rw [readFields?]
  by_cases hle : op.shape.size - 1 ≤ bytes.length
  · simp only [hlength.2 hle, if_true, hle, true_and]
    cases op with
    | illegal => contradiction
    | load w =>
        cases bytes with
        | nil => simp [Opcode.shape, Shape.size] at hle
        | cons b rest =>
            have hsize : (Opcode.load w).shape.size - 1 = w.bytes + 1 := by
              simp only [Opcode.shape, Shape.size]
              omega
            rw [hsize, List.take_succ_cons]
            simp [ofFields?, Opcode.shape, Shape.registers]
    | alu op w =>
        rw [ofFields?, Option.isSome_map]
        exact isSome_registerPair?_iff hle
    | compare signed w =>
        rw [ofFields?, Option.isSome_map]
        exact isSome_registerPair?_iff hle
    | jump => simp [ofFields?, Opcode.shape, Shape.registers]
    | jumpIf c => simp [ofFields?, Opcode.shape, Shape.registers]
    | halt => simp [ofFields?, Opcode.shape, Shape.registers]
  · simp only [hlength, hle, if_false, false_and, Option.isSome_none, Bool.false_eq_true]

/-- An instruction decodes exactly where a legal opcode stands, and behind it enough bytes of which
those of registers name some. -/
theorem isSome_decodeAt?_iff {code : List UInt8} {address : Nat} :
    (decodeAt? code address).isSome ↔
      ∃ b op, code[address]? = some b ∧ Opcode.legal? b = some op ∧
        address + op.shape.size ≤ code.length ∧
        ∀ b ∈ (code.drop (address + 1)).take op.shape.registers, (Register.ofByte? b).isSome := by
  have hfirst : code[address]? = (code.drop address).head? := by
    rw [List.head?_eq_getElem?, List.getElem?_drop, Nat.add_zero]
  have hlength := List.length_drop (i := address) (l := code)
  rw [decodeAt?, hfirst]
  cases hdrop : code.drop address with
  | nil => simp [decode?]
  | cons b rest =>
      rw [hdrop, List.length_cons] at hlength
      have hfits (op : Opcode) :
          op.shape.size - 1 ≤ rest.length ↔ address + op.shape.size ≤ code.length := by
        have hpos : 1 ≤ op.shape.size := by
          cases op.shape <;> simp [Shape.size]; omega
        omega
      rw [decode?_cons, Fetch.drop_succ_of_drop_eq_cons hdrop]
      cases hb : Opcode.ofByte? b with
      | none => simp [Opcode.legal?_eq_some_iff, hb]
      | some op =>
          by_cases hop : op = .illegal
          · simp [Opcode.legal?_eq_some_iff, hb, hop, readFields?, ofFields?]
          · simp [Opcode.legal?_eq_some_iff, hb, hop, isSome_readFields?_iff hop, hfits, and_assoc]

/-- An operation on registers is read whole before it can fault. -/
theorem bytesRead_of_decodeAt? {code : List UInt8} {address : Nat} {op : AluOp} {w : Width}
    {destination source : Register}
    (h : decodeAt? code address = some (.alu op w destination source)) :
    bytesRead (code.drop address) = Shape.registerRegister.size := by
  rw [decodeAt?] at h
  cases hdrop : code.drop address with
  | nil => simp [hdrop, decode?] at h
  | cons b rest =>
      rw [hdrop, decode?_cons] at h
      obtain ⟨op', hb, hfields⟩ := Option.bind_eq_some_iff.1 h
      have hop : op' = .alu op w := (opcode_of_readFields? hfields).symm
      subst hop
      have hsome : (readFields? (.alu op w) rest).isSome := by rw [hfields, Option.isSome_some]
      have hne : Opcode.alu op w ≠ .illegal := by simp
      obtain ⟨hlength, hregisters⟩ := (isSome_readFields?_iff hne).1 hsome
      have hlegal : Opcode.legal? b = some (.alu op w) := Opcode.legal?_eq_some_iff.2 ⟨hb, hne⟩
      have hread : registersRead 2 rest = 2 := registersRead_eq hlength hregisters
      simp only [bytesRead, hlegal]
      exact congrArg (1 + ·) hread

end Instruction

/-! ## Steps that fault -/

namespace Machine

variable {code : List UInt8} {m : Machine}

/-- All that a step does that faults is to move `ip` past what it has read. -/
theorem step_of_faulted (hm : m.status = .running) (h : (m.step code).status = .faulted) :
    m.step code =
      { m.setIp (UInt64.ofNat (m.ip.toNat + bytesRead (code.drop m.ip.toNat))) with
        status := .faulted, lastAddress := m.ip } := by
  cases hi : Instruction.decodeAt? code m.ip.toNat with
  | none =>
      have hread : ((Fetch.instruction code).run m.ip.toNat).1 = none := by
        refine Fetch.fst_run_of_result?_eq_none ?_
        rw [Fetch.result?_instruction, hi, Option.map_none]
      rw [step, if_pos hm, stepRunning]
      simp only [hread, Option.bind_none, Fetch.snd_run_instruction hread]
  | some i =>
      rw [step_of_decodeAt? hm hi] at h ⊢
      cases heffect : i.execute? (m.past i) with
      | none =>
          -- only a division has no effect, and nothing follows its registers
          cases i with
          | alu op w destination source =>
              rw [Option.getD_none, past, Instruction.bytesRead_of_decodeAt? hi]
              rfl
          | _ => exact absurd (Instruction.execute?_eq_none_iff.1 heffect) id
      | some m' =>
          have hrunning : (m.past i).status = .running := hm
          rw [heffect] at h
          exact absurd h (Instruction.status_of_execute? hrunning heffect)

end Machine

/-! ## Why a step faults -/

/-- What may be wrong with an instruction that has a legal opcode. -/
inductive Opcode.Defect (code : List UInt8) (m : Machine) (op : Opcode) : Prop
  /-- The code ends before the instruction does. -/
  | truncated (h : code.length < m.ip.toNat + op.shape.size)
  /-- A register byte names no register. -/
  | noRegister {b : UInt8} (hb : b ∈ (code.drop (m.ip.toNat + 1)).take op.shape.registers)
      (h : Register.ofByte? b = none)
  /-- The divisor is zero. -/
  | zeroDivisor {i : Instruction} (hi : Instruction.decodeAt? code m.ip.toNat = some i)
      (h : i.DividesByZero (m.past i))

namespace Machine

variable {code : List UInt8} {m : Machine}

theorem status_step_of_decodeAt? {i : Instruction} (hm : m.status = .running)
    (hi : Instruction.decodeAt? code m.ip.toNat = some i) :
    (m.step code).status = .faulted ↔ i.DividesByZero (m.past i) := by
  rw [step_of_decodeAt? hm hi, ← Instruction.execute?_eq_none_iff]
  cases heffect : i.execute? (m.past i) with
  | none => exact iff_of_true rfl rfl
  | some m' =>
      have hrunning : (m.past i).status = .running := hm
      exact iff_of_false (Instruction.status_of_execute? hrunning heffect) (Option.some_ne_none m')

/-- A step faults exactly if no legal opcode stands at `ip` or something is
wrong with its operands. -/
theorem status_step_eq_faulted_iff (hm : m.status = .running) :
    (m.step code).status = .faulted ↔
      ∀ b op, code[m.ip.toNat]? = some b → Opcode.legal? b = some op → op.Defect code m := by
  cases hi : Instruction.decodeAt? code m.ip.toNat with
  | none =>
      obtain ⟨reached, hstep⟩ := step_of_decodeAt?_eq_none hm hi
      refine iff_of_true (by rw [hstep]) fun b op hb hop => ?_
      by_cases hlength : m.ip.toNat + op.shape.size ≤ code.length
      · by_cases hregisters : ∃ b ∈ (code.drop (m.ip.toNat + 1)).take op.shape.registers,
            Register.ofByte? b = none
        · obtain ⟨b', hb', hnames⟩ := hregisters
          exact .noRegister hb' hnames
        · have hsome : (Instruction.decodeAt? code m.ip.toNat).isSome :=
            Instruction.isSome_decodeAt?_iff.2 ⟨b, op, hb, hop, hlength, fun b' hb' =>
              Option.isSome_iff_ne_none.2 fun hnone => hregisters ⟨b', hb', hnone⟩⟩
          simp [hi] at hsome
      · exact .truncated (Nat.lt_of_not_le hlength)
  | some i =>
      rw [status_step_of_decodeAt? hm hi]
      constructor
      · exact fun hzero b op _ _ => .zeroDivisor hi hzero
      · intro h
        have hsome : (Instruction.decodeAt? code m.ip.toNat).isSome := by simp [hi]
        obtain ⟨b, op, hb, hop, hlength, hregisters⟩ := Instruction.isSome_decodeAt?_iff.1 hsome
        cases h b op hb hop with
        | truncated hshort => exact absurd hlength (Nat.not_le_of_lt hshort)
        | noRegister hb' hnames => simpa [hnames] using hregisters _ hb'
        | zeroDivisor hi' hzero =>
            rw [hi] at hi'
            cases hi'
            exact hzero

end Machine

/-! ## Reports -/

section Reports

variable {byte : Option UInt8} {b : UInt8} {op op' : Opcode}

theorem Opcode.mem_all (op : Opcode) : op ∈ Opcode.all :=
  List.mem_of_getElem? (ofByte?_byte op)

/-- Opcodes of one name are the same. -/
theorem Opcode.name_inj (h : op.name = op'.name) : op = op' := by
  have hfind : ∀ o ∈ Opcode.all, Opcode.all.find? (·.name == o.name) = some o := by decide +kernel
  have hop := hfind op op.mem_all
  rw [h, hfind op' op'.mem_all] at hop
  exact (Option.some.inj hop).symm

/-- The name of an opcode starts with a capital letter. -/
theorem Opcode.exists_head?_name_append (op : Opcode) (text : String) :
    ∃ c, (op.name ++ text).toList.head? = some c ∧ c.isUpper := by
  have hfirst : ∀ o ∈ Opcode.all, o.name.toList.head?.any Char.isUpper := by decide +kernel
  obtain ⟨c, hc, hupper⟩ := (Option.any_eq_true _ _).1 (hfirst op op.mem_all)
  refine ⟨c, ?_, hupper⟩
  rw [String.toList_append, List.head?_append, hc, Option.some_or]

theorem faultDetail_of_legal (h : Opcode.legal? b = some op) :
    faultDetail (some b) = op.name ++ " failed" := by
  obtain ⟨hb, hop⟩ := Opcode.legal?_eq_some_iff.1 h
  simp only [faultDetail, hb]

theorem faultDetail_of_not_legal (h : Opcode.legal? b = none) :
    faultDetail (some b) = "illegal opcode 0x" ++ hex 2 b.toNat := by
  cases Opcode.legal?_eq_none_iff.1 h with
  | inl hb => simp only [faultDetail, hb]
  | inr hb => simp only [faultDetail, hb]

/-- The details differ in their first letter: small for the end of the code and for an illegal
opcode, and a capital one of its name for an opcode that failed. -/
theorem head?_faultDetail (byte : Option UInt8) :
    match byte.map Opcode.legal? with
    | none => (faultDetail byte).toList.head? = some 'r'
    | some none => (faultDetail byte).toList.head? = some 'i'
    | some (some _) => ∃ c, (faultDetail byte).toList.head? = some c ∧ c.isUpper := by
  cases byte with
  | none => rfl
  | some b =>
      rw [Option.map_some]
      cases h : Opcode.legal? b with
      | none => rw [faultDetail_of_not_legal h, String.toList_append]; rfl
      | some op => rw [faultDetail_of_legal h]; exact op.exists_head?_name_append _

theorem faultDetail_eq_ended_iff :
    faultDetail byte = "ran past the end of the code" ↔ byte = none := by
  refine ⟨fun h => ?_, fun h => h ▸ rfl⟩
  have hhead := head?_faultDetail byte
  rw [h] at hhead
  cases byte with
  | none => rfl
  | some b =>
      rw [Option.map_some] at hhead
      cases hb : Opcode.legal? b with
      | none => simp [hb] at hhead
      | some op => simp [hb] at hhead

theorem faultDetail_eq_illegal_iff :
    (∃ shown, faultDetail byte = "illegal opcode " ++ shown) ↔
      ∃ b, byte = some b ∧ Opcode.legal? b = none := by
  constructor
  · rintro ⟨shown, h⟩
    have hhead := head?_faultDetail byte
    rw [h, String.toList_append] at hhead
    cases byte with
    | none => simp at hhead
    | some b =>
        rw [Option.map_some] at hhead
        cases hb : Opcode.legal? b with
        | none => exact ⟨b, rfl, hb⟩
        | some op => simp [hb] at hhead
  · rintro ⟨b, rfl, hb⟩
    refine ⟨"0x" ++ hex 2 b.toNat, ?_⟩
    rw [faultDetail_of_not_legal hb, ← String.append_assoc]
    rfl

theorem faultDetail_eq_failed_iff :
    faultDetail byte = op.name ++ " failed" ↔ ∃ b, byte = some b ∧ Opcode.legal? b = some op := by
  constructor
  · intro h
    have hhead := head?_faultDetail byte
    obtain ⟨c, hc, hupper⟩ := op.exists_head?_name_append " failed"
    rw [h, hc] at hhead
    cases byte with
    | none =>
        cases Option.some.inj hhead
        exact absurd hupper (by decide)
    | some b =>
        rw [Option.map_some] at hhead
        cases hb : Opcode.legal? b with
        | none =>
            rw [hb] at hhead
            cases Option.some.inj hhead
            exact absurd hupper (by decide)
        | some op' =>
            rw [faultDetail_of_legal hb] at h
            exact ⟨b, rfl,
              hb.trans (congrArg some (Opcode.name_inj ((String.append_left_inj _).1 h)))⟩
  · rintro ⟨b, rfl, hb⟩
    exact faultDetail_of_legal hb

end Reports

/-! ## Runs that fault -/

namespace Machine

variable {code : List UInt8} {m : Machine}

/-- A run that reports a fault has ended with a step that faulted, from the
address that is reported. -/
theorem exists_step_of_run_eq_fault (hm : m.status = .running) {limit : Option Nat} {horizon : Nat}
    {address : UInt64} {byte : Option UInt8}
    (h : (m.run code limit horizon).1 = .error (.fault address byte)) :
    ∃ k, let start := m.after code k
      start.status = .running ∧ start.ip = address ∧ (start.step code).status = .faulted ∧
        (m.run code limit horizon).2 = start.step code ∧ code[address.toNat]? = byte := by
  obtain ⟨steps, hbudget, hstops, hfaulted, haddress, hbyte⟩ := run_eq_fault_iff.1 h
  cases steps with
  | zero => simp [hm] at hfaulted
  | succ k =>
      have hrunning := hstops.running k (Nat.lt_succ_self k)
      have hrun := run_of_stopsAfter hbudget hstops
      rw [after_succ] at hfaulted haddress hbyte hrun
      have hip : (m.after code k).ip = address := by
        rw [← haddress, step_of_faulted hrunning hfaulted]
      rw [haddress] at hbyte
      exact ⟨k, hrunning, hip, hfaulted, by rw [hrun], hbyte⟩

/-- **A fault leaves the data intact and is reported exactly.** A step that faults keeps the data
registers and the flag and moves `ip` past the bytes that it has read of its instruction, three at
most. A run that reports a fault has ended with such a step, which began at the address that is
reported and at the byte that is reported, of which there is none exactly past the end of the code.
The detail says that the code has ended exactly if there is no byte, that the opcode is illegal
exactly if the byte is none of an opcode or the illegal one, and that an opcode has failed exactly
if the byte is its own and its operands are cut short, name no register or divide by zero. -/
theorem fault_keeps_data_and_is_reported (code : List UInt8) (m : Machine)
    (hm : m.status = .running) :
    ((m.step code).status = .faulted →
      let read := bytesRead (code.drop m.ip.toNat)
      (∀ r, r ≠ .ip → (m.step code).registers.get r = m.registers.get r) ∧
        (m.step code).flag = m.flag ∧ (m.step code).ip = m.ip + UInt64.ofNat read ∧ read ≤ 3) ∧
    (∀ limit horizon address byte, (m.run code limit horizon).1 = .error (.fault address byte) →
      ∃ k, let start := m.after code k
        start.status = .running ∧ start.ip = address ∧ (start.step code).status = .faulted ∧
          (m.run code limit horizon).2 = start.step code ∧
          byte = code[address.toNat]? ∧ (byte = none ↔ code.length ≤ address.toNat) ∧
          (faultDetail byte = "ran past the end of the code" ↔ byte = none) ∧
          ((∃ shown, faultDetail byte = "illegal opcode " ++ shown) ↔
            ∃ b, byte = some b ∧ (Opcode.ofByte? b = none ∨ Opcode.ofByte? b = some .illegal)) ∧
          ∀ op : Opcode, faultDetail byte = op.name ++ " failed" ↔
            ∃ b, byte = some b ∧ Opcode.legal? b = some op ∧ op.Defect code start) := by
  refine ⟨fun h => ?_, fun limit horizon address byte h => ?_⟩
  · intro read
    have hstep := step_of_faulted hm h
    rw [hstep]
    refine ⟨fun r hr => Registers.get_set_of_ne _ (Ne.symm hr) _, rfl, ?_, bytesRead_le _⟩
    refine (ip_setIp _ _).trans ?_
    rw [UInt64.ofNat_add, UInt64.ofNat_toNat]
  · obtain ⟨k, hrunning, rfl, hfaulted, hlast, rfl⟩ := exists_step_of_run_eq_fault hm h
    refine ⟨k, hrunning, rfl, hfaulted, hlast, rfl, List.getElem?_eq_none_iff,
      faultDetail_eq_ended_iff, ?_, fun op => ?_⟩
    · simp only [faultDetail_eq_illegal_iff, Opcode.legal?_eq_none_iff]
    · rw [faultDetail_eq_failed_iff]
      refine exists_congr fun b => and_congr_right fun hb => ?_
      have hdefect := (status_step_eq_faulted_iff hrunning).1 hfaulted b op hb
      exact ⟨fun hop => ⟨hop, hdefect hop⟩, And.left⟩

/-- A division by a register that holds zero, behind a load. The step reads the opcode and both
registers and keeps what was loaded; the run reports the division, and that its divisor is zero. -/
theorem fault_divides_by_zero :
    let code : List UInt8 := [1, 0, 5, 17, 0, 1]
    let loaded := initial.step code
    let run := initial.run code none 9
    (loaded.step code).registers.get .r0 = 5 ∧ (loaded.step code).ip = 6 ∧
      run.1 = .error (.fault 3 (some 17)) ∧ faultDetail (some 17) = "DIV8 failed" ∧
      ∃ k, (Opcode.alu .div .w8).Defect code (initial.after code k) := by
  intro code loaded run
  have hrunning : loaded.status = .running := by decide +kernel
  have hfaulted : (loaded.step code).status = .faulted := by decide +kernel
  have hstops : initial.StopsAfter code 2 := ⟨by decide +kernel, by decide +kernel⟩
  have hrun : run.1 = .error (.fault 3 (some 17)) :=
    run_eq_fault_iff.2 ⟨2, by decide, hstops, by decide +kernel, by decide +kernel,
      by decide +kernel⟩
  have hdetail : faultDetail (some 17) = "DIV8 failed" := by decide +kernel
  obtain ⟨hkept, -, hip, -⟩ := (fault_keeps_data_and_is_reported code loaded hrunning).1 hfaulted
  obtain ⟨k, -, -, -, -, -, -, -, -, hfailed⟩ :=
    (fault_keeps_data_and_is_reported code initial rfl).2 none 9 3 (some 17) hrun
  obtain ⟨b, -, -, hdefect⟩ := (hfailed (.alu .div .w8)).1 hdetail
  have hdata : (loaded.step code).registers.get .r0 = 5 :=
    (hkept .r0 (by decide)).trans (by decide +kernel)
  have hreached : (loaded.step code).ip = 6 := hip.trans (by decide +kernel)
  exact ⟨hdata, hreached, hrun, hdetail, k, hdefect⟩

end Machine

end RegisterMachine
