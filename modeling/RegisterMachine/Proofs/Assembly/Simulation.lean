import RegisterMachine.Proofs.Assembly.Emission
import RegisterMachine.Proofs.Machine.Run
import RegisterMachine.Proofs.Program.Execution

/-!
# RegisterMachine.Proofs.Assembly.Simulation

The machine does what the program means.

* `Carries lines code` -- the instructions of every line decode at its address;
* `Agrees lines s m` -- a machine stands where a program does, with the same data;
* `Agrees.step` -- a line keeps program and machine in agreement, the machine taking as many steps
  as the line costs; `run_simulates_program` puts the lines of a run together.
-/

namespace RegisterMachine

open Instruction

/-! ## Code that carries lines -/

/-- Code from address zero on is the instructions of lines, and these leave `ip` alone. -/
structure Carries (lines : List Line) (code : List UInt8) : Prop where
  decodes : ∀ k l, lines[k]? = some l → ∃ own,
    l.lowering? lines = some ((placed (addressOf lines k) own).map decoded) ∧
      ∀ a i, (a, i) ∈ placed (addressOf lines k) own → decodeAt? code a = some i
  length : code.length = linesSize lines
  fits : code.length < UInt64.size
  keepsIp : ∀ l ∈ lines, l.statement.written? ≠ some .ip

theorem placed_inj {address : Nat} {xs ys : List Instruction}
    (h : (placed address xs).map decoded = (placed address ys).map decoded) : xs = ys := by
  induction xs generalizing address ys with
  | nil =>
      cases ys with
      | nil => rfl
      | cons y ys => contradiction
  | cons x xs ih =>
      cases ys with
      | nil => contradiction
      | cons y ys =>
          obtain ⟨hhead, htail⟩ := List.cons.inj h
          cases eq_of_decoded_eq hhead
          rw [ih htail]

theorem addressOf_succ_of_action? {lines : List Line} {k : Nat} {l : Line} {action : Action}
    (hl : lines[k]? = some l) (haction : l.statement.action? = some action) :
    addressOf lines (k + 1) = addressOf lines k + action.form.size := by
  rw [addressOf_succ hl, Line.size, form?_of_action? haction]
  rfl

namespace Carries

variable {lines : List Line} {code : List UInt8} {k : Nat} {l : Line} {action : Action}

theorem addressOf_lt (hcode : Carries lines code) (k : Nat) : addressOf lines k < UInt64.size := by
  have hle := addressOf_le lines k
  have hfits := hcode.fits
  rw [hcode.length] at hfits
  omega

theorem written?_ne (hcode : Carries lines code) (hl : lines[k]? = some l)
    (haction : l.statement.action? = some action) : action.written? ≠ some .ip := by
  have hkeeps := hcode.keepsIp l (List.mem_of_getElem? hl)
  rwa [Statement.written?, haction, Option.bind_some] at hkeeps

/-- What a decoder shows of a line determines the instructions at its address. -/
theorem decodes_own (hcode : Carries lines code) (hl : lines[k]? = some l)
    (haction : l.statement.action? = some action) {own : List Instruction}
    (hown : action.lowering? (labelAddress? lines l.procedure) =
      some ((placed (addressOf lines k) own).map decoded)) :
    ∀ a i, (a, i) ∈ placed (addressOf lines k) own → decodeAt? code a = some i := by
  obtain ⟨own', hown', hdecodes⟩ := hcode.decodes k l hl
  rw [Line.lowering?, haction, Option.bind_some, hown] at hown'
  cases placed_inj (Option.some.inj hown')
  exact hdecodes

/-- An action of a single instruction. -/
theorem decodeAt? (hcode : Carries lines code) (hl : lines[k]? = some l)
    (haction : l.statement.action? = some action) {i : Instruction}
    (hown : action.lowering? (labelAddress? lines l.procedure) =
      some [decoded (addressOf lines k, i)]) :
    Instruction.decodeAt? code (addressOf lines k) = some i := by
  have hplaced : action.lowering? (labelAddress? lines l.procedure) =
      some ((placed (addressOf lines k) [i]).map decoded) := hown
  exact hcode.decodes_own hl haction hplaced _ i List.mem_cons_self

theorem exists_action? (hcode : Carries lines code) (hl : lines[k]? = some l) :
    ∃ action, l.statement.action? = some action := by
  obtain ⟨own, hown, -⟩ := hcode.decodes k l hl
  obtain ⟨action, haction, -⟩ := Option.bind_eq_some_iff.1 hown
  exact ⟨action, haction⟩

/-- The label that an action goes to stands at a line of the procedure. -/
theorem exists_labelLine? (hcode : Carries lines code) (hl : lines[k]? = some l)
    (haction : l.statement.action? = some action) {label : String}
    (hlabel : action.label? = some label) : ∃ k', labelLine? lines l.procedure label = some k' := by
  obtain ⟨own, hown, -⟩ := hcode.decodes k l hl
  rw [Line.lowering?, haction, Option.bind_some] at hown
  have haddress : ∃ t, labelAddress? lines l.procedure label = some t := by
    cases action with
    | branch c type left right label' =>
        cases Option.some.inj hlabel
        obtain ⟨t, ht, -⟩ := Option.map_eq_some_iff.1 hown
        exact ⟨t, ht⟩
    | jump label' =>
        cases Option.some.inj hlabel
        obtain ⟨t, ht, -⟩ := Option.map_eq_some_iff.1 hown
        exact ⟨t, ht⟩
    | _ => contradiction
  obtain ⟨t, ht⟩ := haddress
  obtain ⟨k', hk', -⟩ := Option.map_eq_some_iff.1 ht
  exact ⟨k', hk'⟩

end Carries

/-! ## Agreement -/

/-- Program and machine have the same data and the same status. -/
structure SameData (s : ProgramState) (m : Machine) : Prop where
  registers : ∀ r, r ≠ .ip → m.registers.get r = s.registers.get r
  flag : m.flag = s.flag
  status : m.status = s.status

/-- The machine stands at the next line of the program, or it has faulted there. -/
structure Agrees (lines : List Line) (s : ProgramState) (m : Machine) : Prop
    extends SameData s m where
  ip : s.status ≠ .faulted → m.ip = UInt64.ofNat (addressOf lines s.next)
  fault : s.status = .faulted → m.lastAddress = UInt64.ofNat (addressOf lines s.next)

theorem not_faulted {status : Status} (h : status = .running) : status ≠ .faulted := by
  rw [h]
  decide

namespace SameData

variable {s : ProgramState} {m : Machine}

theorem agrees {lines : List Line} (h : SameData s m) (hs : s.status ≠ .faulted)
    (hip : m.ip = UInt64.ofNat (addressOf lines s.next)) : Agrees lines s m :=
  ⟨h, fun _ => hip, fun hfault => absurd hfault hs⟩

theorem line (h : SameData s m) (next : Nat) : SameData { s with next := next } m :=
  ⟨h.registers, h.flag, h.status⟩

theorem past (h : SameData s m) (i : Instruction) : SameData s (m.past i) :=
  ⟨fun r hr => (m.get_past_of_ne i hr).trans (h.registers r hr), h.flag, h.status⟩

theorem setIp (h : SameData s m) (address : UInt64) : SameData s (m.setIp address) :=
  ⟨fun r hr => (Registers.get_set_of_ne _ (Ne.symm hr) _).trans (h.registers r hr), h.flag,
    h.status⟩

/-- A jump of the assembler brings the machine to the line that the program goes to. -/
theorem goTo {lines : List Line} (h : SameData s m) (hs : s.status ≠ .faulted) (address k : Nat) :
    Agrees lines { s with next := k }
      (m.setIp (targetAddress address Shape.relative.size
        (jumpOffset address (addressOf lines k)))) := by
  rw [targetAddress_jumpOffset]
  exact ((h.setIp _).line k).agrees hs (Machine.ip_setIp _ _)

theorem put (h : SameData s m) (w : Width) {r : Register} (hr : r ≠ .ip) (v : Int) :
    SameData { s with registers := s.registers.put w r v }
      { m with registers := m.registers.put w r v } := by
  refine ⟨fun r' hr' => ?_, h.flag, h.status⟩
  simp only [Registers.put, Registers.get_set, h.registers r hr, h.registers r' hr']

end SameData

namespace Agrees

variable {lines : List Line} {code : List UInt8} {s : ProgramState} {m : Machine}

section Step

variable {l : Line} {action : Action} (hcode : Carries lines code) (h : Agrees lines s m)
  (hs : s.status = .running)
include hcode h hs

theorem toNat_ip : m.ip.toNat = addressOf lines s.next := by
  rw [h.ip (not_faulted hs), UInt64.toNat_ofNat_of_lt' (hcode.addressOf_lt _)]

/-- Past an instruction with two registers the operands are those of the program. -/
theorem view_past {i : Instruction} (hi : i.size = Shape.registerRegister.size) (type : IntType)
    (r : Register) : (m.past i).registers.view type r = s.value lines type r := by
  rw [Registers.view, IntType.view_eq_value, ProgramState.value, ProgramState.read]
  congr 1
  split
  next hr =>
    have hip := m.ip_past i
    rw [h.toNat_ip hcode hs, hi] at hip
    rw [hr]
    exact hip
  next hr => rw [m.get_past_of_ne i hr, h.registers r hr]

section Actions

variable (hl : lines[s.next]? = some l) (haction : l.statement.action? = some action)
include hl haction

/-- The instruction of a line takes effect with `ip` past it. -/
theorem step_of_lowering? (i : Instruction)
    (hown : action.lowering? (labelAddress? lines l.procedure) =
      some [decoded (addressOf lines s.next, i)]) :
    m.step code = (i.execute? (m.past i)).getD { m.past i with status := .faulted } := by
  refine Machine.step_of_decodeAt? (h.status.trans hs) ?_
  rw [h.toNat_ip hcode hs]
  exact hcode.decodeAt? hl haction hown

/-- Past the last instruction of a line the machine stands at the next line. -/
theorem ip_past_eq (i : Instruction) (hi : i.size = action.form.size) :
    (m.past i).ip = UInt64.ofNat (addressOf lines (s.next + 1)) := by
  rw [Machine.ip_past, h.toNat_ip hcode hs, hi, addressOf_succ_of_action? hl haction]

end Actions

/-! ## One line -/

variable (hl : lines[s.next]? = some l)
include hl

omit hcode in
theorem label (haction : l.statement.action? = some .label) :
    Agrees lines (s.perform lines l.procedure .label) m := by
  refine (h.line (s.next + 1)).agrees (not_faulted hs) ?_
  rw [h.ip (not_faulted hs)]
  congr 1
  exact (addressOf_succ_of_action? hl haction).symm

theorem load {type : IntType} {destination : Register} {constant : BitVec type.width.bits}
    (haction : l.statement.action? = some (.load type destination constant)) :
    Agrees lines (s.perform lines l.procedure (.load type destination constant)) (m.step code) := by
  have hne : destination ≠ .ip := fun heq => hcode.written?_ne hl haction (congrArg some heq)
  let i := Instruction.load type.width destination constant
  have hdata := ((h.past i).line (s.next + 1)).put type.width hne constant.toNat
  have hip := h.ip_past_eq hcode hs hl haction i rfl
  rw [h.step_of_lowering? hcode hs hl haction i rfl]
  exact hdata.agrees (not_faulted hs) ((Machine.ip_put _ _ hne _).trans hip)

theorem arithmetic {op : Arithmetic} {type : IntType} {destination source : Register}
    (haction : l.statement.action? = some (.arithmetic op type destination source)) :
    Agrees lines (s.perform lines l.procedure (.arithmetic op type destination source))
      (m.step code) := by
  have hne : destination ≠ .ip := fun heq => hcode.written?_ne hl haction (congrArg some heq)
  let i := alu (AluOp.ofArithmetic type.signed op) type.width destination source
  have hip := h.ip_past_eq hcode hs hl haction i rfl
  rw [h.step_of_lowering? hcode hs hl haction i rfl, execute?_ofArithmetic,
    h.view_past hcode hs rfl, h.view_past hcode hs rfl, ProgramState.perform]
  cases op.result? (s.value lines type destination) (s.value lines type source) with
  | none =>
      exact ⟨⟨(h.past _).registers, h.flag, rfl⟩, fun hf => absurd rfl hf,
        fun _ => h.ip (not_faulted hs)⟩
  | some v =>
      have hdata := ((h.past i).line (s.next + 1)).put type.width hne v
      exact hdata.agrees (not_faulted hs) ((Machine.ip_put _ _ hne _).trans hip)

theorem compare {type : IntType} {left right : Register}
    (haction : l.statement.action? = some (.compare type left right)) :
    Agrees lines (s.perform lines l.procedure (.compare type left right)) (m.step code) := by
  let i := Instruction.compare type.signed type.width left right
  have hip := h.ip_past_eq hcode hs hl haction i rfl
  rw [h.step_of_lowering? hcode hs hl haction i rfl, execute?, Option.getD_some]
  rw [h.view_past hcode hs rfl, h.view_past hcode hs rfl]
  exact SameData.agrees ⟨(h.past i).registers, rfl, h.status⟩ (not_faulted hs) hip

theorem halt (haction : l.statement.action? = some .halt) :
    Agrees lines (s.perform lines l.procedure .halt) (m.step code) := by
  have hip := h.ip_past_eq hcode hs hl haction .halt rfl
  rw [h.step_of_lowering? hcode hs hl haction .halt rfl, execute?, Option.getD_some]
  exact SameData.agrees ⟨(h.past .halt).registers, h.flag, rfl⟩ (by simp [ProgramState.perform]) hip

theorem jump {label : String} (haction : l.statement.action? = some (.jump label)) :
    Agrees lines (s.perform lines l.procedure (.jump label)) (m.step code) := by
  obtain ⟨k, hk⟩ := hcode.exists_labelLine? hl haction rfl
  let target := addressOf lines k
  let i := Instruction.jump (jumpOffset (addressOf lines s.next) target)
  have hown : Action.lowering? (labelAddress? lines l.procedure) (.jump label) =
      some [decoded (addressOf lines s.next, i)] := by
    rw [Action.lowering?, labelAddress?, hk, Option.map_some, Option.map_some,
      ← targetAddress_jumpOffset]
    rfl
  rw [h.step_of_lowering? hcode hs hl haction i hown, execute?, Option.getD_some,
    setIp_targetAddress, h.toNat_ip hcode hs]
  rw [ProgramState.perform, ProgramState.goTo, hk, Option.getD_some]
  exact (h.past i).goTo (not_faulted hs) (addressOf lines s.next) k

/-- A branch is carried out in two steps, between which the machine stands at no line. -/
theorem branch {c : Condition} {type : IntType} {left right : Register} {label : String}
    (haction : l.statement.action? = some (.branch c type left right label)) :
    Agrees lines (s.perform lines l.procedure (.branch c type left right label))
      (m.after code 2) := by
  obtain ⟨k, hk⟩ := hcode.exists_labelLine? hl haction rfl
  let start := addressOf lines s.next
  let target := addressOf lines k
  let i := Instruction.compare type.signed type.width left right
  let j := Instruction.jumpIf c (jumpOffset (start + i.size) target)
  have hown : Action.lowering? (labelAddress? lines l.procedure) (.branch c type left right label) =
      some ((placed start [i, j]).map decoded) := by
    rw [Action.lowering?, labelAddress?, hk, Option.map_some, Option.map_some,
      ← targetAddress_jumpOffset]
    rfl
  have hdecodes := hcode.decodes_own hl haction hown
  have hstart : m.ip.toNat = start := h.toNat_ip hcode hs
  have hnext : addressOf lines (s.next + 1) = start + (i.size + j.size) :=
    addressOf_succ_of_action? hl haction
  -- the comparison leaves the machine at the jump, and the program where it was
  let compared : Machine := { m.past i with flag := s.order lines type left right }
  have hcompare : m.step code = compared := by
    have hi : decodeAt? code m.ip.toNat = some i := by
      rw [hstart]
      exact hdecodes _ _ List.mem_cons_self
    rw [Machine.step_of_decodeAt? (h.status.trans hs) hi, execute?, Option.getD_some,
      h.view_past hcode hs rfl, h.view_past hcode hs rfl]
    rfl
  have hdata : SameData { s with flag := s.order lines type left right } compared :=
    ⟨(h.past i).registers, rfl, h.status⟩
  have hmiddle : compared.ip.toNat = start + i.size := by
    have hlt := hcode.addressOf_lt (s.next + 1)
    have hip : compared.ip = UInt64.ofNat (m.ip.toNat + i.size) := m.ip_past i
    rw [hip, hstart, UInt64.toNat_ofNat_of_lt' (by omega)]
  have hj : decodeAt? code compared.ip.toNat = some j := by
    rw [hmiddle]
    exact hdecodes _ _ (List.mem_cons_of_mem _ List.mem_cons_self)
  have hjump := Machine.step_jumpIf (hdata.status.trans hs) hj
  rw [Machine.after, Machine.after_one, hcompare, hjump, hmiddle, ProgramState.perform,
    ProgramState.goTo, hk, Option.getD_some]
  split
  next =>
    exact (hdata.past j).goTo (not_faulted hs) (start + i.size) k
  next =>
    have hpassed := (hdata.past j).line (s.next + 1)
    refine hpassed.agrees (not_faulted hs) ?_
    rw [Machine.ip_past, hmiddle, hnext, Nat.add_assoc]

end Step

/-- A line keeps program and machine in agreement. -/
theorem step (hcode : Carries lines code) (h : Agrees lines s m) :
    Agrees lines (s.step lines) (m.after code (s.cost lines)) := by
  by_cases hs : s.status = .running
  · cases hl : lines[s.next]? with
    | none =>
        have hlen := List.getElem?_eq_none_iff.1 hl
        have haddress : addressOf lines s.next = code.length := by
          rw [addressOf, List.take_of_length_le hlen, hcode.length]
        have hend : code.length ≤ m.ip.toNat :=
          Nat.le_of_eq (haddress.symm.trans (h.toNat_ip hcode hs).symm)
        rw [ProgramState.step_of_length_le hs hlen, ProgramState.cost_of_length_le hs hlen,
          Machine.after_one, Machine.step_of_length_le (h.status.trans hs) hend]
        exact ⟨⟨h.registers, h.flag, rfl⟩, fun hf => absurd rfl hf, fun _ => h.ip (not_faulted hs)⟩
    | some l =>
        obtain ⟨action, haction⟩ := hcode.exists_action? hl
        rw [ProgramState.step_of_action? hs hl haction, ProgramState.cost_of_action? hs hl haction]
        cases action with
        | label => exact h.label hs hl haction
        | load type destination constant => exact h.load hcode hs hl haction
        | arithmetic op type destination source => exact h.arithmetic hcode hs hl haction
        | compare type left right => exact h.compare hcode hs hl haction
        | branch c type left right target => exact h.branch hcode hs hl haction
        | jump target => exact h.jump hcode hs hl haction
        | halt => exact h.halt hcode hs hl haction
  · rw [ProgramState.step_of_not_running hs, ProgramState.cost_of_not_running hs]
    exact h

theorem after (hcode : Carries lines code) (h : Agrees lines s m) (n : Nat) :
    Agrees lines (s.after lines n) (m.after code (s.count lines n)) := by
  induction n generalizing s m with
  | zero => exact h
  | succ n ih =>
      rw [ProgramState.count, Machine.after_add]
      exact ih (h.step hcode)

/-! ## Runs -/

section Runs

variable (hcode : Carries lines code) (h : Agrees lines s m)
include hcode h

/-- The machine stops where the program does. -/
theorem stopsAfter {n : Nat} (hn : (s.after lines n).status ≠ .running) :
    m.StopsAfter code (s.count lines n) := by
  induction n with
  | zero =>
      have hm : m.status ≠ .running := fun hrunning => hn (h.status.symm.trans hrunning)
      exact ⟨fun j hj => absurd hj (Nat.not_lt_zero j), hm⟩
  | succ n ih =>
      by_cases hlast : (s.after lines n).status = .running
      · -- the last line takes a single step, so the machine runs up to it
        have hbefore : (m.after code (s.count lines n)).status = .running :=
          (h.after hcode n).status.trans hlast
        have hafter := (h.after hcode (n + 1)).status
        have hcost := ProgramState.cost_of_stops hlast (by rwa [← ProgramState.after_succ])
        rw [ProgramState.count_succ, hcost] at hafter ⊢
        exact ⟨fun j hj => Machine.running_of_le (Nat.le_of_lt_succ hj) hbefore,
          fun hrunning => hn (hafter.symm.trans hrunning)⟩
      · rw [ProgramState.count_succ, ProgramState.cost_of_not_running hlast, Nat.add_zero]
        exact ih hlast

/-- Where the machine stops, the program does. -/
theorem exists_count_eq {k : Nat} (hk : m.StopsAfter code k) :
    ∃ n, (s.after lines n).status ≠ .running ∧ s.count lines n = k := by
  obtain ⟨n, hn⟩ := s.exists_le_count lines k
  by_cases hlast : (s.after lines n).status = .running
  · have hle : k ≤ s.count lines n := hn.resolve_right fun hstopped => hstopped hlast
    have hrunning := (h.after hcode n).status.trans hlast
    exact absurd (Machine.running_of_le hle hrunning) hk.stopped
  · exact ⟨n, hlast, (h.stopsAfter hcode hlast).unique hk⟩

theorem run_eq_ok_iff {limit : Option Nat} {horizon k : Nat} :
    (m.run code limit horizon).1 = .ok k ↔
      ∃ n, (s.after lines n).status = .halted ∧ s.count lines n = k ∧ k ≤ limit.getD horizon := by
  rw [Machine.run_eq_ok_iff]
  constructor
  · rintro ⟨hbudget, hstops, hhalted⟩
    obtain ⟨n, -, rfl⟩ := h.exists_count_eq hcode hstops
    exact ⟨n, (h.after hcode n).status.symm.trans hhalted, rfl, hbudget⟩
  · rintro ⟨n, hhalted, rfl, hbudget⟩
    have hstopped : (s.after lines n).status ≠ .running := by simp [hhalted]
    exact ⟨hbudget, h.stopsAfter hcode hstopped, (h.after hcode n).status.trans hhalted⟩

theorem run_eq_fault_iff {limit : Option Nat} {horizon : Nat} {address : UInt64}
    {byte : Option UInt8} :
    (m.run code limit horizon).1 = .error (.fault address byte) ↔
      ∃ n, (s.after lines n).status = .faulted ∧ s.count lines n ≤ limit.getD horizon ∧
        UInt64.ofNat (addressOf lines (s.after lines n).next) = address ∧
        code[address.toNat]? = byte := by
  rw [Machine.run_eq_fault_iff]
  constructor
  · rintro ⟨k, hbudget, hstops, hfaulted, rfl, rfl⟩
    obtain ⟨n, -, rfl⟩ := h.exists_count_eq hcode hstops
    have hlast := h.after hcode n
    have hstatus := hlast.status.symm.trans hfaulted
    exact ⟨n, hstatus, hbudget, (hlast.fault hstatus).symm, rfl⟩
  · rintro ⟨n, hfaulted, hbudget, rfl, rfl⟩
    have hlast := h.after hcode n
    have hstopped : (s.after lines n).status ≠ .running := by simp [hfaulted]
    refine ⟨_, hbudget, h.stopsAfter hcode hstopped, hlast.status.trans hfaulted,
      hlast.fault hfaulted, ?_⟩
    rw [hlast.fault hfaulted]

end Runs

end Agrees

/-! ## Programs -/

section Programs

variable {procedures : List Procedure} {image : Image}

/-- The code of an image carries the lines of its program. -/
theorem carries_of_assembleProgram (h : assembleProgram procedures = .ok image)
    (hkeeps : KeepsIp procedures) (hfits : image.code.length < UInt64.size) :
    Carries (linesOf procedures) image.code where
  decodes _ _ hl := exists_decodeAt?_of_assembleProgram h hl
  length := length_code_of_assembleProgram h
  fits := hfits
  keepsIp _ hl := hkeeps.written?_ne hl

/-- **The machine runs a program as it means.** Start a machine at a procedure of a program that
leaves `ip` alone, with anything in its registers. After every line machine and program have the
same data and stand at the same place; and a run halts, or faults, exactly if the program does,
after as many steps as its lines cost, and where it does. The code must fit into the addresses of
the machine. -/
theorem run_simulates_program (h : assembleProgram procedures = .ok image)
    (hkeeps : KeepsIp procedures) (hfits : image.code.length < UInt64.size) {number : Nat}
    {e : Entry} (he : image.procedures[number]? = some e) (m : Machine) (hm : m.status = .running)
    (hip : m.ip = e.address) :
    let lines := linesOf procedures
    let start : ProgramState := ⟨firstLine procedures number, m.registers, m.flag, .running⟩
    (∀ n, Agrees lines (start.after lines n) (m.after image.code (start.count lines n))) ∧
      (∀ limit horizon k, (m.run image.code limit horizon).1 = .ok k ↔
        ∃ n, (start.after lines n).status = .halted ∧ start.count lines n = k ∧
          k ≤ limit.getD horizon) ∧
      (∀ limit horizon address byte,
        (m.run image.code limit horizon).1 = .error (.fault address byte) ↔
          ∃ n, (start.after lines n).status = .faulted ∧
            start.count lines n ≤ limit.getD horizon ∧
            UInt64.ofNat (addressOf lines (start.after lines n).next) = address ∧
            image.code[address.toNat]? = byte) := by
  intro lines start
  have hcode := carries_of_assembleProgram h hkeeps hfits
  have hdata : SameData start m := ⟨fun _ _ => rfl, rfl, hm⟩
  have haddress : m.ip = UInt64.ofNat (addressOf lines start.next) := by
    rw [procedures_of_assembleProgram h, List.getElem?_mapIdx] at he
    obtain ⟨p, -, rfl⟩ := Option.map_eq_some_iff.1 he
    exact hip
  have hagrees := hdata.agrees (not_faulted rfl) haddress
  exact ⟨hagrees.after hcode, fun _ _ _ => hagrees.run_eq_ok_iff hcode,
    fun _ _ _ _ => hagrees.run_eq_fault_iff hcode⟩

end Programs

/-- The countdown passes twelve lines: two loads, three rounds of a label, a subtraction and a
branch, and the halt. The machine takes as many steps, none for a label and two for a branch. -/
theorem countdown_halts :
    let start : ProgramState := ⟨firstLine countdown 0, .zero, .eq, .running⟩
    KeepsIp countdown ∧ (start.after (linesOf countdown) 12).status = .halted ∧
      (Machine.initial.run countdownImage.code none 100).1 = .ok 12 := by
  intro start
  have himage : assembleProgram countdown = .ok countdownImage := rfl
  have hkeeps : KeepsIp countdown := by decide
  have hmain : countdownImage.procedures[0]? = some ⟨"main", 0⟩ := rfl
  have hsimulates := run_simulates_program himage hkeeps (by decide) hmain Machine.initial rfl rfl
  have hhalted : (start.after (linesOf countdown) 12).status = .halted := by decide +kernel
  have hcount : start.count (linesOf countdown) 12 = 12 := by decide +kernel
  exact ⟨hkeeps, hhalted, (hsimulates.2.1 none 100 12).2 ⟨12, hhalted, hcount, by decide⟩⟩

end RegisterMachine
