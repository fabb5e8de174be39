import RegisterMachine.Proofs.Machine.Budget
import RegisterMachine.Proofs.Machine.Fault
import RegisterMachine.Proofs.Machine.Moved

/-!
# RegisterMachine.Proofs.Machine.Extension

Code with more code behind it.

* `Unreadable` -- bytes that are no instruction for what stands among them, and not for their end;
  this remains so whatever follows them, and as much of them is read
  (`Unreadable.bytesRead_append`);
* `Machine.FaultsInside` and `Machine.RunsPastEnd` -- the reasons of a fault that lie in the code,
  and the one that does not;
* `step_append`, `after_append` -- what a machine does in some code it does in the code with more
  behind it, until it runs past the end;
* `run_append` says so of runs with everything that they answer.
-/

namespace RegisterMachine

open Instruction

/-! ## Bytes that are no instruction -/

/-- What stands at the front of some bytes keeps them from being an instruction: the first byte is
no opcode that can be carried out, or one of the register bytes behind it names no register. -/
inductive Unreadable : List UInt8 → Prop
  | illegalOpcode {b : UInt8} {rest : List UInt8} (h : Opcode.legal? b = none) :
      Unreadable (b :: rest)
  | noRegister {b b' : UInt8} {rest : List UInt8} {op : Opcode} (hop : Opcode.legal? b = some op)
      (hb' : b' ∈ rest.take op.shape.registers) (h : Register.ofByte? b' = none) :
      Unreadable (b :: rest)

/-- The bytes end before the instruction does that they begin. -/
inductive EndsEarly : List UInt8 → Prop
  | nothing : EndsEarly []
  | cut {b : UInt8} {rest : List UInt8} {op : Opcode} (hop : Opcode.legal? b = some op)
      (h : (b :: rest).length < op.shape.size) : EndsEarly (b :: rest)

/-- Bytes decode exactly if the first one is a legal opcode, and behind it there are enough of them
and those of registers name some. -/
theorem isSome_decode?_cons_iff {b : UInt8} {rest : List UInt8} :
    (decode? (b :: rest)).isSome ↔
      ∃ op, Opcode.legal? b = some op ∧ op.shape.size ≤ (b :: rest).length ∧
        ∀ b' ∈ rest.take op.shape.registers, (Register.ofByte? b').isSome := by
  have h : (decodeAt? (b :: rest) 0).isSome ↔ _ := isSome_decodeAt?_iff
  simpa only [decodeAt?, List.drop_zero, List.getElem?_cons_zero, Option.some.injEq,
    exists_and_left, exists_eq_left', Nat.zero_add, List.drop_succ_cons] using h

/-- Bytes that are no instruction are unreadable or end early. -/
theorem unreadable_or_endsEarly {bytes : List UInt8} (h : decode? bytes = none) :
    Unreadable bytes ∨ EndsEarly bytes := by
  cases bytes with
  | nil => exact .inr .nothing
  | cons b rest =>
      cases hop : Opcode.legal? b with
      | none => exact .inl (.illegalOpcode hop)
      | some op =>
          by_cases hlength : op.shape.size ≤ (b :: rest).length
          · by_cases hregisters : ∃ b' ∈ rest.take op.shape.registers, Register.ofByte? b' = none
            · obtain ⟨b', hb', hnames⟩ := hregisters
              exact .inl (.noRegister hop hb' hnames)
            · have hsome : (decode? (b :: rest)).isSome :=
                isSome_decode?_cons_iff.2 ⟨op, hop, hlength, fun b' hb' =>
                  Option.isSome_iff_ne_none.2 fun hnone => hregisters ⟨b', hb', hnone⟩⟩
              simp [h] at hsome
          · exact .inr (.cut hop (Nat.lt_of_not_le hlength))

/-- Registers are read up to the first byte that names none, whatever follows it. -/
theorem registersRead_append {n : Nat} {bytes : List UInt8} {b : UInt8} (hb : b ∈ bytes.take n)
    (h : Register.ofByte? b = none) (suffix : List UInt8) :
    registersRead n (bytes ++ suffix) = registersRead n bytes := by
  induction n generalizing bytes with
  | zero => simp at hb
  | succ n ih =>
      cases bytes with
      | nil => simp at hb
      | cons first rest =>
          rw [List.cons_append, registersRead, registersRead]
          cases hfirst : Register.ofByte? first with
          | none => rfl
          | some r =>
              rw [List.take_succ_cons, List.mem_cons] at hb
              have hrest : b ∈ rest.take n := by
                refine hb.resolve_left ?_
                rintro rfl
                rw [h] at hfirst
                contradiction
              rw [ih hrest]

namespace Unreadable

variable {bytes : List UInt8}

theorem ne_nil (h : Unreadable bytes) : bytes ≠ [] := by
  cases h <;> exact List.cons_ne_nil _ _

theorem decode?_eq_none (h : Unreadable bytes) : decode? bytes = none := by
  rw [← Option.not_isSome_iff_eq_none]
  intro hsome
  cases h with
  | illegalOpcode hb =>
      obtain ⟨op, hop, -⟩ := isSome_decode?_cons_iff.1 hsome
      rw [hb] at hop
      contradiction
  | noRegister hop hb' hnames =>
      obtain ⟨op', hop', -, hregisters⟩ := isSome_decode?_cons_iff.1 hsome
      cases hop.symm.trans hop'
      simpa [hnames] using hregisters _ hb'

theorem append (h : Unreadable bytes) (suffix : List UInt8) : Unreadable (bytes ++ suffix) := by
  cases h with
  | illegalOpcode hb => exact .illegalOpcode hb
  | noRegister hop hb' hnames =>
      refine .noRegister hop ?_ hnames
      rw [List.append_eq, List.take_append]
      exact List.mem_append_left _ hb'

/-- What is wrong is found after as many bytes, whatever follows it. -/
theorem bytesRead_append (h : Unreadable bytes) (suffix : List UInt8) :
    bytesRead (bytes ++ suffix) = bytesRead bytes := by
  cases h with
  | illegalOpcode hb => simp only [List.cons_append, bytesRead, hb]
  | noRegister hop hb' hnames =>
      simp only [List.cons_append, bytesRead, hop, registersRead_append hb' hnames]

end Unreadable

/-! ## Faults in code with more code behind it -/

namespace Machine

/-- The reasons of a fault that lie in the code where the last step began: what stands there is
unreadable, or it divides by zero. -/
inductive FaultsInside (code : List UInt8) (m : Machine) : Prop
  | unreadable (h : Unreadable (code.drop m.lastAddress.toNat))
  | zeroDivisor {i : Instruction} (hi : decodeAt? code m.lastAddress.toNat = some i)
      (h : i.DividesByZero m)

/-- The last step began past the end of the code, or at an instruction that reaches past it. -/
def RunsPastEnd (code : List UInt8) (m : Machine) : Prop :=
  EndsEarly (code.drop m.lastAddress.toNat)

variable {code : List UInt8} {m : Machine}

theorem FaultsInside.lastAddress_lt (h : m.FaultsInside code) :
    m.lastAddress.toNat < code.length := by
  have hne : code.drop m.lastAddress.toNat ≠ [] := by
    cases h with
    | unreadable h => exact h.ne_nil
    | zeroDivisor hi _ =>
        intro hnil
        rw [decodeAt?, hnil] at hi
        contradiction
  exact Nat.lt_of_not_le fun hle => hne (List.drop_eq_nil_of_le hle)

/-- A step that faults does so for a reason in the code or past its end. -/
theorem faultsInside_or_runsPastEnd (hm : m.status = .running)
    (h : (m.step code).status = .faulted) :
    (m.step code).FaultsInside code ∨ (m.step code).RunsPastEnd code := by
  have haddress : (m.step code).lastAddress = m.ip := by rw [step_of_faulted hm h]
  cases hi : decodeAt? code m.ip.toNat with
  | none =>
      rw [← haddress] at hi
      exact (unreadable_or_endsEarly hi).imp .unreadable id
  | some i =>
      have hzero := (status_step_of_decodeAt? hm hi).1 h
      refine .inl (.zeroDivisor (haddress ▸ hi) ?_)
      rw [step_of_decodeAt? hm hi, execute?_eq_none_iff.2 hzero, Option.getD_none]
      cases i <;> exact hzero

/-- A step that does not run past the end of the code is the same with more code behind it. -/
theorem step_append (h : (m.step code).status = .faulted → (m.step code).FaultsInside code)
    (suffix : List UInt8) : m.step (code ++ suffix) = m.step code := by
  by_cases hm : m.status = .running
  · cases hi : decodeAt? code m.ip.toNat with
    | some i =>
        have hi' := decodeAt?_append hi [] suffix
        rw [List.nil_append, List.length_nil, Nat.zero_add] at hi'
        rw [step_of_decodeAt? hm hi, step_of_decodeAt? hm hi']
    | none =>
        obtain ⟨reached, hstep⟩ := step_of_decodeAt?_eq_none hm hi
        have hfaulted : (m.step code).status = .faulted := by rw [hstep]
        have haddress : (m.step code).lastAddress = m.ip := by rw [hstep]
        have hinside := h hfaulted
        have hlt := hinside.lastAddress_lt
        rw [haddress] at hlt
        have hdrop : (code ++ suffix).drop m.ip.toNat = code.drop m.ip.toNat ++ suffix :=
          List.drop_append_of_le_length (Nat.le_of_lt hlt)
        cases hinside with
        | zeroDivisor hi' =>
            rw [haddress, hi] at hi'
            contradiction
        | unreadable hbytes =>
            rw [haddress] at hbytes
            have hi' : decodeAt? (code ++ suffix) m.ip.toNat = none := by
              rw [decodeAt?, hdrop]
              exact (hbytes.append suffix).decode?_eq_none
            obtain ⟨reached', hstep'⟩ := step_of_decodeAt?_eq_none hm hi'
            have hfaulted' : (m.step (code ++ suffix)).status = .faulted := by rw [hstep']
            rw [step_of_faulted hm hfaulted, step_of_faulted hm hfaulted', hdrop,
              hbytes.bytesRead_append]
  · rw [step_of_not_running hm, step_of_not_running hm]

/-- Neither are any steps that do not run past the end of the code. -/
theorem after_append {n : Nat}
    (h : (m.after code n).status = .faulted → (m.after code n).FaultsInside code)
    (suffix : List UInt8) : m.after (code ++ suffix) n = m.after code n := by
  induction n with
  | zero => rfl
  | succ n ih =>
      rw [after_succ] at h
      -- a machine that has faulted before the last step stays as it is
      have hbefore : (m.after code n).status = .faulted → (m.after code n).FaultsInside code := by
        intro hfaulted
        have hstays : (m.after code n).step code = m.after code n :=
          step_of_not_running (by simp [hfaulted])
        rw [hstays] at h
        exact h hfaulted
      rw [after_succ, after_succ, ih hbefore, step_append h]

/-! ## Runs in code with more code behind it -/

theorem Spends.unique {budget a b : Nat} (ha : m.Spends code budget a)
    (hb : m.Spends code budget b) :
    a = b := by
  rcases Nat.lt_trichotomy a b with hlt | heq | hlt
  · have hle := hb.le
    exact absurd (hb.running a hlt) (ha.last.resolve_left (by omega))
  · exact heq
  · have hle := ha.le
    exact absurd (ha.running b hlt) (hb.last.resolve_left (by omega))

/-- What is answered of a machine with more code behind the code where it has faulted. -/
theorem outcome_append (h : m.status = .faulted → m.lastAddress.toNat < code.length)
    (suffix : List UInt8) (limit : Option Nat) (steps : Nat) :
    m.outcome (code ++ suffix) limit steps = m.outcome code limit steps := by
  obtain ⟨registers, flag, status, lastAddress⟩ := m
  cases status with
  | faulted =>
      have hbyte : (code ++ suffix)[lastAddress.toNat]? = code[lastAddress.toNat]? :=
        List.getElem?_append_left (h rfl)
      simp only [outcome, hbyte]
  | _ => cases limit <;> rfl

/-- A run that does not end past the end of the code is the same with more code behind it. -/
theorem run_append_of_inside {limit : Option Nat} {horizon : Nat}
    (h : let last := (m.run code limit horizon).2
      last.status = .faulted → last.FaultsInside code) (suffix : List UInt8) :
    m.run (code ++ suffix) limit horizon = m.run code limit horizon := by
  obtain ⟨k, hspends, hrun⟩ := spends_run code limit horizon m
  obtain ⟨k', hspends', hrun'⟩ := spends_run (code ++ suffix) limit horizon m
  simp only [hrun] at h
  have hlast : m.after (code ++ suffix) k = m.after code k := after_append h suffix
  have hsame : m.Spends (code ++ suffix) (limit.getD horizon) k := by
    refine ⟨hspends.le, fun j hj => ?_, by rw [hlast]; exact hspends.last⟩
    have hrunning := hspends.running j hj
    rw [after_append (by simp [hrunning])]
    exact hrunning
  cases hspends'.unique hsame
  rw [hrun, hrun', hlast, outcome_append fun hfaulted => (h hfaulted).lastAddress_lt]

/-- A run that leaves a machine that has faulted answers with this fault. -/
theorem run_eq_fault_of_faulted {limit : Option Nat} {horizon : Nat}
    (h : (m.run code limit horizon).2.status = .faulted) :
    ∃ address byte, (m.run code limit horizon).1 = .error (.fault address byte) := by
  obtain ⟨k, -, hrun⟩ := spends_run code limit horizon m
  rw [hrun] at h ⊢
  exact ⟨_, _, outcome_eq_fault_iff.2 ⟨h, rfl, rfl⟩⟩

/-- A run that is changed by more code behind the code has ended past the end of the code. -/
theorem runsPastEnd_of_run_ne {limit : Option Nat} {horizon : Nat} {suffix : List UInt8}
    (hne : m.run (code ++ suffix) limit horizon ≠ m.run code limit horizon) :
    let last := (m.run code limit horizon).2
    last.status = .faulted ∧ last.RunsPastEnd code := by
  intro last
  have hfaulted : last.status = .faulted := by
    refine Classical.byContradiction fun hinside => hne ?_
    exact run_append_of_inside (fun hfaulted => absurd hfaulted hinside) suffix
  refine ⟨hfaulted, ?_⟩
  by_cases hm : m.status = .running
  · obtain ⟨address, byte, hfault⟩ := run_eq_fault_of_faulted hfaulted
    obtain ⟨k, hrunning, -, hstep, hlast, -⟩ := exists_step_of_run_eq_fault hm hfault
    have hreason := faultsInside_or_runsPastEnd hrunning hstep
    rw [← hlast] at hreason
    exact hreason.resolve_left fun hinside => hne (run_append_of_inside (fun _ => hinside) suffix)
  · -- a machine that has faulted before reports the byte at which it did
    have hlast : last = m := congrArg Prod.snd (run_of_not_running hm limit horizon)
    rw [run_of_not_running hm, run_of_not_running hm] at hne
    have hle : code.length ≤ last.lastAddress.toNat := by
      rw [hlast]
      refine Nat.le_of_not_lt fun hlt => hne ?_
      rw [outcome_append fun _ => hlt]
    rw [RunsPastEnd, List.drop_eq_nil_of_le hle]
    exact .nothing

/-- **More code behind some code changes no run that stays inside.** A run that halts, or hits its
limit, does so with the same answer and leaves the same machine; and so does a run that faults for a
reason in the code: at a byte that is no opcode that can be carried out, at a register byte that
names no register, or in a division by zero. A run that is changed has faulted where the code ended
before the instruction did. -/
theorem run_append (code suffix : List UInt8) (m : Machine) (limit : Option Nat) (horizon : Nat) :
    let here := m.run code limit horizon
    let there := m.run (code ++ suffix) limit horizon
    (∀ k, here.1 = .ok k → there = here) ∧
      (∀ n, here.1 = .error (.stepLimit n) → there = here) ∧
      (∀ address byte, here.1 = .error (.fault address byte) → here.2.FaultsInside code →
        there = here) ∧
      (there ≠ here →
        ∃ address byte, here.1 = .error (.fault address byte) ∧ here.2.RunsPastEnd code) := by
  intro here there
  have hinside (h : ∀ address byte, here.1 ≠ .error (.fault address byte)) : there = here := by
    refine run_append_of_inside (fun hfaulted => ?_) suffix
    obtain ⟨address, byte, hfault⟩ := run_eq_fault_of_faulted hfaulted
    exact absurd hfault (h address byte)
  refine ⟨fun k hk => hinside (by simp [hk]), fun n hn => hinside (by simp [hn]),
    fun _ _ _ hreason => run_append_of_inside (fun _ => hreason) suffix, fun hne => ?_⟩
  obtain ⟨hfaulted, hend⟩ := runsPastEnd_of_run_ne hne
  obtain ⟨address, byte, hfault⟩ := run_eq_fault_of_faulted hfaulted
  exact ⟨address, byte, hfault, hend⟩

/-- A load and a division by zero, which a halt behind it does not hide; and the same load without
its constant, which runs into the bytes of the halt. -/
theorem run_append_halt :
    let divides : List UInt8 := [1, 0, 5, 17, 0, 1]
    let cut : List UInt8 := [1, 0]
    initial.run (divides ++ [44]) none 9 = initial.run divides none 9 ∧
      (initial.run divides none 9).1 = .error (.fault 3 (some 17)) ∧
      initial.run (cut ++ [44, 44]) none 9 ≠ initial.run cut none 9 ∧
      (initial.run cut none 9).2.RunsPastEnd cut := by
  intro divides cut
  have hfault : (initial.run divides none 9).1 = .error (.fault 3 (some 17)) := rfl
  have hreason : (initial.run divides none 9).2.FaultsInside divides :=
    .zeroDivisor (i := .alu .div .w8 .r0 .r1) (by decide +kernel) ⟨.inl rfl, by decide +kernel⟩
  have hne : initial.run (cut ++ [44, 44]) none 9 ≠ initial.run cut none 9 := fun heq =>
    absurd (congrArg (·.2.status) heq) (by decide +kernel)
  obtain ⟨-, -, hsame, -⟩ := run_append divides [44] initial none 9
  obtain ⟨-, -, -, hchanged⟩ := run_append cut [44, 44] initial none 9
  obtain ⟨-, -, -, hend⟩ := hchanged hne
  exact ⟨hsame 3 (some 17) hfault hreason, hfault, hne, hend⟩

end Machine

end RegisterMachine
