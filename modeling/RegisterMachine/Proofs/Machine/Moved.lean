import RegisterMachine.Proofs.Machine.Boundary

/-!
# RegisterMachine.Proofs.Machine.Moved

Code that stands behind other code.

The machine uses addresses only to read its instructions and to go on from them. So code that names
`ip` in no operand does the same wherever it stands: a machine in it and one `d` bytes further, in
the same code `d` bytes further, have the same data after every step (`Moved.after`). This ends
where the machine runs past the end of the code, since something else may stand there.
-/

namespace RegisterMachine

open Instruction

/-! ## Code inside other code -/

namespace Instruction

theorem readFields?_append {op : Opcode} {bytes : List UInt8} {i : Instruction}
    (h : readFields? op bytes = some i) (rest : List UInt8) :
    readFields? op (bytes ++ rest) = some i := by
  rw [readFields?] at h ⊢
  split at h
  next hlength =>
    have hle : op.shape.size - 1 ≤ bytes.length := by
      rw [List.length_take] at hlength
      omega
    simp only [List.take_append_of_le_length hle, hlength, if_true]
    exact h
  next => contradiction

/-- What follows an instruction does not matter to it. -/
theorem decode?_append {bytes : List UInt8} {i : Instruction} (h : decode? bytes = some i)
    (rest : List UInt8) : decode? (bytes ++ rest) = some i := by
  cases bytes with
  | nil => contradiction
  | cons b bytes =>
      rw [decode?_cons] at h
      obtain ⟨op, hop, hi⟩ := Option.bind_eq_some_iff.1 h
      rw [List.cons_append, decode?_cons, hop, Option.bind_some, readFields?_append hi]

/-- An instruction of some code decodes in it wherever the code stands. -/
theorem decodeAt?_append {code : List UInt8} {address : Nat} {i : Instruction}
    (h : decodeAt? code address = some i) (before after : List UInt8) :
    decodeAt? (before ++ code ++ after) (before.length + address) = some i := by
  have hle : address ≤ code.length := by
    rw [← Nat.not_lt]
    intro hlt
    rw [decodeAt?, List.drop_eq_nil_of_le (Nat.le_of_lt hlt)] at h
    contradiction
  rw [decodeAt?, List.append_assoc, ← List.drop_drop, List.drop_left,
    List.drop_append_of_le_length hle]
  exact decode?_append h after

end Instruction

/-! ## Moved machines -/

namespace Machine

/-- The second machine is the first one `d` bytes further: all that differs is `ip`, and
where the last step began. -/
structure Moved (d : Nat) (m m' : Machine) : Prop where
  registers : ∀ r, r ≠ .ip → m'.registers.get r = m.registers.get r
  flag : m'.flag = m.flag
  status : m'.status = m.status
  ip : m'.ip = UInt64.ofNat d + m.ip

namespace Moved

variable {d : Nat} {m m' : Machine}

theorem view (h : Moved d m m') (t : IntType) {r : Register} (hr : r ≠ .ip) :
    m'.registers.view t r = m.registers.view t r := by
  rw [Registers.view, Registers.view, h.registers r hr]

theorem setIp (h : Moved d m m') {address address' : UInt64}
    (haddress : address' = UInt64.ofNat d + address) :
    Moved d (m.setIp address) (m'.setIp address') where
  registers r hr := by
    have hne := Ne.symm hr
    exact (Registers.get_set_of_ne _ hne _).trans
      ((h.registers r hr).trans (Registers.get_set_of_ne _ hne _).symm)
  flag := h.flag
  status := h.status
  ip := by rw [ip_setIp, ip_setIp, haddress]

theorem skip (h : Moved d m m') (offset : UInt64) : Moved d (m.skip offset) (m'.skip offset) :=
  h.setIp (by rw [h.ip, UInt64.add_assoc])

/-- Both machines find an instruction as it is to be found. -/
theorem past (h : Moved d m m') (i : Instruction) : Moved d (m.past i) (m'.past i) := by
  have hip : UInt64.ofNat (m'.ip.toNat + i.size) =
      UInt64.ofNat d + UInt64.ofNat (m.ip.toNat + i.size) := by
    rw [UInt64.ofNat_add, UInt64.ofNat_add, UInt64.ofNat_toNat, UInt64.ofNat_toNat, h.ip,
      UInt64.add_assoc]
  have hset := h.setIp hip
  exact ⟨hset.registers, hset.flag, hset.status, hset.ip⟩

theorem put (h : Moved d m m') (w : Width) {r : Register} (hr : r ≠ .ip) (v : Int) :
    Moved d { m with registers := m.registers.put w r v }
      { m' with registers := m'.registers.put w r v } where
  registers s hs := by
    simp only [Registers.put, Registers.get_set, h.registers r hr, h.registers s hs]
  flag := h.flag
  status := h.status
  ip := by rw [ip_put _ _ hr, ip_put _ _ hr, h.ip]

/-- An instruction that does not name `ip` does the same to both machines. -/
theorem execute? (h : Moved d m m') {i : Instruction} (hi : .ip ∉ i.registers) :
    Moved d ((i.execute? m).getD { m with status := .faulted })
      ((i.execute? m').getD { m' with status := .faulted }) := by
  cases i with
  | load w destination value => exact h.put w (by simpa [Instruction.registers, eq_comm] using hi) _
  | alu op w destination source =>
      simp only [Instruction.registers, List.mem_cons, List.not_mem_nil, or_false, not_or] at hi
      simp only [Instruction.execute?, h.view _ (Ne.symm hi.1), h.view _ (Ne.symm hi.2)]
      cases op.arithmetic.result? (m.registers.view ⟨op.signed, w⟩ destination)
          (m.registers.view ⟨op.signed, w⟩ source) with
      | none => exact ⟨h.registers, h.flag, rfl, h.ip⟩
      | some v => exact h.put w (Ne.symm hi.1) v
  | compare signed w left right =>
      simp only [Instruction.registers, List.mem_cons, List.not_mem_nil, or_false, not_or] at hi
      simp only [Instruction.execute?, h.view _ (Ne.symm hi.1), h.view _ (Ne.symm hi.2)]
      exact ⟨h.registers, rfl, h.status, h.ip⟩
  | jump offset => exact h.skip offset
  | jumpIf c offset =>
      simp only [Instruction.execute?, h.flag, Option.getD_some]
      split
      next => exact h.skip offset
      next => exact h
  | halt => exact ⟨h.registers, h.flag, rfl, h.ip⟩

/-- One step where both machines read the same instruction. -/
theorem step (h : Moved d m m') {code code' : List UInt8} {i : Instruction}
    (hm : m.status = .running)
    (hcode : decodeAt? code m.ip.toNat = some i) (hcode' : decodeAt? code' m'.ip.toNat = some i)
    (hi : .ip ∉ i.registers) : Moved d (m.step code) (m'.step code') := by
  rw [step_of_decodeAt? hm hcode, step_of_decodeAt? (h.status.trans hm) hcode']
  exact (h.past i).execute? hi

theorem toNat_ip (h : Moved d m m') (hlt : d + m.ip.toNat < UInt64.size) :
    m'.ip.toNat = d + m.ip.toNat := by
  have hd : d < UInt64.size := Nat.lt_of_le_of_lt (Nat.le_add_right _ _) hlt
  rw [h.ip, UInt64.toNat_add, UInt64.toNat_ofNat_of_lt' hd]
  exact Nat.mod_eq_of_lt hlt

/-! ## Runs in code behind other code -/

section Runs

variable {code : List UInt8} (hcode : ClosedCode code)
  (havoids : ∀ a i, (a, i) ∈ (sweep code).instructions → .ip ∉ i.registers)
  {before : List UInt8} (hfits : before.length + code.length < UInt64.size) (behind : List UInt8)
  (h : Moved before.length m m') (hm : m.Contained code)

include hcode havoids hfits h hm

/-- As long as the first machine does not fault, the second one keeps up with it. -/
theorem after {n : Nat} (hn : (m.after code n).status ≠ .faulted) :
    Moved before.length (m.after code n) (m'.after (before ++ code ++ behind) n) := by
  induction n with
  | zero => exact h
  | succ n ih =>
      rw [after_succ] at hn
      rw [after_succ, after_succ]
      by_cases hrunning : (m.after code n).status = .running
      · have hmoved := ih (by simp [hrunning])
        -- past the end of the code the first machine would fault
        rcases (hm.after hcode n).boundary with hend | ⟨i, hi⟩
        · rw [step_of_length_le hrunning (Nat.le_of_eq hend.symm)] at hn
          exact absurd rfl hn
        · have hdecodes := hcode.covers.decodes hi
          have hle := (hm.after hcode n).toNat_ip_le hcode
          refine hmoved.step hrunning hdecodes ?_ (havoids _ i hi)
          rw [hmoved.toNat_ip (by omega)]
          exact decodeAt?_append hdecodes before behind
      · rw [step_of_not_running hrunning] at hn ⊢
        have hmoved := ih hn
        rwa [step_of_not_running (by rwa [hmoved.status])]

/-- A run that halts does so behind other code as well, after as many steps. -/
theorem run_eq_ok {limit : Option Nat} {horizon k : Nat}
    (hrun : (m.run code limit horizon).1 = .ok k) :
    (m'.run (before ++ code ++ behind) limit horizon).1 = .ok k ∧
      Moved before.length (m.run code limit horizon).2
        (m'.run (before ++ code ++ behind) limit horizon).2 ∧
      (m'.run (before ++ code ++ behind) limit horizon).2.ip.toNat =
        before.length + (m.run code limit horizon).2.ip.toNat := by
  obtain ⟨hbudget, hstops, hhalted⟩ := run_eq_ok_iff.1 hrun
  have hmoved {j : Nat} (hj : (m.after code j).status ≠ .faulted) :=
    h.after hcode havoids hfits behind hm hj
  have hlast := hmoved (j := k) (by simp [hhalted])
  have hstops' : m'.StopsAfter (before ++ code ++ behind) k := by
    refine ⟨fun j hj => ?_, ?_⟩
    · have hrunning := hstops.running j hj
      exact (hmoved (by simp [hrunning])).status.trans hrunning
    · rw [hlast.status]
      exact hstops.stopped
  refine ⟨run_eq_ok_iff.2 ⟨hbudget, hstops', hlast.status.trans hhalted⟩, ?_⟩
  rw [run_of_stopsAfter hbudget hstops, run_of_stopsAfter hbudget hstops']
  have hle := (hm.after hcode k).toNat_ip_le hcode
  exact ⟨hlast, hlast.toNat_ip (by omega)⟩

end Runs

end Moved

end Machine

end RegisterMachine
