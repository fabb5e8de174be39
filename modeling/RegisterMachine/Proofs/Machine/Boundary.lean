import RegisterMachine.Proofs.Listing.Sweep
import RegisterMachine.Proofs.Machine.Run

/-!
# RegisterMachine.Proofs.Machine.Boundary

Runs that stay on the boundaries between instructions.

Code is closed when a sweep covers it, every jump in it goes to a boundary and nothing but a jump
writes `ip`. In closed code a machine that starts on a boundary stays on boundaries
(`Contained.after`), and all that can go wrong is a division by zero or a run past the end.
-/

namespace RegisterMachine

/-! ## Closed code -/

/-- An instruction of the sweep starts at the address, or the code ends there. -/
def Boundary (code : List UInt8) (address : Nat) : Prop :=
  address = code.length ∨ ∃ i, (address, i) ∈ (sweep code).instructions

/-- The register that an instruction loads or computes into. -/
def Instruction.written? : Instruction → Option Register
  | .load _ destination _ => some destination
  | .alu _ _ destination _ => some destination
  | _ => none

/-- The registers that an instruction names. -/
def Instruction.registers : Instruction → List Register
  | .load _ destination _ => [destination]
  | .alu _ _ destination source => [destination, source]
  | .compare _ _ left right => [left, right]
  | _ => []

/-- Code that is all instructions, with jumps to boundaries only. -/
structure ClosedCode (code : List UInt8) : Prop where
  covers : Covers code 0 (sweep code).instructions code.length
  fits : code.length < UInt64.size
  targets : ∀ a i, (a, i) ∈ (sweep code).instructions →
    ∀ t, i.target? a = some t → Boundary code t.toNat
  keepsIp : ∀ a i, (a, i) ∈ (sweep code).instructions → i.written? ≠ some .ip

theorem ClosedCode.after {code : List UInt8} (hcode : ClosedCode code) {a : Nat} {i : Instruction}
    (hi : (a, i) ∈ (sweep code).instructions) :
    Boundary code (UInt64.ofNat (a + i.size)).toNat := by
  have hle := hcode.covers.add_size_le hi
  have hfits := hcode.fits
  rw [UInt64.toNat_ofNat_of_lt' (by omega)]
  exact hcode.covers.after hi

/-! ## Runs in closed code -/

namespace Machine

variable {code : List UInt8} {m m' : Machine} {i : Instruction}

/-- The next instruction follows, or it is the target of a jump. -/
theorem ip_of_execute? (h : i.execute? (m.past i) = some m') (hi : i.written? ≠ some .ip) :
    m'.ip = (m.past i).ip ∨ i.target? m.ip.toNat = some m'.ip := by
  cases i with
  | load w destination constant =>
      have hne : destination ≠ .ip := fun heq => hi (congrArg some heq)
      refine .inl ?_
      rw [← Option.some.inj h]
      exact Registers.get_set_of_ne _ hne _
  | alu op w destination source =>
      have hne : destination ≠ .ip := fun heq => hi (congrArg some heq)
      obtain ⟨v, -, rfl⟩ := Option.map_eq_some_iff.1 h
      exact .inl (Registers.get_set_of_ne _ hne _)
  | compare signed w left right => exact .inl (Option.some.inj h ▸ rfl)
  | jump offset =>
      rw [Instruction.execute?, Instruction.setIp_targetAddress] at h
      refine .inr ?_
      rw [← Option.some.inj h, ip_setIp]
      rfl
  | jumpIf c offset =>
      simp only [Instruction.execute?, Instruction.setIp_targetAddress] at h
      have h := Option.some.inj h
      split at h
      · refine .inr ?_
        rw [← h, ip_setIp]
        rfl
      · exact .inl (h ▸ rfl)
  | halt => exact .inl (Option.some.inj h ▸ rfl)

/-- The machine stands on a boundary; if it has faulted, then past the end or in a division by zero.
-/
structure Contained (code : List UInt8) (m : Machine) : Prop where
  boundary : Boundary code m.ip.toNat
  fault : m.status = .faulted → m.lastAddress.toNat = code.length ∨
    ∃ i, (m.lastAddress.toNat, i) ∈ (sweep code).instructions ∧ i.DividesByZero m

namespace Contained

theorem toNat_ip_le (hcode : ClosedCode code) (h : m.Contained code) :
    m.ip.toNat ≤ code.length := by
  rcases h.boundary with hend | ⟨i, hi⟩
  · exact Nat.le_of_eq hend
  · exact Nat.le_trans (Nat.le_add_right _ _) (hcode.covers.add_size_le hi)

theorem step (hcode : ClosedCode code) (h : m.Contained code) : (m.step code).Contained code := by
  by_cases hm : m.status = .running
  · rcases h.boundary with hend | ⟨i, hi⟩
    · rw [step_of_length_le hm (Nat.le_of_eq hend.symm)]
      exact ⟨.inl hend, fun _ => .inl hend⟩
    · have hnext : Boundary code (m.past i).ip.toNat := by
        rw [ip_past]
        exact hcode.after hi
      rw [step_of_decodeAt? hm (hcode.covers.decodes hi)]
      cases heffect : i.execute? (m.past i) with
      | none =>
          have hzero := Instruction.execute?_eq_none_iff.1 heffect
          refine ⟨hnext, fun _ => .inr ⟨i, hi, ?_⟩⟩
          cases i <;> exact hzero
      | some m' =>
          have hrunning : (m.past i).status = .running := hm
          have hstatus := Instruction.status_of_execute? hrunning heffect
          refine ⟨?_, fun hfault => absurd hfault hstatus⟩
          rcases ip_of_execute? heffect (hcode.keepsIp _ i hi) with hip | htarget
          · rw [Option.getD_some, hip]
            exact hnext
          · exact hcode.targets _ i hi _ htarget
  · rw [step_of_not_running hm]
    exact h

theorem after (hcode : ClosedCode code) (h : m.Contained code) (n : Nat) :
    (m.after code n).Contained code := by
  induction n generalizing m with
  | zero => exact h
  | succ n ih => exact ih (h.step hcode)

end Contained

end Machine

end RegisterMachine
