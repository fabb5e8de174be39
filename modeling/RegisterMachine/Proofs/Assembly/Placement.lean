import RegisterMachine.Proofs.Assembly.Relocation
import RegisterMachine.Proofs.Assembly.Safety
import RegisterMachine.Proofs.Machine.Moved

/-!
# RegisterMachine.Proofs.Assembly.Placement

A program does the same wherever it stands among other programs.

The image of three programs one behind the other has the code of the middle one unchanged, and its
procedures moved; so a run that halts in its own image halts in the whole one as well
(`run_between_programs`).
-/

namespace RegisterMachine

section Placement

variable {procedures : List Procedure} {image : Image}

/-- The instructions of a program that does not name `ip` do not name it either. -/
theorem AvoidsIp.not_mem_registers (havoids : AvoidsIp procedures)
    (h : assembleProgram procedures = .ok image) (a : Nat) (i : Instruction)
    (hi : (a, i) ∈ (sweep image.code).instructions) : .ip ∉ i.registers := by
  intro hip
  obtain ⟨l, hl, action, haction, shown, hlowering, hmem⟩ := exists_action_of_mem_sweep h hi
  obtain ⟨p, hp, hs⟩ := exists_procedure_of_mem_linesFrom hl
  refine havoids p hp l.statement hs ?_
  rw [Statement.registers, haction]
  exact action.mem_registers_of_mem hlowering hmem hip

/-- A machine that is to start at a procedure is contained in the code. -/
theorem contained_setIp (h : assembleProgram procedures = .ok image)
    (hfits : image.code.length < UInt64.size) {e : Entry} (he : e ∈ image.procedures) {m : Machine}
    (hm : m.status = .running) : (m.setIp e.address).Contained image.code := by
  refine ⟨?_, fun hfault => ?_⟩
  · rw [procedures_of_assembleProgram h] at he
    obtain ⟨k, hk, rfl⟩ := List.mem_mapIdx.1 he
    rw [Machine.ip_setIp]
    exact boundary_of_assembleProgram h hfits _
  · rw [show (m.setIp e.address).status = m.status from rfl, hm] at hfault
    contradiction

end Placement

/-- Machines that are to start at an address and at a moved one are moved. -/
theorem Machine.moved_setIp_behind (m : Machine) (length : Nat) (e : Entry) :
    Moved length (m.setIp e.address) (m.setIp (e.behind length).address) where
  registers r hr :=
    (Registers.get_set_of_ne _ (Ne.symm hr) _).trans (Registers.get_set_of_ne _ (Ne.symm hr) _).symm
  flag := rfl
  status := rfl
  ip := by
    rw [ip_setIp, ip_setIp]
    rfl

/-- **A procedure that halts does so wherever it stands.** Put a program that does not name `ip`
between two others. Whatever the registers and the flag hold, a run from one of its procedures that
halts in the image of the program alone halts in the image of all three as well: after as many
steps, with the same data registers and the same flag, and with an `ip` that is larger by the length
of the code of the first program. The code must fit into the addresses of the machine. -/
theorem run_between_programs {before own behind : List Procedure} {first image last whole : Image}
    (hbefore : assembleProgram before = .ok first) (hown : assembleProgram own = .ok image)
    (hbehind : assembleProgram behind = .ok last)
    (hwhole : assembleProgram (before ++ own ++ behind) = .ok whole)
    (hfits : whole.code.length < UInt64.size) (havoids : AvoidsIp own) {number : Nat} {e : Entry}
    (he : image.procedures[number]? = some e) (m : Machine) (hm : m.status = .running)
    {limit : Option Nat} {horizon k : Nat}
    (hrun : ((m.setIp e.address).run image.code limit horizon).1 = .ok k) :
    ∃ e', whole.procedures[before.length + number]? = some e' ∧ e'.name = e.name ∧
      let halted := ((m.setIp e.address).run image.code limit horizon).2
      let halted' := ((m.setIp e'.address).run whole.code limit horizon).2
      ((m.setIp e'.address).run whole.code limit horizon).1 = .ok k ∧
        (∀ r, r ≠ .ip → halted'.registers.get r = halted.registers.get r) ∧
        halted'.flag = halted.flag ∧
        halted'.ip.toNat = first.code.length + halted.ip.toNat := by
  have hlinked := assembleProgram_append (assembleProgram_append hbefore hown) hbehind
  obtain rfl : whole = (first.link image).link last := by
    rw [hwhole] at hlinked
    exact Except.ok.inj hlinked
  have hcode : ((first.link image).link last).code = first.code ++ image.code ++ last.code := rfl
  rw [hcode, List.length_append, List.length_append] at hfits
  have hmem : e ∈ image.procedures := List.mem_of_getElem? he
  have hclosed := closedCode_of_assembleProgram hown havoids.keepsIp (by omega)
  have hcontained := contained_setIp hown (by omega) hmem hm
  refine ⟨e.behind first.code.length, ?_, rfl, ?_⟩
  · have hlt := (List.getElem?_eq_some_iff.1 he).1
    simp only [Image.link, List.append_assoc]
    rw [← length_procedures_of_assembleProgram hbefore, List.getElem?_append_right (by omega),
      Nat.add_sub_cancel_left, List.getElem?_append_left (by rwa [List.length_map]),
      List.getElem?_map, he, Option.map_some]
  · intro halted halted'
    have hmoved := m.moved_setIp_behind first.code.length e
    obtain ⟨hrun', hlast, hip⟩ :=
      hmoved.run_eq_ok hclosed (havoids.not_mem_registers hown) (by omega)
      last.code hcontained hrun
    exact ⟨hrun', hlast.registers, hlast.flag, hip⟩

/-- The countdown between its second procedure and its first one, each alone: it starts one byte
further, takes its twelve steps and halts one byte further. -/
theorem countdown_halts_between_programs :
    let stop := countdown.drop 1
    let main := countdown.take 1
    AvoidsIp countdown ∧ ∃ whole, assembleProgram (stop ++ countdown ++ main) = .ok whole ∧
      whole.procedures[1]? = some ⟨"main", 1⟩ ∧
      let halted := (Machine.initial.setIp 1).run whole.code none 100
      halted.1 = .ok 12 ∧ halted.2.registers.get .r0 = 0 ∧ halted.2.flag = .eq ∧
        halted.2.ip.toNat = 23 := by
  intro stop main
  let stopImage : Image := ⟨Image.currentVersion, [44], [⟨"stop", 0⟩]⟩
  let mainImage : Image := ⟨Image.currentVersion, countdownImage.code.take 21, [⟨"main", 0⟩]⟩
  have havoids : AvoidsIp countdown := by decide
  have hstop : assembleProgram stop = .ok stopImage := rfl
  have hown : assembleProgram countdown = .ok countdownImage := rfl
  have hmain : assembleProgram main = .ok mainImage := rfl
  have hwhole := assembleProgram_append (assembleProgram_append hstop hown) hmain
  have hentry : countdownImage.procedures[0]? = some ⟨"main", 0⟩ := rfl
  have hrun : ((Machine.initial.setIp 0).run countdownImage.code none 100).1 = .ok 12 := rfl
  obtain ⟨e', he', -, hrun', hregisters, hflag, hip⟩ :=
    run_between_programs hstop hown hmain hwhole (by decide) havoids hentry Machine.initial rfl hrun
  obtain rfl : (⟨"main", 1⟩ : Entry) = e' := Option.some.inj he'
  refine ⟨havoids, _, hwhole, he', hrun', ?_, ?_, ?_⟩
  · rw [hregisters .r0 (by decide)]
    decide +kernel
  · rw [hflag]
    decide +kernel
  · rw [hip]
    decide +kernel

end RegisterMachine
