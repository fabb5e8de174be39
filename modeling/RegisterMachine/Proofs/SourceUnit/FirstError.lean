import RegisterMachine.Proofs.Assembly.FirstError
import RegisterMachine.Proofs.SourceUnit.WellFormed

/-!
# RegisterMachine.Proofs.SourceUnit.FirstError

Why a source text that nothing is reported for has no image.
-/

namespace RegisterMachine

namespace SourceUnit

/-- **The first error of a text.** A text that nothing is reported for fails with an
error exactly if the error is

* that of the first label, in source order, that its procedure has defined before; or,
* if no procedure defines a label twice, that of the first faulty statement in source order: a jump
  to a label that its procedure does not define, an integer that neither type of its width holds, or
  a float at a width without a binary format.

An integer beyond the limit of literals is said to be malformed and not to be out of range. No other
operand is malformed, and no statement is unsupported. -/
theorem image_eq_error_iff {path content : String} (h : (ofContent path content).analyze.isClean)
    (e : AssemblyError) :
    let u := (ofContent path content).analyze
    (u.image = .error e ↔
        FirstError (fun p => Redefines p.name.text [] p.body) u.procedures e ∨
          (∀ p ∈ u.procedures, (definedLabels p.body).Nodup) ∧
            FirstError (fun p =>
              FirstError (fun s => s.Fault p.name.text (definedLabels p.body)) p.body)
              u.procedures e) ∧
      (u.image = .error e → (∀ text, e.problem ≠ .unsupported text) ∧
        ∀ text, e.problem = .malformed text →
          ∃ v, IntegerLiteral text.toList v ∧ integerLimit < v.natAbs) := by
  intro u
  have herror := assembleProgram_eq_error_iff (parsed_of_isClean_analyze h) e
  refine ⟨herror, fun hfails => ?_⟩
  rcases herror.1 hfails with ⟨-, p, -, -, -, hredefines⟩ |
    ⟨-, -, p, -, -, -, -, s, -, -, -, hfault⟩
  · obtain ⟨label, hproblem⟩ := hredefines.exists_problem
    rw [hproblem]
    exact ⟨nofun, nofun⟩
  · exact hfault.beyondLimit_of_malformed

end SourceUnit

/-- A float at 8 bits, and behind it a label that is defined twice. -/
def redefiningSource : String :=
  "proc f i8_load r0 1.5 a: halt a: end"

theorem image_redefiningSource :
    let u := (SourceUnit.ofContent "redefining" redefiningSource).analyze
    let e : AssemblyError := ⟨.duplicateLabel "a" "f", ⟨1, 31⟩⟩
    u.isClean ∧ u.image = .error e ∧
      FirstError (fun p => Redefines p.name.text [] p.body) u.procedures e := by
  intro u e
  have hclean : u.isClean := by decide +kernel
  have himage : u.image = .error e := by decide +kernel
  obtain ⟨hfirst, -⟩ := SourceUnit.image_eq_error_iff hclean e
  have hnodup : ¬ ∀ p ∈ u.procedures, (definedLabels p.body).Nodup := by decide +kernel
  exact ⟨hclean, himage, (hfirst.1 himage).resolve_right fun hfault => hnodup hfault.1⟩

/-- A number just beyond the limit of literals is out of every range, but it is
said to be malformed. -/
theorem image_of_oversized_literal :
    let u := (SourceUnit.ofContent "oversized"
      "proc p i8_load r1 -170141183460469231731687303715884105728 end").analyze
    let text := "-170141183460469231731687303715884105728"
    u.isClean ∧ u.image = .error ⟨.malformed text, ⟨1, 19⟩⟩ ∧
      IntegerLiteral text.toList (-2 ^ 127) ∧ ¬ Width.w8.InRange (-2 ^ 127) := by
  intro u text
  have hall : (text.toList.drop 1).all (isDigitOf 10) := by decide +kernel
  have hdigits : IsDigits 10 (text.toList.drop 1) := ⟨by decide, List.all_eq_true.1 hall⟩
  have hsigned : text.toList = ['-'] ++ text.toList.drop 1 := by decide +kernel
  have hliteral := IntegerLiteral.decimal (.inr (.inr rfl)) hdigits
  have hvalue : applySign ['-'] (digitsNumber 10 (text.toList.drop 1)) = -2 ^ 127 := by
    decide +kernel
  rw [hvalue, ← hsigned] at hliteral
  exact ⟨by decide +kernel, by decide +kernel, hliteral,
    by simp [Width.InRange, Width.bits, Width.bytes]⟩

end RegisterMachine
