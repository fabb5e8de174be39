import RegisterMachine.Proofs.Assembly.WellFormed
import RegisterMachine.Proofs.SourceUnit.Analysis

/-!
# RegisterMachine.Proofs.SourceUnit.WellFormed

Which source texts have an image.

A text that nothing is reported for is read as trees of well-spelt tokens, so nothing but the
rules of well-formed programs keeps it from having an image: no token is malformed, and no
statement lacks an operand.
-/

namespace RegisterMachine

namespace SourceUnit

variable {path content : String}

/-- The statements of a text that nothing is reported for are those of trees
of well-spelt tokens. -/
theorem parsed_of_isClean_analyze (h : (ofContent path content).analyze.isClean) :
    ∀ p ∈ (ofContent path content).analyze.procedures, ∀ s ∈ p.body, s.Parsed := by
  obtain ⟨ts, hvalid, hprocedures, hlexemes⟩ := exists_trees_of_isClean_analyze h
  intro p hp s hs
  rw [hprocedures] at hp
  obtain ⟨t, ht, rfl⟩ := List.mem_map.1 hp
  obtain ⟨statement, hstatement, rfl⟩ := List.mem_map.1 hs
  refine ⟨statement, (hvalid t ht).body statement hstatement, rfl, fun x hx => hlexemes x ?_⟩
  refine List.mem_flatMap.2 ⟨t, ht, List.mem_cons_of_mem _ (List.mem_cons_of_mem _ ?_)⟩
  exact List.mem_append_left _ (List.mem_flatMap.2 ⟨statement, hstatement, hx⟩)

/-- **Exactly the well-formed programs have an image.** In a text that nothing is reported for every
integer that is loaded stands for one number; and the text has an image exactly if no procedure
defines a label twice, every jump goes to a label of its procedure, every integer fits one of the
two types of its width, and every float is loaded at 32 or 64 bits. -/
theorem exists_image_iff_wellFormed (h : (ofContent path content).analyze.isClean) :
    let u := (ofContent path content).analyze
    (∀ p ∈ u.procedures, ∀ s ∈ p.body, ∀ t ∈ s.source, t.kind = .integer →
        ∃! v, IntegerLiteral t.text.toList v) ∧
      ((∃ image, u.image = .ok image) ↔ ∀ p ∈ u.procedures, p.WellFormed) := by
  intro u
  have hparsed := parsed_of_isClean_analyze h
  refine ⟨fun p hp s hs t ht hkind => ?_, exists_assembleProgram_iff hparsed⟩
  obtain ⟨tree, -, rfl, hlexemes⟩ := hparsed p hp s hs
  have hmem : t ∈ tree.tokens := by simp [StatementTree.tokens, Option.mem_def.1 ht]
  exact (hlexemes t hmem).exists_unique_integer hkind

end SourceUnit

/-- The least and the greatest number of 8 bits, a float and a jump to a label behind it. -/
def boundarySource : String :=
  "proc f u8_load r0 -128 i8_load r1 0xFF u64_load r2 -6.02E+23 jmp done done: end"

theorem wellFormed_boundarySource :
    let u := (SourceUnit.ofContent "boundary" boundarySource).analyze
    u.isClean ∧ (∃ image, u.image = .ok image) ∧ ∀ p ∈ u.procedures, p.WellFormed := by
  intro u
  have hclean : u.isClean := by decide +kernel
  have hok : u.image.isOk := by decide +kernel
  have himage : ∃ image, u.image = .ok image := by
    cases h : u.image with
    | ok image => exact ⟨image, rfl⟩
    | error e =>
        rw [h] at hok
        cases hok
  exact ⟨hclean, himage, (SourceUnit.exists_image_iff_wellFormed hclean).2.1 himage⟩

end RegisterMachine
