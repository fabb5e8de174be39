import RegisterMachine.Proofs.Assembly.Unplaced
import RegisterMachine.Proofs.Program.Canonical
import RegisterMachine.Proofs.SourceUnit.Analysis

/-!
# RegisterMachine.Proofs.SourceUnit.Canonical

A source text and its canonical text are the same program, up to the places of its tokens.
-/

namespace RegisterMachine

namespace SourceUnit

variable {u u' : SourceUnit}

/-- The same procedures up to their places have the same image, or errors of the same problem. -/
theorem image_of_map_unplaced_eq
    (h : u'.procedures.map Procedure.unplaced = u.procedures.map Procedure.unplaced) :
    (∃ image, u.image = .ok image ∧ u'.image = .ok image) ∨
      ∃ e e', u.image = .error e ∧ u'.image = .error e' ∧ e'.problem = e.problem := by
  have hunplaced :
      u.image.mapError AssemblyError.unplaced = u'.image.mapError AssemblyError.unplaced := by
    rw [image, image, ← assembleProgram_map_unplaced, ← h, assembleProgram_map_unplaced]
  rcases ok_or_error_of_mapError_eq hunplaced with hok | ⟨e, e', he, he', hsame⟩
  · exact .inl hok
  · injection hsame with hproblem
    exact .inr ⟨e, e', he, he', hproblem.symm⟩

theorem assemble_of_isClean (h : u.analyze.isClean) :
    u.assemble = u.analyze.image.mapError .assembly :=
  if_pos h

/-- **A canonical text is read back.** The canonical text of a source text without reports is
analyzed without a report and has the same procedures up to the places of their tokens. So its
canonical text is itself, and it has the same image as the source text, or neither has one
because of the same problem. -/
theorem analyze_canonical (path path' content : String)
    (h : (ofContent path content).analyze.isClean) :
    let source := ofContent path content
    let written := ofContent path' source.analyze.canonical
    written.analyze.isClean ∧
      written.analyze.procedures.map Procedure.unplaced =
        source.analyze.procedures.map Procedure.unplaced ∧
      written.analyze.canonical = source.analyze.canonical ∧
      ((∃ image, source.assemble = .ok image ∧ written.assemble = .ok image) ∨
        ∃ e e', source.assemble = .error (.assembly e) ∧ written.assemble = .error (.assembly e') ∧
          e'.problem = e.problem) := by
  intro source written
  obtain ⟨ts, hvalid, hprocedures, hlexemes⟩ := exists_trees_of_isClean_analyze h
  have hcanonical : ∀ t ∈ ts.map ProcedureTree.canonical, t.Valid :=
    List.forall_mem_map.2 fun t ht => (hvalid t ht).canonical
  have hreads : Reads source.analyze.canonical.toList
      ((ts.map ProcedureTree.canonical).flatMap ProcedureTree.tokens) := by
    rw [canonical, hprocedures]
    exact reads_canonicalText hvalid hlexemes
  have hwritten : written.analyze.isClean ∧ _ := analyze_of_reads hcanonical hreads
  obtain ⟨hclean, hsame⟩ := hwritten
  have hprocedure : (ts.map ProcedureTree.canonical).map ProcedureTree.procedure =
      source.analyze.procedures := by
    rw [hprocedures, List.map_map]
    exact List.map_congr_left fun t _ => t.procedure_canonical
  rw [hprocedure] at hsame
  refine ⟨hclean, hsame, ?_, ?_⟩
  · rw [canonical, canonical, ← canonicalText_map_unplaced, hsame, canonicalText_map_unplaced]
  · rw [assemble_of_isClean h, assemble_of_isClean hclean]
    rcases image_of_map_unplaced_eq hsame with ⟨image, hu, hu'⟩ | ⟨e, e', hu, hu', hproblem⟩
    · rw [hu, hu']
      exact .inl ⟨image, rfl, rfl⟩
    · rw [hu, hu']
      exact .inr ⟨e, e', rfl, rfl, hproblem⟩

end SourceUnit

/-- A procedure on one line, without an `end` and with words in a mixture of cases. -/
def inlineSource : String :=
  "Proc spin top: I32_load r0 -0x1F JMP top"

theorem canonical_inlineSource :
    let source := SourceUnit.ofContent "inline" inlineSource
    let text := "PROC spin\ntop:\n  I32_load r0 -0x1F\n  JMP top\nEND\n"
    let written := SourceUnit.ofContent "written" text
    source.analyze.isClean ∧ source.analyze.canonical = text ∧ written.analyze.isClean ∧
      written.analyze.procedures.map Procedure.unplaced =
        source.analyze.procedures.map Procedure.unplaced ∧
      written.analyze.canonical = text ∧
      ∃ image, source.assemble = .ok image ∧ written.assemble = .ok image := by
  intro source text written
  have hclean : source.analyze.isClean := by decide +kernel
  have htext : source.analyze.canonical = text := by decide +kernel
  have hok : source.assemble.isOk := by decide +kernel
  obtain ⟨hwritten, hsame, hcanonical, hassemble⟩ :=
    SourceUnit.analyze_canonical "inline" "written" inlineSource hclean
  change (SourceUnit.ofContent "written" source.analyze.canonical).analyze.isClean at hwritten
  rw [htext] at hwritten hsame hcanonical hassemble
  refine ⟨hclean, htext, hwritten, hsame, hcanonical, ?_⟩
  rcases hassemble with hassemble | ⟨e, e', he, -⟩
  · exact hassemble
  · rw [show source.assemble = .error (.assembly e) from he] at hok
    cases hok

end RegisterMachine
