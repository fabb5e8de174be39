import RegisterMachine.Proofs.Assembly.Relocation
import RegisterMachine.Proofs.SourceUnit.Canonical
import RegisterMachine.Proofs.Token.Seam

/-!
# RegisterMachine.Proofs.SourceUnit.Linking

Source texts one below the other are assembled to their images, linked.

* `analyze_append` -- no token and no procedure goes on over the newline between two texts;
* `assemble_append` -- so the image of both texts is that of the first one with that of
  the second one behind it.
-/

namespace RegisterMachine

/-- The same procedures up to their places have the same image. -/
theorem assembleProgram_of_map_unplaced_eq {procedures procedures' : List Procedure} {image : Image}
    (hsame : procedures'.map Procedure.unplaced = procedures.map Procedure.unplaced)
    (h : assembleProgram procedures = .ok image) : assembleProgram procedures' = .ok image := by
  have hunplaced := assembleProgram_map_unplaced procedures'
  rw [hsame, assembleProgram_map_unplaced, h] at hunplaced
  exact mapError_eq_ok_iff.1 hunplaced.symm

/-- Procedures of an image are entered inside its code, or where it ends. -/
theorem address_le_of_assembleProgram {procedures : List Procedure} {image : Image}
    (h : assembleProgram procedures = .ok image) (hfits : image.code.length < UInt64.size)
    {e : Entry} (he : e ∈ image.procedures) : e.address.toNat ≤ image.code.length := by
  rw [procedures_of_assembleProgram h] at he
  obtain ⟨k, hk, rfl⟩ := List.mem_mapIdx.1 he
  have hle := addressOf_le (linesOf procedures) (firstLine procedures k)
  rw [← length_code_of_assembleProgram h] at hle
  rwa [UInt64.toNat_ofNat_of_lt' (Nat.lt_of_le_of_lt hle hfits)]

/-- In code that fits into the addresses, a procedure is moved by as many
bytes as stand before it. -/
theorem Entry.toNat_address_behind {e : Entry} {length : Nat}
    (h : length + e.address.toNat < UInt64.size) :
    (e.behind length).address.toNat = length + e.address.toNat := by
  have hlength : length < UInt64.size := Nat.lt_of_le_of_lt (Nat.le_add_right _ _) h
  rw [Entry.behind, UInt64.toNat_add, UInt64.toNat_ofNat_of_lt' hlength]
  exact Nat.mod_eq_of_lt h

namespace SourceUnit

variable {path path' first second : String}

theorem assemble_eq_ok_iff {u : SourceUnit} {image : Image} :
    u.assemble = .ok image ↔ u.analyze.isClean ∧ u.analyze.image = .ok image := by
  by_cases h : u.analyze.isClean
  · rw [assemble_of_isClean h, mapError_eq_ok_iff]
    exact (and_iff_right h).symm
  · simp [assemble, checkedImage, h]

/-- No token and no procedure goes on over the newline between two texts. -/
theorem analyze_append (h : (ofContent path first).analyze.isClean)
    (h' : (ofContent path' second).analyze.isClean) (joined : String) :
    (ofContent joined (first ++ "\n" ++ second)).analyze.isClean ∧
      (ofContent joined (first ++ "\n" ++ second)).analyze.procedures.map Procedure.unplaced =
        ((ofContent path first).analyze.procedures ++
          (ofContent path' second).analyze.procedures).map Procedure.unplaced := by
  obtain ⟨ts, hvalid, hprocedures, htokens⟩ := exists_trees_of_tokens_scan h
  obtain ⟨ts', hvalid', hprocedures', htokens'⟩ := exists_trees_of_tokens_scan h'
  have hclean := isClean_scan_iff.1 (isClean_analyze_iff.1 h).1
  have hclean' := isClean_scan_iff.1 (isClean_analyze_iff.1 h').1
  have hcut : pieces (first ++ "\n" ++ second).toList =
      pieces first.toList ++ .blank '\n' :: pieces second.toList := by
    rw [← pieces_append_newline_cons, String.toList_append, String.toList_append, List.append_assoc]
    rfl
  -- the trees of both texts write the tokens of the joined one
  rw [hprocedures, hprocedures', ← List.map_append]
  refine analyze_of_pieces (List.forall_mem_append.2 ⟨hvalid, hvalid'⟩) ?_ ?_
  · rw [hcut]
    exact List.forall_mem_append.2 ⟨hclean, List.forall_mem_cons.2 ⟨.blank '\n', hclean'⟩⟩
  · rw [hcut, List.filterMap_append, List.filterMap_cons_none rfl, List.flatMap_append, htokens,
      htokens', List.map_append, map_unplaced_tokens_scan, map_unplaced_tokens_scan]

/-- **Texts one below the other are linked.** If two source texts have images, so has the first one
with the second one below it: its code is the code of the first text with that of the second one
behind it, and its procedures are those of the first text and those of the second one, moved by the
length of the code of the first. An address is moved modulo `2 ^ 64`, which makes no difference to
code that fits into the addresses of the machine. -/
theorem assemble_append {image image' : Image} (h : (ofContent path first).assemble = .ok image)
    (h' : (ofContent path' second).assemble = .ok image') (joined : String) :
    (ofContent joined (first ++ "\n" ++ second)).assemble = .ok {
        version := Image.currentVersion
        code := image.code ++ image'.code
        procedures := image.procedures ++ image'.procedures.map (Entry.behind image.code.length) } ∧
      ((image.code ++ image'.code).length < UInt64.size → ∀ e ∈ image'.procedures,
        (e.behind image.code.length).address.toNat = image.code.length + e.address.toNat) := by
  obtain ⟨hclean, himage⟩ := assemble_eq_ok_iff.1 h
  obtain ⟨hclean', himage'⟩ := assemble_eq_ok_iff.1 h'
  obtain ⟨hjoined, hsame⟩ := analyze_append hclean hclean' joined
  refine ⟨assemble_eq_ok_iff.2 ⟨hjoined, ?_⟩, fun hfits e he => Entry.toNat_address_behind ?_⟩
  · exact assembleProgram_of_map_unplaced_eq hsame (assembleProgram_append himage himage')
  · rw [List.length_append] at hfits
    have hle := address_le_of_assembleProgram himage' (by omega) he
    omega

end SourceUnit

/-- A procedure without an `end`, and one with a label of the same spelling that is used
before it is defined. -/
def loopSource : String :=
  "proc loop again: jmp again"

def skipSource : String :=
  "proc skip jmp again\n again: halt end"

def loopImage : Image where
  version := Image.currentVersion
  code := [37, 247, 255, 255, 255, 255, 255, 255, 255]
  procedures := [⟨"loop", 0⟩]

def skipImage : Image where
  version := Image.currentVersion
  code := [37, 0, 0, 0, 0, 0, 0, 0, 0, 44]
  procedures := [⟨"skip", 0⟩]

theorem assemble_loopSource_skipSource :
    (SourceUnit.ofContent "loop" loopSource).assemble = .ok loopImage ∧
      (SourceUnit.ofContent "skip" skipSource).assemble = .ok skipImage ∧
      (SourceUnit.ofContent "both" (loopSource ++ "\n" ++ skipSource)).assemble = .ok {
        version := Image.currentVersion
        code := loopImage.code ++ skipImage.code
        procedures := [⟨"loop", 0⟩, ⟨"skip", 9⟩] } := by
  have hloop : (SourceUnit.ofContent "loop" loopSource).assemble = .ok loopImage := by
    decide +kernel
  have hskip : (SourceUnit.ofContent "skip" skipSource).assemble = .ok skipImage := by
    decide +kernel
  exact ⟨hloop, hskip, (SourceUnit.assemble_append hloop hskip "both").1⟩

end RegisterMachine
