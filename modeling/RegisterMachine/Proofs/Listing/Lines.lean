import RegisterMachine.Proofs.Instruction
import RegisterMachine.Proofs.Listing.Sweep

/-!
# RegisterMachine.Proofs.Listing.Lines

The lines of a listing.

* `Lists image marked a lines` -- the lines show the code from address `a` on, instruction by
  instruction, up to the end of the code or to the first byte at which none decodes, which is the
  last line;
* `lists_listing` -- the lines of a listing show the code from its start on;
* `marked_iff` -- the marked addresses are those that an instruction on some line jumps to.
-/

namespace RegisterMachine

open Instruction

namespace ListingLine

def isIllegal : ListingLine → Bool
  | .illegal _ _ _ => true
  | _ => false

end ListingLine

/-- Lines show the code from an address on, with headers where procedures stand. -/
inductive Lists (image : Image) (marked : Nat → Bool) : Nat → List ListingLine → Prop
  /-- The code has ended. -/
  | ended : Lists image marked image.code.length []
  /-- An instruction, and behind it what follows its bytes. -/
  | instruction {address : Nat} {i : Instruction} {later : List ListingLine}
      (decodes : decodeAt? image.code address = some i)
      (lists : Lists image marked (address + i.size) later) :
      Lists image marked address
        (image.headerLines address ++ .instruction address (marked address) i :: later)
  /-- The first byte at which no instruction stands, and nothing behind it. -/
  | illegal {address : Nat} {b : UInt8} (stands : image.code[address]? = some b)
      (undecodable : decodeAt? image.code address = none) :
      Lists image marked address
        (image.headerLines address ++ [.illegal address (marked address) b])

namespace Image

variable {image : Image}

/-- The addresses that an instruction of the sweep jumps to are marked. -/
def marked (image : Image) (address : Nat) : Bool :=
  (jumpTargets image.code).contains (UInt64.ofNat address)

/-- The lines of a part of the sweep. -/
def sweepLines (image : Image) (swept : Sweep) : List ListingLine :=
  swept.instructions.flatMap
      (fun (address, i) => image.instructionLines (jumpTargets image.code) address i) ++
    image.restLines (jumpTargets image.code) swept.stop swept.rest

/-- The lines of an instruction stand before the lines of what is swept behind it. -/
theorem sweepLines_cons (address : Nat) (i : Instruction) (later : Sweep) :
    image.sweepLines { later with instructions := (address, i) :: later.instructions } =
      image.headerLines address ++
        .instruction address (image.marked address) i :: image.sweepLines later := by
  simp [sweepLines, instructionLines, marked]

/-- What is swept from an address on is shown. -/
theorem lists_sweepFrom {address : Nat} {bytes : List UInt8} (h : image.code.drop address = bytes)
    (hle : address ≤ image.code.length) :
    Lists image image.marked address (image.sweepLines (sweepFrom address bytes)) := by
  induction address, bytes using sweepFrom.induct with
  | case1 address bytes hnone =>
      rw [sweepFrom_of_decode?_eq_none hnone]
      cases bytes with
      | nil =>
          have hend : address = image.code.length := Nat.le_antisymm hle (List.drop_eq_nil_iff.1 h)
          rw [hend]
          exact .ended
      | cons b rest =>
          have hstands : image.code[address]? = some b := by
            rw [← List.head?_drop, h, List.head?_cons]
          have hundecodable : decodeAt? image.code address = none := by rw [decodeAt?, h, hnone]
          exact .illegal hstands hundecodable
  | case2 address bytes i hsome ih =>
      have hdecodes : decodeAt? image.code address = some i := by rw [decodeAt?, h, hsome]
      have hlater : image.code.drop (address + i.size) = bytes.drop i.size := by
        rw [← List.drop_drop, h]
      rw [sweepFrom_of_decode?_eq_some hsome, sweepLines_cons]
      exact .instruction hdecodes (ih hlater (add_size_le_of_decodeAt? hdecodes))

/-- A listing shows the code from its start on. -/
theorem lists_listing (image : Image) : Lists image image.marked 0 image.listing :=
  lists_sweepFrom rfl (Nat.zero_le _)

/-- The instructions on the lines of a listing are those of the sweep, with the marks of their
addresses. -/
theorem instruction_mem_listing {address : Nat} {mark : Bool} {i : Instruction} :
    .instruction address mark i ∈ image.listing ↔
      (address, i) ∈ (sweep image.code).instructions ∧ mark = image.marked address := by
  have hrest : ∀ targets stop rest,
      .instruction address mark i ∉ image.restLines targets stop rest := by
    intro targets stop rest
    cases rest <;> simp [restLines, headerLines]
  simp only [listing, List.mem_append, hrest, or_false, List.mem_flatMap, instructionLines, marked]
  constructor
  · rintro ⟨⟨a, j⟩, hmem, hline⟩
    simp_all [headerLines]
  · rintro ⟨hmem, rfl⟩
    exact ⟨(address, i), hmem, by simp⟩

/-- An address is marked exactly if an instruction on a line of the listing jumps to it. -/
theorem marked_iff {address : Nat} :
    image.marked address = true ↔ ∃ origin i,
      (∃ mark, .instruction origin mark i ∈ image.listing) ∧
        i.target? origin = some (UInt64.ofNat address) := by
  simp [instruction_mem_listing, marked, jumpTargets]

theorem isIllegal_of_mem_headerLines {address : Nat} {l : ListingLine}
    (h : l ∈ image.headerLines address) : l.isIllegal = false := by
  simp only [headerLines, Option.mem_toList, Option.map_eq_some_iff] at h
  obtain ⟨name, -, rfl⟩ := h
  rfl

/-- The lines of an instruction show no illegal byte. -/
theorem forall_isIllegal_iff {address : Nat} {mark : Bool} {i : Instruction}
    {later : List ListingLine} :
    (∀ l ∈ image.headerLines address ++ .instruction address mark i :: later, l.isIllegal = false) ↔
      ∀ l ∈ later, l.isIllegal = false := by
  rw [List.forall_mem_append, List.forall_mem_cons]
  exact ⟨fun h => h.2.2, fun h => ⟨fun _ hl => isIllegal_of_mem_headerLines hl, rfl, h⟩⟩

end Image

/-- Lines of code that is decoded to its end show no illegal byte. -/
theorem Lists.isIllegal_of_covers {image : Image} {marked : Nat → Bool} {address : Nat}
    {lines : List ListingLine} {swept : List (Nat × Instruction)}
    (h : Lists image marked address lines)
    (hcovers : Covers image.code address swept image.code.length) :
    ∀ l ∈ lines, l.isIllegal = false := by
  generalize hstop : image.code.length = stop at hcovers
  induction hcovers generalizing lines with
  | done stop =>
      cases h with
      | ended => simp
      | @instruction _ i later decodes lists =>
          have hle := add_size_le_of_decodeAt? decodes
          have hpos := i.size_pos
          omega
      | illegal stands undecodable => simp [← hstop] at stands
  | @next address stop i swept decodes _ ih =>
      cases h with
      | ended =>
          have hle := add_size_le_of_decodeAt? decodes
          have hpos := i.size_pos
          omega
      | @instruction _ j later decodes' lists =>
          rw [decodes] at decodes'
          cases decodes'
          exact Image.forall_isIllegal_iff.2 (ih lists hstop)
      | illegal stands undecodable =>
          rw [decodes] at undecodable
          contradiction

end RegisterMachine
