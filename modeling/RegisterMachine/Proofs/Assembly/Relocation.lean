import RegisterMachine.Proofs.Assembly.Emission

/-!
# RegisterMachine.Proofs.Assembly.Relocation

Assembled code does not depend on its address.

* Every function of the assembler commutes with `shift`: at an address that is larger by `d`, all
  addresses of a layout are larger by `d`, and the instructions are the same (`layout_shift`,
  `assembleProcedures_shift`);
* `assembleProgram_append` -- so the image of two programs, one behind the other, is the images of
  both, linked: the code of one behind the other, and the procedures of the second one moved by the
  code of the first.
-/

namespace RegisterMachine

open Instruction

/-! ## Shifted addresses -/

/-- The labels at addresses that are larger by `d`. -/
def shiftLabels (d : Nat) (labels : Labels) : Labels :=
  labels.map fun (label, address) => (label, d + address)

/-- The layout at addresses that are larger by `d`. -/
def ProcedureLayout.shift (d : Nat) (l : ProcedureLayout) : ProcedureLayout :=
  ⟨d + l.address, shiftLabels d l.labels⟩

theorem lookup_shiftLabels (d : Nat) (labels : Labels) (label : String) :
    (shiftLabels d labels).lookup label = (labels.lookup label).map (d + ·) := by
  induction labels with
  | nil => rfl
  | cons first labels ih =>
      obtain ⟨l, address⟩ := first
      rw [shiftLabels, List.map_cons, List.lookup_cons, List.lookup_cons]
      split
      next => rfl
      next => exact ih

/-- The offset of a jump depends on the distance to its target only. -/
theorem jumpOffset_shift (d address target : Nat) :
    jumpOffset (d + address) (d + target) = jumpOffset address target := by
  simp only [jumpOffset, Nat.add_assoc, UInt64.ofNat_add]
  grind

section Shift

variable (d : Nat) (procedure : String) (labels : Labels) (address : Nat)

theorem targetAddress_shift (s : Statement) :
    s.targetAddress procedure (shiftLabels d labels) =
      (s.targetAddress procedure labels).map (d + ·) := by
  rw [Statement.targetAddress, Statement.targetAddress, except_map_bind]
  refine bind_congr fun t => ?_
  rw [lookup_shiftLabels]
  cases labels.lookup t.text <;> rfl

theorem instructions_shift (s : Statement) :
    s.instructions procedure (shiftLabels d labels) (d + address) =
      s.instructions procedure labels address := by
  rw [Statement.instructions, Statement.instructions]
  split
  next => rfl
  next => rfl
  next m hform =>
    cases m with
    | branch condition type =>
        simp only [targetAddress_shift, except_bind_map, Nat.add_assoc, jumpOffset_shift]
    | jump => simp only [targetAddress_shift, except_bind_map, jumpOffset_shift]
    | _ => rfl

theorem assembleBody_shift (body : List Statement) :
    assembleBody procedure (shiftLabels d labels) (d + address) body =
      assembleBody procedure labels address body := by
  induction body generalizing address with
  | nil => rfl
  | cons s body ih => simp only [assembleBody, instructions_shift, Nat.add_assoc, ih]

theorem defineLabel_shift (s : Statement) :
    s.defineLabel procedure (d + address) (shiftLabels d labels) =
      (s.defineLabel procedure address labels).map (shiftLabels d) := by
  rw [Statement.defineLabel, Statement.defineLabel, lookup_shiftLabels, Option.isSome_map]
  split
  next => split <;> rfl
  next => rfl

theorem layoutBody_shift (body : List Statement) :
    layoutBody procedure (d + address) (shiftLabels d labels) body =
      (layoutBody procedure address labels body).map (Prod.map (shiftLabels d) (d + ·)) := by
  induction body generalizing address labels with
  | nil => rfl
  | cons s body ih =>
      rw [layoutBody, layoutBody, defineLabel_shift, except_bind_map, except_map_bind]
      refine bind_congr fun defined => ?_
      split
      next form hform =>
        rw [Nat.add_assoc]
        exact ih _ _
      next => rfl

theorem layout_shift (procedures : List Procedure) :
    layout (d + address) procedures =
      (layout address procedures).map (List.map (ProcedureLayout.shift d)) := by
  induction procedures generalizing address with
  | nil => rfl
  | cons p procedures ih =>
      have hbody := layoutBody_shift d p.name.text [] address p.body
      rw [show shiftLabels d [] = [] from rfl] at hbody
      rw [layout, layout, hbody, except_bind_map, except_map_bind]
      refine bind_congr fun (labels, stop) => ?_
      dsimp only [Prod.map]
      rw [ih, except_bind_map, except_map_bind]
      rfl

theorem assembleProcedures_shift (placed : List (Procedure × ProcedureLayout)) :
    assembleProcedures (d + address) (placed.map (Prod.map id (ProcedureLayout.shift d))) =
      assembleProcedures address placed := by
  induction placed generalizing address with
  | nil => rfl
  | cons first placed ih =>
      obtain ⟨p, l⟩ := first
      simp only [List.map_cons, Prod.map, id, assembleProcedures, ProcedureLayout.shift,
        assembleBody_shift, Nat.add_assoc, ih]

end Shift

/-! ## Programs one behind the other -/

theorem layout_append {address : Nat} {first second : List Procedure}
    {layouts later : List ProcedureLayout} (h : layout address first = .ok layouts) (number : Nat)
    (hsecond : layout (address + linesSize (linesFrom number first)) second = .ok later) :
    layout address (first ++ second) = .ok (layouts ++ later) := by
  induction first generalizing address layouts number with
  | nil =>
      cases h
      exact hsecond
  | cons p first ih =>
      obtain ⟨⟨labels, stop⟩, hbody, h⟩ := eq_ok_of_bind_eq_ok h
      obtain ⟨others, hothers, h⟩ := eq_ok_of_bind_eq_ok h
      cases h
      rw [linesFrom, linesSize_append, ← Nat.add_assoc,
        ← stop_of_layoutBody hbody number] at hsecond
      rw [List.cons_append, layout, hbody, ok_bind]
      dsimp only
      rw [ih hothers (number + 1) hsecond]
      rfl

/-- The second program is laid out where the first one ends. -/
theorem layout_append_shift {first second : List Procedure} {layouts later : List ProcedureLayout}
    (h : layout 0 first = .ok layouts) (hsecond : layout 0 second = .ok later) :
    layout 0 (first ++ second) =
      .ok (layouts ++ later.map (.shift (linesSize (linesOf first)))) := by
  have hshifted := layout_shift (linesSize (linesOf first)) 0 second
  rw [hsecond, Nat.add_comm] at hshifted
  exact layout_append h 0 hshifted

theorem assembleProcedures_append {address : Nat}
    {first second : List (Procedure × ProcedureLayout)} {instructions later : List Instruction}
    (h : assembleProcedures address first = .ok instructions)
    (hsecond : assembleProcedures (address + totalSize instructions) second = .ok later) :
    assembleProcedures address (first ++ second) = .ok (instructions ++ later) := by
  induction first generalizing address instructions with
  | nil =>
      cases h
      exact hsecond
  | cons placed first ih =>
      obtain ⟨p, l⟩ := placed
      obtain ⟨own, hown, h⟩ := eq_ok_of_bind_eq_ok h
      obtain ⟨others, hothers, h⟩ := eq_ok_of_bind_eq_ok h
      cases h
      rw [totalSize_append, ← Nat.add_assoc] at hsecond
      rw [List.cons_append, assembleProcedures, hown, ok_bind, ih hothers hsecond,
        List.append_assoc]
      rfl

/-- The procedure when code of a length stands before it. -/
def Entry.behind (length : Nat) (e : Entry) : Entry :=
  { e with address := UInt64.ofNat length + e.address }

/-- Two images as one: the code of the second one stands behind that of the first one. -/
def Image.link (first second : Image) : Image where
  version := Image.currentVersion
  code := first.code ++ second.code
  procedures := first.procedures ++ second.procedures.map (Entry.behind first.code.length)

/-- The image of one program behind another one is their images, linked. -/
theorem assembleProgram_append {first second : List Procedure} {image image' : Image}
    (h : assembleProgram first = .ok image) (h' : assembleProgram second = .ok image') :
    assembleProgram (first ++ second) = .ok (image.link image') := by
  obtain ⟨layouts, own, hlayout, hown, hcode, hprocedures⟩ := assembleProgram_eq_ok h
  obtain ⟨layouts', own', hlayout', hown', hcode', hprocedures'⟩ := assembleProgram_eq_ok h'
  have hlength := length_code_of_assembleProgram h
  have hsize : totalSize own = linesSize (linesOf first) := by
    rw [← length_encodeAll, ← hcode, hlength]
  -- the second program is assembled where the first one ends
  have hshifted := assembleProcedures_shift (totalSize own) 0 (second.zip layouts')
  rw [hown', Nat.add_comm, ← List.zip_map_right, hsize] at hshifted
  have hinstructions := assembleProcedures_append hown (by rwa [hsize])
  have hzip (later : List ProcedureLayout) :
      (first ++ second).zip (layouts ++ later) = first.zip layouts ++ second.zip later :=
    List.zip_append (length_of_layout hlayout).symm
  rw [assembleProgram, layout_append_shift hlayout hlayout', ok_bind]
  dsimp only
  rw [hzip, hinstructions, ok_bind]
  refine congrArg Except.ok ?_
  rw [Image.link, hlength, hcode, hcode', hprocedures, hprocedures', List.zip_map_right,
    List.map_append, List.map_map, List.map_map]
  congr 2
  · exact List.flatMap_append
  · refine List.map_congr_left fun (p, l) _ => ?_
    simp [Entry.behind, ProcedureLayout.shift]

end RegisterMachine
