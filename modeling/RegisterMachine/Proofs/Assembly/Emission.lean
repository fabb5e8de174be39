import RegisterMachine.Proofs.Assembly.Lowering

/-!
# RegisterMachine.Proofs.Assembly.Emission

The code of an image is the instructions of the lines of its program.

* `Emits` says that instructions are those of some lines, each where the bytes of the lines before
  it end; layout and code agree on this (`emits_of_assembleProgram`);
* `sweep_code_of_assembleProgram` -- the sweep over the code of an image gives the program back.
-/

namespace RegisterMachine

open Instruction

/-! ## The instructions of lines -/

/-- Instructions from an address on are those of some lines among all lines. -/
inductive Emits (lines : List Line) : Nat → List Line → List Instruction → Prop
  | nil (address : Nat) : Emits lines address [] []
  | cons {address : Nat} {l : Line} {later : List Line} {first rest : List Instruction}
      (shown : l.lowering? lines = some ((placed address first).map decoded))
      (emits : Emits lines (address + totalSize first) later rest) :
      Emits lines address (l :: later) (first ++ rest)

namespace Emits

variable {lines xs ys : List Line} {address : Nat} {first rest instructions : List Instruction}

theorem append (hfirst : Emits lines address xs first)
    (hrest : Emits lines (address + totalSize first) ys rest) :
    Emits lines address (xs ++ ys) (first ++ rest) := by
  induction hfirst with
  | nil => simpa [totalSize] using hrest
  | cons shown _ ih =>
      rw [totalSize_append, ← Nat.add_assoc] at hrest
      rw [List.append_assoc, List.cons_append]
      exact .cons shown (ih hrest)

theorem totalSize_eq (h : Emits lines address xs instructions) :
    totalSize instructions = linesSize xs := by
  induction h with
  | nil => rfl
  | cons shown _ ih =>
      rw [totalSize_append, ih, linesSize, ← Line.shownSize_of_lowering? shown, shownSize_placed]

theorem lowering?_eq (h : Emits lines address xs instructions) :
    lowering? lines xs = some ((placed address instructions).map decoded) := by
  induction h with
  | nil => rfl
  | cons shown _ ih =>
      rw [lowering?, shown, ih, placed_append, List.map_append]
      rfl

/-- The instructions of one line stand at its address, between those of the other lines. -/
theorem at_line (h : Emits lines address xs instructions) {k : Nat} {l : Line}
    (hl : xs[k]? = some l) :
    ∃ before own after, instructions = before ++ (own ++ after) ∧
      totalSize before = addressOf xs k ∧
      l.lowering? lines = some ((placed (address + addressOf xs k) own).map decoded) := by
  induction h generalizing k with
  | nil => simp at hl
  | @cons address l' later first rest shown _ ih =>
      cases k with
      | zero =>
          cases hl
          exact ⟨[], first, rest, rfl, rfl, shown⟩
      | succ k =>
          obtain ⟨before, own, after, heq, hsize, hown⟩ := ih hl
          have hfirst : totalSize first = l'.size := by
            rw [← Line.shownSize_of_lowering? shown, shownSize_placed]
          refine ⟨first ++ before, own, after, ?_, ?_, ?_⟩
          · rw [heq, List.append_assoc]
          · rw [totalSize_append, hsize, hfirst, addressOf_cons_succ]
          · rw [hown, addressOf_cons_succ, hfirst, Nat.add_assoc]

end Emits

/-- The instructions of a body are those of its lines, if its labels stand for lines' addresses. -/
theorem emits_of_assembleBody {lines : List Line} {number : Nat} {procedure : String}
    {labels : Labels}
    (hlabels : ∀ label, labels.lookup label = (labelLine? lines number label).map (addressOf lines))
    {address : Nat} {body : List Statement} {instructions : List Instruction}
    (h : assembleBody procedure labels address body = .ok instructions) :
    Emits lines address (body.map (Line.mk number)) instructions := by
  induction body generalizing address instructions with
  | nil =>
      cases h
      exact .nil address
  | cons s body ih =>
      obtain ⟨first, hfirst, h⟩ := eq_ok_of_bind_eq_ok h
      obtain ⟨later, hlater, h⟩ := eq_ok_of_bind_eq_ok h
      cases h
      obtain ⟨action, haction, hshown⟩ := lowering?_of_instructions hfirst
      refine .cons ?_ (ih hlater)
      rw [Line.lowering?, haction, Option.bind_some, ← hshown]
      congr 1
      funext label
      rw [hlabels, Option.map_map]
      rfl

theorem emits_of_assembleProcedures {lines before : List Line} {number address : Nat}
    {procedures : List Procedure} {layouts : List ProcedureLayout} {instructions : List Instruction}
    (hlines : lines = before ++ linesFrom number procedures)
    (hbefore : ∀ l ∈ before, l.procedure < number) (haddress : linesSize before = address)
    (hlayout : layout address procedures = .ok layouts)
    (h : assembleProcedures address (procedures.zip layouts) = .ok instructions) :
    Emits lines address (linesFrom number procedures) instructions := by
  induction procedures generalizing before number address layouts instructions with
  | nil =>
      cases hlayout
      cases h
      exact .nil address
  | cons p procedures ih =>
      obtain ⟨⟨labels, stop⟩, hbody, hlayout⟩ := eq_ok_of_bind_eq_ok hlayout
      obtain ⟨later, hlater, hlayout⟩ := eq_ok_of_bind_eq_ok hlayout
      cases hlayout
      obtain ⟨first, hfirst, h⟩ := eq_ok_of_bind_eq_ok h
      obtain ⟨rest, hrest, h⟩ := eq_ok_of_bind_eq_ok h
      cases h
      have hlabels : ∀ label, labels.lookup label =
          (labelLine? lines number label).map (addressOf lines) := fun label => by
        have hother : ∀ l ∈ linesFrom (number + 1) procedures, l.procedure ≠ number :=
          fun l hl => by
          have := le_procedure_of_mem_linesFrom hl
          omega
        rw [lookup_of_layoutBody hbody number, hlines, linesFrom,
          map_addressOf_labelLine?_between (fun l hl => Nat.ne_of_lt (hbefore l hl)) hother,
          haddress]
        rfl
      have hown := emits_of_assembleBody hlabels hfirst
      have hstop := stop_of_layoutBody hbody number
      have hend : address + totalSize first = stop := by rw [hown.totalSize_eq, hstop]
      rw [hend] at hrest
      refine hown.append ?_
      rw [hend]
      have hsplit : lines =
          (before ++ p.body.map (Line.mk number)) ++ linesFrom (number + 1) procedures := by
        rw [hlines, linesFrom, List.append_assoc]
      refine ih hsplit (fun l hl => ?_) ?_ hlater hrest
      · rcases List.mem_append.1 hl with hl | hl
        · exact Nat.lt_succ_of_lt (hbefore l hl)
        · obtain ⟨s, -, rfl⟩ := List.mem_map.1 hl
          exact Nat.lt_succ_self number
      · rw [linesSize_append, haddress, hstop]

/-! ## Programs -/

section Programs

variable {procedures : List Procedure} {image : Image}

theorem assembleProgram_eq_ok (h : assembleProgram procedures = .ok image) :
    ∃ layouts instructions, layout 0 procedures = .ok layouts ∧
      assembleProcedures 0 (procedures.zip layouts) = .ok instructions ∧
      image.code = encodeAll instructions ∧
      image.procedures =
        (procedures.zip layouts).map fun (p, l) => ⟨p.name.text, UInt64.ofNat l.address⟩ := by
  obtain ⟨layouts, hlayout, h⟩ := eq_ok_of_bind_eq_ok h
  obtain ⟨instructions, hinstructions, h⟩ := eq_ok_of_bind_eq_ok h
  cases h
  exact ⟨layouts, instructions, hlayout, hinstructions, rfl, rfl⟩

theorem version_of_assembleProgram (h : assembleProgram procedures = .ok image) :
    image.version = Image.currentVersion := by
  obtain ⟨layouts, -, h⟩ := eq_ok_of_bind_eq_ok h
  obtain ⟨instructions, -, h⟩ := eq_ok_of_bind_eq_ok h
  cases h
  rfl

/-- The code of an image is the instructions of the lines of its program. -/
theorem emits_of_assembleProgram (h : assembleProgram procedures = .ok image) :
    ∃ instructions, image.code = encodeAll instructions ∧
      Emits (linesOf procedures) 0 (linesOf procedures) instructions := by
  obtain ⟨layouts, instructions, hlayout, hinstructions, hcode, -⟩ := assembleProgram_eq_ok h
  have hlines : linesOf procedures = [] ++ linesFrom 0 procedures := rfl
  refine ⟨instructions, hcode, ?_⟩
  exact emits_of_assembleProcedures hlines (by simp) rfl hlayout hinstructions

/-- The instructions of a line are found in the code at the address of the line. -/
theorem exists_decodeAt?_of_assembleProgram (h : assembleProgram procedures = .ok image) {k : Nat}
    {l : Line} (hl : (linesOf procedures)[k]? = some l) :
    let lines := linesOf procedures
    ∃ own, l.lowering? lines = some ((placed (addressOf lines k) own).map decoded) ∧
      ∀ a i, (a, i) ∈ placed (addressOf lines k) own → decodeAt? image.code a = some i := by
  intro lines
  obtain ⟨instructions, hcode, hemits⟩ := emits_of_assembleProgram h
  obtain ⟨before, own, after, heq, hsize, hown⟩ := hemits.at_line hl
  rw [Nat.zero_add] at hown
  refine ⟨own, hown, fun a i hi => (covers_sweep image.code).decodes ?_⟩
  rw [hcode, sweep_encodeAll, heq, placed_append, placed_append, Nat.zero_add, hsize]
  exact List.mem_append_right _ (List.mem_append_left _ hi)

/-- The code has as many bytes as the lines. -/
theorem length_code_of_assembleProgram (h : assembleProgram procedures = .ok image) :
    image.code.length = linesSize (linesOf procedures) := by
  obtain ⟨instructions, hcode, hemits⟩ := emits_of_assembleProgram h
  rw [hcode, length_encodeAll, hemits.totalSize_eq]

theorem distinctLabels_of_assembleProgram (h : assembleProgram procedures = .ok image) :
    DistinctLabels (linesOf procedures) := by
  obtain ⟨layouts, instructions, hlayout, -⟩ := assembleProgram_eq_ok h
  exact distinctLabels_of_layout hlayout 0

/-- Every procedure is entered at the address of its first line. -/
theorem procedures_of_assembleProgram (h : assembleProgram procedures = .ok image) :
    image.procedures = procedures.mapIdx fun k p =>
      ⟨p.name.text, UInt64.ofNat (addressOf (linesOf procedures) (firstLine procedures k))⟩ := by
  obtain ⟨layouts, instructions, hlayout, -, -, hprocedures⟩ := assembleProgram_eq_ok h
  have haddress := layout_eq_map hlayout 0
  rw [hprocedures, List.map_zip_eq_zipWith]
  apply List.ext_getElem?
  intro k
  have hk := congrArg (·[k]?) haddress
  simp only [List.getElem?_map, List.getElem?_mapIdx, Nat.zero_add] at hk
  rw [List.getElem?_zipWith, List.getElem?_mapIdx]
  cases hp : procedures[k]? with
  | none => rfl
  | some p =>
      rw [hp, Option.map_some] at hk
      obtain ⟨l, hl, haddress⟩ := Option.map_eq_some_iff.1 hk
      rw [hl, Option.map_some, addressOf_firstLine, linesOf, ← haddress]
      rfl

theorem length_procedures_of_assembleProgram (h : assembleProgram procedures = .ok image) :
    image.procedures.length = procedures.length := by
  rw [procedures_of_assembleProgram h, List.length_mapIdx]

/-- **The sweep over an image gives its program back.** Nothing is left over and no byte is passed;
what is decoded is what the lines ask for, where a jump goes to the address of the line that defines
its label; an address is the number of bytes of the lines before it. -/
theorem sweep_code_of_assembleProgram (h : assembleProgram procedures = .ok image) :
    let lines := linesOf procedures
    let swept := (sweep image.code).instructions
    sweep image.code = ⟨swept, image.code.length, []⟩ ∧
      Covers image.code 0 swept image.code.length ∧
      lowering? lines lines = some (swept.map decoded) ∧
      (∀ l ∈ lines, ∃ shown, l.lowering? lines = some shown ∧ l.size = shownSize shown) ∧
      DistinctLabels lines ∧
      image.procedures = procedures.mapIdx fun k p =>
        ⟨p.name.text, UInt64.ofNat (addressOf lines (firstLine procedures k))⟩ := by
  intro lines swept
  obtain ⟨instructions, hcode, hemits⟩ := emits_of_assembleProgram h
  have hsweep := sweep_encodeAll instructions
  rw [← hcode] at hsweep
  have hswept : swept = placed 0 instructions := congrArg Sweep.instructions hsweep
  have hstop : (sweep image.code).stop = image.code.length := congrArg Sweep.stop hsweep
  refine ⟨?_, ?_, ?_, ?_, distinctLabels_of_assembleProgram h, procedures_of_assembleProgram h⟩
  · rw [hswept]
    exact hsweep
  · rw [← hstop]
    exact covers_sweep image.code
  · rw [hswept]
    exact hemits.lowering?_eq
  · intro l hl
    obtain ⟨k, hk⟩ := List.mem_iff_getElem?.1 hl
    obtain ⟨-, own, -, -, -, hown⟩ := hemits.at_line hk
    exact ⟨_, hown, (Line.shownSize_of_lowering? hown).symm⟩

end Programs

/-- A program that counts `r0` down, with a label, a branch back to it, and a procedure that falls
through into the next one. -/
def countdown : List Procedure :=
  let token (kind : TokenKind) (text : String) : Token := ⟨kind, text, .origin, ⟨0, 0⟩⟩
  let register (r : Register) := token (.register r) r.name
  let u8 : IntType := ⟨false, .w8⟩
  let statement (m : Mnemonic) (source : Token) (destination : Register) (target : Option Token) :
      Statement := ⟨token (.operation m) m.name, register destination, source, target⟩
  [⟨token .identifier "main",
    [statement (.load u8) (token .integer "3") .r0 none,
      statement (.load u8) (token .integer "1") .r1 none,
      ⟨token .identifier "again", none, none, none⟩,
      statement (.arithmetic .sub u8) (register .r1) .r0 none,
      statement (.branch .ne u8) (register .r2) .r0 (token .identifier "again")]⟩,
    ⟨token .identifier "stop", [⟨token (.operation .halt) "halt", none, none, none⟩]⟩]

def countdownImage : Image where
  version := Image.currentVersion
  code := [1, 0, 3, 1, 1, 1, 9, 0, 1, 29, 0, 2, 39, 241, 255, 255, 255, 255, 255, 255, 255, 44]
  procedures := [⟨"main", 0⟩, ⟨"stop", 21⟩]

theorem sweep_countdownImage :
    let lines := linesOf countdown
    let swept := sweep countdownImage.code
    assembleProgram countdown = .ok countdownImage ∧ swept.rest = [] ∧
      lowering? lines lines = some (swept.instructions.map decoded) := by
  intro lines swept
  have himage : assembleProgram countdown = .ok countdownImage := rfl
  obtain ⟨hsweep, -, hlowering, -⟩ := sweep_code_of_assembleProgram himage
  exact ⟨himage, congrArg Sweep.rest hsweep, hlowering⟩

end RegisterMachine
