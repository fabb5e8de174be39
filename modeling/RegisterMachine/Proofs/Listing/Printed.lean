import RegisterMachine.Proofs.Listing.Text

/-!
# RegisterMachine.Proofs.Listing.Printed

What the text of a listing is.

The text is described apart from the functions that make it, from the inside out: an
operand (`Operand.Writes`), the operands behind a name (`WritesOperands`), where a jump goes
(`JumpsTo`), the front of a line (`Margin`). Then

* `Prints image marked a swept b text` -- the text has the lines of the instructions `swept`, which
  decode from address `a` to address `b`, each where the one before it ends;
* `PrintsRest image marked b text` -- the text is what stands behind them:
  nothing, or one illegal byte;
* `Lists.prints` -- the lines of a listing print so;
* `listing_is_linear_sweep` says so of the text of the whole listing, and what is marked in it.
-/

namespace RegisterMachine

open Instruction

/-! ## The text of an instruction -/

namespace Instruction

/-- A register is written by its name, a constant with two digits for each byte, and the address
that a jump goes to behind an arrow. -/
inductive Operand.Writes : Operand → List Char → Prop
  | register (r : Register) : Writes (.register r) r.name.toList
  | immediate {w : Width} {value : BitVec w.bits} {digits : List Char}
      (numeral : HexNumeral (2 * w.bytes) value.toNat digits) :
      Writes (.immediate w value) ('0' :: 'x' :: digits)
  | target {address : UInt64} {digits : List Char} (numeral : HexNumeral 4 address.toNat digits) :
      Writes (.target address) ('-' :: '>' :: ' ' :: digits)

/-- Operands in order: what separates them stands in front of the first one, and a comma and a blank
in front of each other one. -/
inductive WritesOperands : (separator : List Char) → List Operand → List Char → Prop
  | nil {separator : List Char} : WritesOperands separator [] []
  | cons {separator text later : List Char} {o : Operand} {operands : List Operand}
      (first : o.Writes text) (rest : WritesOperands [',', ' '] operands later) :
      WritesOperands separator (o :: operands) (separator ++ text ++ later)

/-- The text of an instruction at an address: its name, and its operands behind a blank. -/
inductive Writes (address : Nat) (i : Instruction) : List Char → Prop
  | intro {text : List Char} (operands : WritesOperands [' '] (i.operands address) text) :
      Writes address i (i.opcode.name.toList ++ text)

/-- A jump, with a condition or without, goes from one address to another: its offset counts from
the instruction behind it. -/
def JumpsTo (origin : Nat) (i : Instruction) (address : Nat) : Prop :=
  ∃ offset : UInt64, (i = .jump offset ∨ ∃ c, i = .jumpIf c offset) ∧
    UInt64.ofNat (origin + i.size) + offset = UInt64.ofNat address

theorem target?_eq_some_iff {origin address : Nat} {i : Instruction} :
    i.target? origin = some (UInt64.ofNat address) ↔ i.JumpsTo origin address := by
  cases i <;> simp [target?, targetAddress, JumpsTo]

theorem Operand.writes_render (o : Operand) : o.Writes o.render.toList := by
  cases o with
  | register r => exact .register r
  | immediate w value =>
      have hwidth : 0 < 2 * w.bytes := by
        cases w <;> decide
      rw [render, String.toList_append]
      exact .immediate (hexNumeral_hex hwidth value.toNat)
  | target address =>
      rw [render, String.toList_append]
      exact .target (hexNumeral_hex (by decide) address.toNat)

theorem writesOperands_intercalate (separator : List Char) (o : Operand) (operands : List Operand) :
    WritesOperands separator (o :: operands)
      (separator ++ ", ".toList.intercalate ((o :: operands).map (·.render.toList))) := by
  induction operands generalizing separator o with
  | nil =>
      have hwrites : WritesOperands separator [o] (separator ++ o.render.toList ++ []) :=
        .cons o.writes_render .nil
      simpa using hwrites
  | cons o' operands ih =>
      have hlater := ih [',', ' '] o'
      have hwrites : WritesOperands separator (o :: o' :: operands)
          (separator ++ o.render.toList ++ _) := .cons o.writes_render hlater
      simpa using hwrites

theorem writes_render (i : Instruction) (address : Nat) :
    i.Writes address (i.render address).toList := by
  rw [toList_render]
  refine .intro ?_
  cases h : i.operands address with
  | nil => exact .nil
  | cons o operands => exact writesOperands_intercalate [' '] o operands

end Instruction

/-! ## The text of lines -/

/-- The front of a line: its address, the mark or a blank in its place, and blanks around this. -/
inductive Margin (address : Nat) : (marked : Bool) → List Char → Prop
  | marked {digits : List Char} (numeral : HexNumeral 4 address digits) :
      Margin address true (digits ++ [' ', '►', ' '])
  | unmarked {digits : List Char} (numeral : HexNumeral 4 address digits) :
      Margin address false (digits ++ [' ', ' ', ' '])

theorem margin_margin (address : Nat) (marked : Bool) :
    Margin address marked (ListingLine.margin address marked).toList := by
  have hnumeral := hexNumeral_hex (by decide : 0 < 4) address
  cases marked with
  | false => simpa [ListingLine.margin] using Margin.unmarked hnumeral
  | true => simpa [ListingLine.margin] using Margin.marked hnumeral

/-- The header of the first procedure at an address, if one stands there. -/
def Image.headerText (image : Image) (address : Nat) : List Char :=
  match image.procedureAt? (UInt64.ofNat address) with
  | none => []
  | some name => name.toList ++ [':', '\n']

theorem Image.flatMap_render_headerLines (image : Image) (address : Nat) :
    (image.headerLines address).flatMap (·.render.toList) = image.headerText address := by
  cases h : image.procedureAt? (UInt64.ofNat address) <;>
    simp [headerLines, headerText, h, ListingLine.render]

/-- A text has the lines of instructions that decode one behind the other, from an address up to
another. -/
inductive Prints (image : Image) (marked : Nat → Bool) :
    (address : Nat) → List (Nat × Instruction) → (stop : Nat) → List Char → Prop
  | done {address : Nat} : Prints image marked address [] address []
  | next {address stop : Nat} {i : Instruction} {swept : List (Nat × Instruction)}
      {front body later : List Char} (decodes : decodeAt? image.code address = some i)
      (margin : Margin address (marked address) front) (writes : i.Writes address body)
      (rest : Prints image marked (address + i.size) swept stop later) :
      Prints image marked address ((address, i) :: swept) stop
        (image.headerText address ++ front ++ body ++ '\n' :: later)

/-- What is printed behind the instructions: nothing at the end of the code, and else a line with
the first byte at which no instruction stands. -/
inductive PrintsRest (image : Image) (marked : Nat → Bool) : (stop : Nat) → List Char → Prop
  | ended : PrintsRest image marked image.code.length []
  | illegal {stop : Nat} {b : UInt8} {front digits : List Char}
      (stands : image.code[stop]? = some b)
      (undecodable : decodeAt? image.code stop = none) (margin : Margin stop (marked stop) front)
      (numeral : HexNumeral 2 b.toNat digits) :
      PrintsRest image marked stop
        (image.headerText stop ++ front ++ ".illegal 0x".toList ++ digits ++ ['\n'])

section Lines

variable {image : Image} {marked : Nat → Bool} {address stop : Nat}

/-- The instructions on the lines have the bytes up to where these stop. -/
theorem Prints.flatMap_encode_append {swept : List (Nat × Instruction)} {text : List Char}
    (h : Prints image marked address swept stop text) :
    swept.flatMap (·.2.encode) ++ image.code.drop stop = image.code.drop address ∧
      address + (swept.flatMap (·.2.encode)).length = stop := by
  induction h with
  | done => simp
  | @next address stop i swept front body later decodes margin writes rest ih =>
      obtain ⟨hbytes, hstop⟩ := ih
      refine ⟨?_, ?_⟩
      · rw [List.flatMap_cons, List.append_assoc, hbytes, encode_append_of_decodeAt? decodes]
      · rw [List.flatMap_cons, List.length_append, length_encode]
        show address + (i.size + _) = stop
        omega

/-- The lines of a listing print the instructions on them, and then what stands behind these. -/
theorem Lists.prints {lines : List ListingLine} (h : Lists image marked address lines) :
    ∃ swept stop shown last, lines.flatMap (·.render.toList) = shown ++ last ∧
      Prints image marked address swept stop shown ∧ PrintsRest image marked stop last ∧
      ∀ origin i, (origin, i) ∈ swept ↔ ∃ mark, .instruction origin mark i ∈ lines := by
  have hheader : ∀ a origin mark i, .instruction origin mark i ∉ image.headerLines a := by
    simp [Image.headerLines]
  induction h with
  | ended => exact ⟨[], image.code.length, [], [], by simp, .done, .ended, by simp⟩
  | @illegal address b stands undecodable =>
      have hlast := PrintsRest.illegal stands undecodable (margin_margin address (marked address))
        (hexNumeral_hex (by decide) b.toNat)
      refine ⟨[], address, [], _, ?_, .done, hlast, ?_⟩
      · simp [Image.flatMap_render_headerLines, ListingLine.toList_render_illegal]
      · simp [hheader]
  | @instruction address i later decodes lists ih =>
      obtain ⟨swept, stop, shown, last, htext, hprints, hrest, hmem⟩ := ih
      have hshown := Prints.next decodes (margin_margin address (marked address))
        (i.writes_render address) hprints
      refine ⟨(address, i) :: swept, stop, _, last, ?_, hshown, hrest, fun origin j => ?_⟩
      · simp [Image.flatMap_render_headerLines, ListingLine.toList_render_instruction, htext]
      · simp [hmem, hheader, exists_or]

end Lines

/-- **A listing is the linear sweep of the code, and nothing else.**

Its text has, from address zero on, the line of the instruction at each address and then that of the
one behind its bytes, with the headers of procedures in front of them. The instructions on the lines
have each byte of the code once, up to its end or to the first address where no instruction stands.
There the text ends, or else the line with the byte at that address is its last one. A line is
marked exactly if an instruction on some line, before or behind it, jumps to its address. -/
theorem listing_is_linear_sweep (image : Image) :
    ∃ (marked : Nat → Bool) (swept : List (Nat × Instruction)) (stop : Nat)
      (shown last : List Char),
      image.listingText.toList = shown ++ last ∧ Prints image marked 0 swept stop shown ∧
        PrintsRest image marked stop last ∧ swept.flatMap (·.2.encode) = image.code.take stop ∧
        ∀ address, marked address = true ↔
          ∃ origin i, (origin, i) ∈ swept ∧ i.JumpsTo origin address := by
  obtain ⟨swept, stop, shown, last, htext, hprints, hrest, hmem⟩ := image.lists_listing.prints
  obtain ⟨hbytes, hstop⟩ := hprints.flatMap_encode_append
  refine ⟨image.marked, swept, stop, shown, last, ?_, hprints, hrest, ?_, fun address => ?_⟩
  · rw [Image.toList_listingText, htext]
  · rw [Nat.zero_add] at hstop
    rw [List.drop_zero] at hbytes
    rw [← hbytes, ← hstop, List.take_left]
  · simp only [Image.marked_iff, target?_eq_some_iff, hmem]

/-- A load, a jump back to it, and a byte that starts no instruction. -/
def spinThenIllegal : Image where
  version := Image.currentVersion
  code := spin ++ [0xee]
  procedures := [⟨"p", 0⟩]

/-- The load is marked, and the last line has the byte. -/
theorem listing_of_spinThenIllegal :
    spinThenIllegal.listingText =
        "p:\n0000 ► LOAD8 r0, 0x05\n0003   JMP -> 0000\n000c   .illegal 0xee\n" ∧
      ∃ marked swept stop shown last,
        spinThenIllegal.listingText.toList = shown ++ last ∧
          Prints spinThenIllegal marked 0 swept stop shown ∧
          PrintsRest spinThenIllegal marked stop last ∧
          swept.flatMap (·.2.encode) = spinThenIllegal.code.take stop ∧
          ∀ address, marked address = true ↔
            ∃ origin i, (origin, i) ∈ swept ∧ i.JumpsTo origin address := by
  have hload : decode? (spin ++ [0xee]) = some (.load .w8 .r0 5) := by decide
  have hjump : decode? ((spin ++ [0xee]).drop 3) = some (.jump (-12)) := by decide
  have hlast : sweepFrom 12 [0xee] = ⟨[], 12, [0xee]⟩ :=
    sweepFrom_of_decode?_eq_none (by decide)
  have hlater : sweepFrom 3 ((spin ++ [0xee]).drop 3) = ⟨[(3, .jump (-12))], 12, [0xee]⟩ := by
    rw [sweepFrom_of_decode?_eq_some hjump]
    simp [size, opcode, Opcode.shape, Shape.size, spin, hlast]
  have hsweep : sweep spinThenIllegal.code =
      ⟨[(0, .load .w8 .r0 5), (3, .jump (-12))], 12, [0xee]⟩ := by
    rw [sweep, spinThenIllegal, sweepFrom_of_decode?_eq_some hload]
    simp [size, opcode, Opcode.shape, Shape.size, Width.bytes, hlater]
  have hlisting : spinThenIllegal.listing =
      [.header "p", .instruction 0 true (.load .w8 .r0 5), .instruction 3 false (.jump (-12)),
        .illegal 12 false 0xee] := by
    rw [Image.listing, jumpTargets, hsweep]
    decide
  refine ⟨?_, listing_is_linear_sweep spinThenIllegal⟩
  rw [Image.listingText, hlisting]
  decide

end RegisterMachine
