import RegisterMachine.Proofs.Assembly.FirstError
import RegisterMachine.Proofs.Assembly.Simulation
import RegisterMachine.Proofs.Machine.Registers
import RegisterMachine.Proofs.SourceUnit.WellFormed

/-!
# RegisterMachine.Proofs.SourceUnit.Constants

Integer constants, from the text to the register.

* `Machine.Loaded` says what a machine has in its registers once it has loaded an integer: the
  integer itself, in whichever view has room for it;
* `exists_load_of_assembleProgram` -- a line that loads a constant is, in the
  code, the load of its bits;
* `Machine.loaded_of_decodeAt?` -- the machine that steps over the load of an integer has loaded it;
* `integer_reaches_register` -- so it does for every integer in a text, if either type of the width
  holds it, and otherwise no program with the line has an image.
-/

namespace RegisterMachine

/-! ## Loads -/

/-- A statement loads the constant of a token, at a type, into a register. -/
structure Statement.Loads (type : IntType) (r : Register) (t : Token) (s : Statement) : Prop where
  head : s.head.kind = .operation (.load type)
  destination : ∃ d, s.destination = some d ∧ d.kind = .register r
  source : s.source = some t

/-- One machine is another that has gone on over a load of an integer: the unsigned view of the
register is the integer modulo the width, and both views are the integer itself where they have room
for it. The bits above the width, the other registers and the flag are as they were. -/
structure Machine.Loaded (w : Width) (r : Register) (v : Int) (before after : Machine) : Prop where
  running : after.status = .running
  modulo : after.registers.view ⟨false, w⟩ r = v % 2 ^ w.bits
  signed : v < 2 ^ (w.bits - 1) → after.registers.view ⟨true, w⟩ r = v
  unsigned : 0 ≤ v → after.registers.view ⟨false, w⟩ r = v
  above : (after.registers.get r).toNat / 2 ^ w.bits = (before.registers.get r).toNat / 2 ^ w.bits
  others : ∀ s, s ≠ r → s ≠ .ip → after.registers.get s = before.registers.get s
  ip : after.ip = UInt64.ofNat (before.ip.toNat + (Shape.registerImmediate w).size)
  flag : after.flag = before.flag

/-! ## Statements -/

section Statements

variable {type : IntType} {t : Token} {v : Int} {s : Statement} {r : Register}

/-- The bits of an integer constant are those of the integer, in two's complement. -/
theorem constantBits_integer (hkind : t.kind = .integer) (hv : IntegerLiteral t.text.toList v)
    (hrange : type.width.InRange v) : constantBits type t = .ok (BitVec.ofInt _ v) := by
  have hholds := holds_iff.2 hrange
  rw [constantBits, hkind]
  simp only [hv.integerValue?_eq, natAbs_le_of_holds hholds, if_true, hholds]

/-- A statement that loads a constant is a single instruction, wherever it stands. -/
theorem Statement.Loads.instructions (h : s.Loads type r t) {constant : BitVec type.width.bits}
    (hconstant : constantBits type t = .ok constant) (procedure : String) (labels : Labels)
    (address : Nat) :
    s.instructions procedure labels address = .ok [.load type.width r constant] := by
  obtain ⟨d, hd, hr⟩ := h.destination
  have hdestination : s.operand .destination = some d := hd
  have hsource : s.operand .source = some t := h.source
  simp only [Statement.instructions, Statement.form?, h.head, TokenKind.form?,
    Statement.registerOperand, require_eq_ok_of_operand hdestination,
    require_eq_ok_of_operand hsource, ok_bind, hr, pure, Except.pure, hconstant]

/-- What a statement that loads a constant asks for. -/
theorem Statement.Loads.action?_eq (h : s.Loads type r t) :
    s.action? = (constantBits type t).toOption.map (.load type r) := by
  obtain ⟨d, hd, hr⟩ := h.destination
  have hregister : s.register? .destination = some r := by
    rw [Statement.register?, show s.operand .destination = some d from hd, Option.map_some, hr]
  simp only [Statement.action?, Statement.form?, h.head, TokenKind.form?, hregister, h.source,
    Option.bind_eq_bind, Option.bind_some]
  cases (constantBits type t).toOption <;> rfl

end Statements

/-! ## Programs -/

section Programs

variable {procedures : List Procedure} {image : Image} {k : Nat} {l : Line} {type : IntType}
    {t : Token}
  {v : Int} {r : Register}

/-- The constant of a line has bits if the program has an image, and the code has the load of these
bits at the address of the line. -/
theorem exists_load_of_assembleProgram (himage : assembleProgram procedures = .ok image)
    (hl : (linesOf procedures)[k]? = some l) (hloads : l.statement.Loads type r t) :
    ∃ constant, constantBits type t = .ok constant ∧
      Instruction.decodeAt? image.code (addressOf (linesOf procedures) k) =
        some (.load type.width r constant) := by
  obtain ⟨own, hown, hdecodes⟩ := exists_decodeAt?_of_assembleProgram himage hl
  rw [Line.lowering?, hloads.action?_eq] at hown
  cases hconstant : constantBits type t with
  | error e =>
      rw [hconstant] at hown
      contradiction
  | ok constant =>
      rw [hconstant] at hown
      let i := Instruction.load type.width r constant
      have hsame : [i] = own := placed_inj (Option.some.inj hown)
      subst hsame
      exact ⟨constant, rfl, hdecodes _ _ List.mem_cons_self⟩

/-- The machine that steps over the load of an integer has loaded it. -/
theorem Machine.loaded_of_decodeAt? {code : List UInt8} {m : Machine} {w : Width}
    (hm : m.status = .running)
    (hcode : Instruction.decodeAt? code m.ip.toNat = some (.load w r (BitVec.ofInt _ v)))
    (hr : r ≠ .ip) (hrange : w.InRange v) : m.Loaded w r v (m.step code) := by
  obtain ⟨hlow, hhigh⟩ := hrange
  let i := Instruction.load w r (BitVec.ofInt _ v)
  let n : Int := (BitVec.ofInt w.bits v).toNat
  have hstep : m.step code = { m.past i with registers := (m.past i).registers.put w r n } :=
    step_of_decodeAt? hm hcode
  have hwrote := (m.past i).wrote_put w r n
  rw [← hstep] at hwrote
  have hcell : w.Replaces ((m.past i).registers.get r) v ((m.step code).registers.get r) := by
    refine ⟨hwrote.replaced.low.trans ?_, hwrote.replaced.high⟩
    rw [BitVec.ofInt_natCast, BitVec.ofNat_toNat, BitVec.setWidth_eq]
  have hmodulo : (m.step code).registers.view ⟨false, w⟩ r = v % 2 ^ w.bits := hcell.view_unsigned
  refine ⟨hwrote.status.trans hm, hmodulo, hcell.view_signed hlow, fun hv => ?_, ?_,
    fun s hs hip => ?_, ?_, hwrote.flag⟩
  · rw [hmodulo, Int.emod_eq_of_lt hv (by omega)]
  · have hmodulus : w.modulus = 2 ^ w.bits := w.modulus_eq
    rw [← hmodulus, hcell.high, m.get_past_of_ne i hr]
  · rw [hwrote.others s hs, m.get_past_of_ne i hip]
  · rw [hstep]
    exact (ip_put _ _ hr _).trans (m.ip_past i)

end Programs

/-! ## Source texts -/

namespace SourceUnit

variable {path content : String}

/-- **Integer constants reach the register with their value.** An integer in a text that scans
without a report stands for one number, whatever its sign, its base and the number of its digits. A
line that loads it is a single instruction if one of the two types of the width holds the number;
and in the code of every program with the line, any machine that stands at it loads the number. If
neither type holds the number, no program with the line has an image. -/
theorem integer_reaches_register (hclean : (ofContent path content).scan.isClean) {t : Token}
    (ht : t ∈ (ofContent path content).scan.tokens) (hkind : t.kind = .integer) :
    (∃! v, IntegerLiteral t.text.toList v) ∧
      ∀ v, IntegerLiteral t.text.toList v → ∀ (type : IntType) (r : Register) (s : Statement),
        s.Loads type r t →
          (type.width.InRange v → ∀ procedure labels address,
            ∃ i, s.instructions procedure labels address = .ok [i]) ∧
          ∀ procedures k number, (linesOf procedures)[k]? = some ⟨number, s⟩ →
            (type.width.InRange v → r ≠ .ip → ∀ image, assembleProgram procedures = .ok image →
              ∀ m : Machine, m.status = .running →
                m.ip.toNat = addressOf (linesOf procedures) k →
                  m.Loaded type.width r v (m.step image.code)) ∧
            (¬ type.width.InRange v → ∀ image, assembleProgram procedures ≠ .ok image) := by
  refine ⟨(wellSpelt_of_mem_tokens_scan hclean ht).exists_unique_integer hkind, ?_⟩
  intro v hv type r s hloads
  refine ⟨fun hrange procedure labels address => ?_, fun procedures k number hl => ⟨?_, ?_⟩⟩
  · exact ⟨_, hloads.instructions (constantBits_integer hkind hv hrange) procedure labels address⟩
  · intro hrange hr image himage m hm hip
    obtain ⟨constant, hconstant, hcode⟩ := exists_load_of_assembleProgram himage hl hloads
    rw [constantBits_integer hkind hv hrange] at hconstant
    cases hconstant
    rw [← hip] at hcode
    exact m.loaded_of_decodeAt? hm hcode hr hrange
  · intro hrange image himage
    obtain ⟨constant, hconstant, -⟩ := exists_load_of_assembleProgram himage hl hloads
    exact hrange ((exists_constantBits_integer_iff hkind hv).1 ⟨constant, hconstant⟩)

end SourceUnit

/-- `0xFF` is beyond the numbers of `i8`, but not beyond those of `u8`. -/
theorem boundarySource_loads_255 :
    let u := (SourceUnit.ofContent "boundary" boundarySource).analyze
    let m := Machine.initial.setIp 3
    ∃ image, u.image = .ok image ∧ m.Loaded .w8 .r1 255 (m.step image.code) := by
  intro u m
  let token : Token := ⟨.integer, "0xFF", ⟨1, 35⟩, ⟨34, 38⟩⟩
  let head : Token := ⟨.operation (.load ⟨true, .w8⟩), "i8_load", ⟨1, 24⟩, ⟨23, 30⟩⟩
  let register : Token := ⟨.register .r1, "r1", ⟨1, 32⟩, ⟨31, 33⟩⟩
  let s : Statement := ⟨head, register, token, none⟩
  have hclean : (SourceUnit.ofContent "boundary" boundarySource).scan.isClean := by decide +kernel
  have htoken : token ∈ (SourceUnit.ofContent "boundary" boundarySource).scan.tokens := by
    decide +kernel
  have hdigits : IsDigits 16 ['F', 'F'] := ⟨by decide, List.all_eq_true.1 rfl⟩
  have hbase : baseOf? 'x' = some 16 := by decide +kernel
  have hliteral := IntegerLiteral.based (.inl rfl) hbase hdigits
  have htext : [] ++ ['0', 'x', 'F', 'F'] = token.text.toList := by decide
  have hvalue : applySign [] (digitsNumber 16 ['F', 'F']) = 255 := by decide +kernel
  rw [htext, hvalue] at hliteral
  have hloads : s.Loads ⟨true, .w8⟩ .r1 token := ⟨rfl, ⟨register, rfl, rfl⟩, rfl⟩
  have hline : (linesOf u.procedures)[1]? = some ⟨0, s⟩ := by decide +kernel
  obtain ⟨image, himage⟩ := wellFormed_boundarySource.2.1
  obtain ⟨-, hreaches⟩ := SourceUnit.integer_reaches_register hclean htoken rfl
  obtain ⟨-, hlines⟩ := hreaches 255 hliteral ⟨true, .w8⟩ .r1 s hloads
  have hrange : Width.w8.InRange 255 := by simp [Width.InRange, Width.bits, Width.bytes]
  have hip : m.ip.toNat = addressOf (linesOf u.procedures) 1 := by decide +kernel
  obtain ⟨hloaded, -⟩ := hlines u.procedures 1 0 hline
  exact ⟨image, himage, hloaded hrange (by decide) image himage m rfl hip⟩

end RegisterMachine
