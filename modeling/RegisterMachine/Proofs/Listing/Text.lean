import Mathlib.Data.List.Basic
import RegisterMachine.Proofs.Listing.Lines
import RegisterMachine.Proofs.Machine.Fault
import RegisterMachine.Proofs.Text.Hexadecimal

/-!
# RegisterMachine.Proofs.Listing.Text

A listing is read back.

The text is taken apart from the outside in: a line ends with the only line feed in it, a name ends
before the first blank, operands stand between commas, and an operand is determined by its text
(`Operand.render_inj`). So the text of an instruction determines it, at a given address
(`render_inj`), and the text of a listing determines the code (`Lists.drop_eq`).
-/

namespace RegisterMachine

open Instruction

/-! ## Parts with a separator between them -/

/-- What stands before the first separator is found, if the rest starts with it or is empty. -/
theorem takeWhile_append_separator {separator : Char} {text rest : List Char} (h : separator ∉ text)
    (hrest : ∀ c ∈ rest.head?, c = separator) : (text ++ rest).takeWhile (· ≠ separator) = text :=
  takeWhile_append_of_head? (fun c hc => decide_eq_true fun heq => h (heq ▸ hc))
    (fun c hc => by simp [hrest c hc])

theorem append_separator_inj {separator : Char} {x y xs ys : List Char} (hx : separator ∉ x)
    (hy : separator ∉ y) (h : x ++ separator :: xs = y ++ separator :: ys) : x = y ∧ xs = ys := by
  have hhead : ∀ zs : List Char, ∀ c ∈ (separator :: zs).head?, c = separator := by simp
  have hxy : x = y := by
    rw [← takeWhile_append_separator hx (hhead xs), h, takeWhile_append_separator hy (hhead ys)]
  rw [hxy] at h
  exact ⟨hxy, (List.cons.inj (List.append_cancel_left h)).2⟩

/-- Parts are found again if the first character of the separator occurs in none of them. -/
theorem intercalate_inj {separator : Char} {more : List Char} {xs ys : List (List Char)}
    (hxs : ∀ x ∈ xs, separator ∉ x) (hys : ∀ y ∈ ys, separator ∉ y) (hx : xs ≠ []) (hy : ys ≠ [])
    (h : (separator :: more).intercalate xs = (separator :: more).intercalate ys) : xs = ys := by
  induction xs generalizing ys with
  | nil => contradiction
  | cons x xs ih =>
      obtain ⟨hxmem, hxs⟩ := List.forall_mem_cons.1 hxs
      cases ys with
      | nil => contradiction
      | cons y ys =>
          obtain ⟨hymem, hys⟩ := List.forall_mem_cons.1 hys
          cases xs with
          | nil =>
              cases ys with
              | nil => simpa using h
              | cons y' ys =>
                  rw [List.intercalate_singleton, List.intercalate_cons_cons] at h
                  simp [h] at hxmem
          | cons x' xs =>
              cases ys with
              | nil =>
                  rw [List.intercalate_singleton, List.intercalate_cons_cons] at h
                  simp [← h] at hymem
              | cons y' ys =>
                  simp only [List.intercalate_cons_cons, List.append_assoc, List.cons_append] at h
                  obtain ⟨hxy, hlater⟩ := append_separator_inj hxmem hymem h
                  rw [hxy, ih hxs hys (by simp) (by simp) (List.append_cancel_left hlater)]

theorem mem_of_mem_intercalate {c : Char} {separator : List Char} {xs : List (List Char)}
    (h : c ∈ separator.intercalate xs) : c ∈ separator ∨ ∃ x ∈ xs, c ∈ x := by
  induction xs with
  | nil => simp at h
  | cons x xs ih =>
      cases xs with
      | nil => exact .inr ⟨x, List.mem_cons_self, by simpa using h⟩
      | cons y ys =>
          rw [List.intercalate_cons_cons, List.mem_append, List.mem_append] at h
          rcases h with (hx | hseparator) | hlater
          · exact .inr ⟨x, List.mem_cons_self, hx⟩
          · exact .inl hseparator
          · exact (ih hlater).imp id fun ⟨z, hz, hc⟩ => ⟨z, List.mem_cons_of_mem x hz, hc⟩

/-! ## Operands -/

theorem Register.name_inj {r s : Register} (h : r.name = s.name) : r = s := by
  revert h
  cases r <;> cases s <;> decide

namespace Instruction

namespace Operand

/-- Neither a comma nor a line feed nor a colon occurs in an operand. -/
theorem notMem_render (o : Operand) {c : Char} (h : c = ',' ∨ c = '\n' ∨ c = ':') :
    c ∉ o.render.toList := by
  have hdigit : isDigitOf 16 c = false := by
    rcases h with rfl | rfl | rfl <;> decide
  cases o with
  | register r =>
      cases r <;> rcases h with rfl | rfl | rfl <;> decide
  | immediate w value =>
      have hmark : c ∉ "0x".toList := by
        rcases h with rfl | rfl | rfl <;> decide
      rw [render, String.toList_append, List.mem_append]
      exact not_or.2 ⟨hmark, notMem_hex hdigit _ _⟩
  | target address =>
      have hmark : c ∉ "-> ".toList := by
        rcases h with rfl | rfl | rfl <;> decide
      rw [render, String.toList_append, List.mem_append]
      exact not_or.2 ⟨hmark, notMem_hex hdigit _ _⟩

/-- The first character tells a register, a constant and an address apart. -/
theorem head?_render (o : Operand) :
    o.render.toList.head? = match o with
      | .register r => r.name.toList.head?
      | .immediate _ _ => some '0'
      | .target _ => some '-' := by
  cases o with
  | register r => rfl
  | immediate w value => rw [render, String.toList_append]; rfl
  | target address => rw [render, String.toList_append]; rfl

/-- A constant is written with two digits for each byte. -/
theorem length_hex_immediate {w : Width} (value : BitVec w.bits) :
    (hex (2 * w.bytes) value.toNat).length = 2 * w.bytes := by
  have hrange : 2 ^ w.bits = 16 ^ (2 * w.bytes) := by
    cases w <;> rfl
  have hpos : 0 < 2 * w.bytes := by
    cases w <;> decide
  exact length_hex hpos (hrange ▸ value.isLt)

/-- An operand is determined by its text, its width included. -/
theorem render_inj {o o' : Operand} (h : o.render = o'.render) : o = o' := by
  have hhead := congrArg (·.toList.head?) h
  simp only [head?_render] at hhead
  cases o with
  | register r =>
      cases o' with
      | register s => rw [Register.name_inj h]
      | immediate w value => cases r <;> simp [Register.name] at hhead
      | target address => cases r <;> simp [Register.name] at hhead
  | immediate w value =>
      cases o' with
      | register s => cases s <;> simp [Register.name] at hhead
      | immediate w' value' =>
          have hhex := (String.append_right_inj _).1 h
          have hlength := congrArg String.length hhex
          rw [length_hex_immediate, length_hex_immediate] at hlength
          have hwidth : w = w' := by
            revert hlength
            cases w <;> cases w' <;> decide
          subst hwidth
          rw [BitVec.eq_of_toNat_eq (hex_inj hhex)]
      | target address => simp at hhead
  | target address =>
      cases o' with
      | register s => cases s <;> simp [Register.name] at hhead
      | immediate w value => simp at hhead
      | target address' =>
          have hhex := (String.append_right_inj _).1 h
          rw [UInt64.toNat_inj.1 (hex_inj hhex)]

end Operand

/-! ## Instructions -/

/-- What stands behind the name: a blank and the operands with commas between them, or nothing. -/
def operandsText (operands : List Operand) : List Char :=
  if operands = [] then [] else ' ' :: ", ".toList.intercalate (operands.map (·.render.toList))

theorem toList_render (i : Instruction) (address : Nat) :
    (i.render address).toList = i.opcode.name.toList ++ operandsText (i.operands address) := by
  rw [render, operandsText]
  by_cases h : i.operands address = []
  · simp [h]
  · simp [h, String.toList_intercalate, Function.comp_def]

theorem operandsText_inj {operands operands' : List Operand}
    (h : operandsText operands = operandsText operands') : operands = operands' := by
  have hcomma : ∀ (os : List Operand), ∀ x ∈ os.map (·.render.toList), ',' ∉ x := by
    intro os x hx
    obtain ⟨o, -, rfl⟩ := List.mem_map.1 hx
    exact o.notMem_render (.inl rfl)
  have hinjective : Function.Injective fun o : Operand => o.render.toList := fun o o' heq =>
    Operand.render_inj (String.toList_inj.1 heq)
  by_cases hnil : operands = [] <;> by_cases hnil' : operands' = []
  · rw [hnil, hnil']
  · simp [operandsText, hnil, hnil'] at h
  · simp [operandsText, hnil, hnil'] at h
  · simp only [operandsText, hnil, hnil', if_false] at h
    have hmap := intercalate_inj (hcomma _) (hcomma _) (by simpa using hnil) (by simpa using hnil')
      (List.cons.inj h).2
    exact List.map_injective_iff.2 hinjective hmap

/-- Neither a blank nor a line feed nor a colon occurs in a name. -/
theorem notMem_name (op : Opcode) {c : Char} (h : c = ' ' ∨ c = '\n' ∨ c = ':') :
    c ∉ op.name.toList := by
  have hall : ∀ o ∈ Opcode.all,
      ' ' ∉ o.name.toList ∧ '\n' ∉ o.name.toList ∧ ':' ∉ o.name.toList := by decide +kernel
  obtain ⟨hblank, hfeed, hcolon⟩ := hall op op.mem_all
  rcases h with rfl | rfl | rfl
  · exact hblank
  · exact hfeed
  · exact hcolon

/-- The name is what stands before the first blank. -/
theorem takeWhile_toList_render (i : Instruction) (address : Nat) :
    (i.render address).toList.takeWhile (· ≠ ' ') = i.opcode.name.toList := by
  rw [toList_render]
  refine takeWhile_append_separator (notMem_name i.opcode (.inl rfl)) fun c hc => ?_
  rw [operandsText] at hc
  split at hc
  next => contradiction
  next => exact (Option.some.inj hc).symm

/-- The text of an instruction at an address determines it. -/
theorem render_inj {address : Nat} {i j : Instruction} (h : i.render address = j.render address) :
    i = j := by
  have hname : i.opcode.name.toList = j.opcode.name.toList := by
    rw [← takeWhile_toList_render i address, h, takeWhile_toList_render]
  have hopcode := Opcode.name_inj (String.toList_inj.1 hname)
  have htext := congrArg String.toList h
  rw [toList_render, toList_render, hname] at htext
  have hoperands := operandsText_inj (List.append_cancel_left htext)
  exact eq_of_decoded_eq (Prod.ext hopcode hoperands)

/-- The text of an instruction is a single line, and no header. -/
theorem notMem_render (i : Instruction) (address : Nat) {c : Char} (h : c = '\n' ∨ c = ':') :
    c ∉ (i.render address).toList := by
  have hseparator : c ≠ ' ' ∧ c ∉ ", ".toList := by
    rcases h with rfl | rfl <;> decide
  obtain ⟨hblank, hcomma⟩ := hseparator
  rw [toList_render, operandsText, List.mem_append]
  rintro (hname | hoperands)
  · exact notMem_name i.opcode (.inr h) hname
  · split at hoperands
    next => contradiction
    next =>
      rcases List.mem_cons.1 hoperands with heq | hoperands
      · exact hblank heq
      · rcases mem_of_mem_intercalate hoperands with hmem | ⟨x, hx, hc⟩
        · exact hcomma hmem
        · obtain ⟨o, -, rfl⟩ := List.mem_map.1 hx
          exact o.notMem_render (.inr h) hc

/-- A name starts with a capital letter, unlike the text of an illegal byte. -/
theorem toList_render_ne_illegal (i : Instruction) (address : Nat) (digits : String) :
    (i.render address).toList ≠ (".illegal 0x" ++ digits).toList := by
  intro heq
  obtain ⟨c, hc, hupper⟩ :=
    i.opcode.exists_head?_name_append (String.ofList (operandsText (i.operands address)))
  rw [String.toList_append, String.toList_ofList, ← toList_render, heq, String.toList_append] at hc
  cases hc
  contradiction

end Instruction

/-! ## Lines -/

namespace ListingLine

/-- The mark takes one place, as the blank does. -/
theorem length_margin (address : Nat) (mark mark' : Bool) :
    (margin address mark).toList.length = (margin address mark').toList.length := by
  cases mark <;> cases mark' <;> simp [margin]

/-- Texts that start with lines at one address: the lines show the same behind the margin. -/
theorem margin_inj {address : Nat} {mark mark' : Bool} {body body' rest rest' : List Char}
    (hbody : '\n' ∉ body) (hbody' : '\n' ∉ body')
    (h : (margin address mark).toList ++ (body ++ '\n' :: rest) =
      (margin address mark').toList ++ (body' ++ '\n' :: rest')) : body = body' ∧ rest = rest' := by
  have hbehind := (List.append_inj h (length_margin address mark mark')).2
  exact append_separator_inj hbody hbody' hbehind

theorem toList_render_instruction (address : Nat) (mark : Bool) (i : Instruction) :
    (instruction address mark i).render.toList =
      (margin address mark).toList ++ ((i.render address).toList ++ ['\n']) := by
  simp [render]

theorem toList_render_illegal (address : Nat) (mark : Bool) (b : UInt8) :
    (illegal address mark b).render.toList =
      (margin address mark).toList ++ ((".illegal 0x" ++ hex 2 b.toNat).toList ++ ['\n']) := by
  simp [render]

end ListingLine

theorem Image.toList_listingText (image : Image) :
    image.listingText.toList = image.listing.flatMap (·.render.toList) := by
  rw [listingText, String.toList_join, List.flatMap_map]

namespace Lists

variable {image image' : Image} {marked marked' : Nat → Bool} {address : Nat}
  {lines lines' : List ListingLine}

/-- Lines with the same text from one address on show the same code, if no illegal byte
is among those of one. -/
theorem drop_eq (hentries : image.procedures = []) (hentries' : image'.procedures = [])
    (h : Lists image marked address lines) (h' : Lists image' marked' address lines')
    (hlegal : ∀ l ∈ lines, l.isIllegal = false)
    (htext : lines.flatMap (·.render.toList) = lines'.flatMap (·.render.toList)) :
    image.code.drop address = image'.code.drop address := by
  have hheaders : ∀ a, image.headerLines a = [] ∧ image'.headerLines a = [] := fun a => by
    simp [Image.headerLines, Image.procedureAt?, hentries, hentries']
  induction h generalizing lines' with
  | ended =>
      generalize hstop : image.code.length = stop at h'
      cases h' with
      | ended => rw [← hstop, List.drop_length, hstop, List.drop_length]
      | instruction decodes lists =>
          simp [hheaders, ListingLine.toList_render_instruction] at htext
      | illegal stands undecodable =>
          simp [hheaders, ListingLine.toList_render_illegal] at htext
  | @instruction address i later decodes lists ih =>
      cases h' with
      | ended => simp [hheaders, ListingLine.toList_render_instruction] at htext
      | @instruction _ j later' decodes' lists' =>
          simp only [hheaders, List.nil_append, List.flatMap_cons,
            ListingLine.toList_render_instruction, List.append_assoc,
            List.singleton_append] at htext
          obtain ⟨hline, hrest⟩ := ListingLine.margin_inj
            (i.notMem_render address (.inl rfl)) (j.notMem_render address (.inl rfl)) htext
          have hij : i = j := render_inj (String.toList_inj.1 hline)
          subst hij
          have hlater := ih lists' (Image.forall_isIllegal_iff.1 hlegal) hrest
          rw [← encode_append_of_decodeAt? decodes, ← encode_append_of_decodeAt? decodes', hlater]
      | @illegal _ b stands undecodable =>
          simp only [hheaders, List.nil_append, List.flatMap_cons, List.flatMap_nil,
            List.append_nil,
            ListingLine.toList_render_instruction, ListingLine.toList_render_illegal,
            List.append_assoc, List.singleton_append] at htext
          have hbyte : '\n' ∉ (".illegal 0x" ++ hex 2 b.toNat).toList := by
            simp [notMem_hex (c := '\n') (by decide)]
          obtain ⟨hline, -⟩ := ListingLine.margin_inj
            (i.notMem_render address (.inl rfl)) hbyte htext
          exact absurd hline (toList_render_ne_illegal i address _)
  | @illegal address b stands undecodable =>
      have hlast := hlegal (.illegal address (marked address) b) (by simp)
      contradiction

end Lists

/-- **A listing loses nothing.** If code is decoded to its end, only this code has its
listing, where no procedures are named; and the text of an instruction, at a given address,
determines its bytes. -/
theorem listing_determines_code :
    (∀ (image image' : Image) (swept : List (Nat × Instruction)),
      image.procedures = [] → image'.procedures = [] →
        Covers image.code 0 swept image.code.length →
          image.listingText = image'.listingText → image.code = image'.code) ∧
      ∀ (address : Nat) (code code' : List UInt8) (i i' : Instruction),
        decodeAt? code address = some i → decodeAt? code' address = some i' →
          i.render address = i'.render address →
            (code.drop address).take i.size = (code'.drop address).take i'.size := by
  constructor
  · intro image image' swept hentries hentries' hcovers htext
    have hlists := image.lists_listing
    have hlines := congrArg String.toList htext
    rw [Image.toList_listingText, Image.toList_listingText] at hlines
    exact Lists.drop_eq hentries hentries' hlists image'.lists_listing
      (hlists.isIllegal_of_covers hcovers) hlines
  · intro address code code' i i' hi hi' htext
    rw [take_size_of_decode? hi, take_size_of_decode? hi', render_inj htext]

/-- A load, and a jump back to it. -/
def spin : List UInt8 :=
  [1, 0, 5, 37, 244, 255, 255, 255, 255, 255, 255, 255]

/-- Images of two versions with one listing have one code, and what stands behind a jump does
not matter to its bytes. -/
theorem listing_determines_spin :
    let image : Image := ⟨Image.currentVersion, spin, []⟩
    let other : Image := ⟨0, spin, []⟩
    let jump : Instruction := .jump (-12)
    Covers spin 0 [(0, .load .w8 .r0 5), (3, jump)] spin.length ∧
      image.listingText = other.listingText ∧ image.code = other.code ∧
      decodeAt? (spin ++ [44]) 3 = some jump ∧
      (spin.drop 3).take jump.size = ((spin ++ [44]).drop 3).take jump.size := by
  intro image other jump
  have hload : decodeAt? spin 0 = some (.load .w8 .r0 5) := by decide
  have hjump : decodeAt? spin 3 = some jump := by decide
  have hlonger : decodeAt? (spin ++ [44]) 3 = some jump := by decide
  have hcovers : Covers spin 0 [(0, .load .w8 .r0 5), (3, jump)] spin.length :=
    .next hload (.next hjump (.done 12))
  have htext : image.listingText = other.listingText := rfl
  exact ⟨hcovers, htext, listing_determines_code.1 image other _ rfl rfl hcovers htext, hlonger,
    listing_determines_code.2 3 spin _ jump jump hjump hlonger rfl⟩

end RegisterMachine
