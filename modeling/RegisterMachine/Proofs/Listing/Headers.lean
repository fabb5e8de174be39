import Mathlib.Data.List.Sort
import RegisterMachine.Proofs.Assembly.Entry
import RegisterMachine.Proofs.Assembly.Safety
import RegisterMachine.Proofs.Listing.Text

/-!
# RegisterMachine.Proofs.Listing.Headers

The headers of a listing.

* `headings lines` -- the headers among lines, each with the address of the line behind it;
* `printedHeadings lines` -- the same of the lines of a text;
* `headings_listing`, `printedHeadings_listing` -- a line has a header if a procedure stands at its
  address, that of the first one;
* `headed procedures k` -- no procedure before this one starts where it starts, and it starts before
  the end of the code (`headed_iff`);
* `headings_of_assembleProgram` -- the headers of a program are those of its headed procedures.

A procedure that only defines labels takes no bytes. So it starts where the next one does, or at the
end of the code, and one of the two goes without a header.
-/

namespace RegisterMachine

open Instruction

/-! ## Headers among lines -/

/-- The address of a line that shows bytes. -/
def ListingLine.address? : ListingLine → Option Nat
  | .header _ => none
  | .instruction address _ _ => some address
  | .illegal address _ _ => some address

/-- The headers among lines, each with the address of the line behind it. -/
def headings : List ListingLine → List (String × Option Nat)
  | [] => []
  | .header name :: lines => (name, lines.head?.bind ListingLine.address?) :: headings lines
  | .instruction _ _ _ :: lines => headings lines
  | .illegal _ _ _ :: lines => headings lines

/-- The header that an entry asks for. -/
def Entry.heading (e : Entry) : String × Option Nat :=
  (e.name, some e.address.toNat)

theorem Entry.heading_injective : Function.Injective Entry.heading := by
  intro e f heq
  obtain ⟨hname, haddress⟩ := Prod.mk.inj heq
  cases e
  cases f
  simp_all [UInt64.toNat_inj]

/-- The headers among the lines of a text: those that end in a colon, each with what stands before
the first blank of the line behind it. -/
def printedHeadings : List (List Char) → List (List Char × List Char)
  | [] => []
  | line :: lines =>
    if line.getLast? = some ':' then
      (line.dropLast, (lines.headD []).takeWhile (· ≠ ' ')) :: printedHeadings lines
    else printedHeadings lines

/-- The header that an entry asks for, as it is printed. -/
def Entry.printedHeading (e : Entry) : List Char × List Char :=
  (e.name.toList, (hex 4 e.address.toNat).toList)

theorem Entry.printedHeading_injective : Function.Injective Entry.printedHeading := by
  intro e f heq
  obtain ⟨hname, hdigits⟩ := Prod.mk.inj heq
  have haddress := hex_inj (String.toList_inj.1 hdigits)
  cases e
  cases f
  simp_all [UInt64.toNat_inj, String.toList_inj]

/-- What the line of an instruction has in front of its line feed. -/
def instructionText (address : Nat) (mark : Bool) (i : Instruction) : List Char :=
  (ListingLine.margin address mark).toList ++ (i.render address).toList

theorem notMem_instructionText (address : Nat) (mark : Bool) (i : Instruction) {c : Char}
    (h : c = '\n' ∨ c = ':') : c ∉ instructionText address mark i := by
  have hdigit : isDigitOf 16 c = false := by
    rcases h with rfl | rfl <;> decide
  have hmark : ∀ mark : Bool, c ∉ (" " ++ (if mark then "►" else " ") ++ " ").toList := by
    rcases h with rfl | rfl <;> decide
  have hmargin : ListingLine.margin address mark =
      hex 4 address ++ (" " ++ (if mark then "►" else " ") ++ " ") := by
    simp [ListingLine.margin, String.append_assoc]
  rw [instructionText, hmargin, String.toList_append, List.mem_append, List.mem_append]
  rintro ((hhex | hmem) | hbody)
  · exact notMem_hex hdigit 4 address hhex
  · exact hmark mark hmem
  · exact i.notMem_render address h hbody

/-- The line of an instruction starts with its address. -/
theorem takeWhile_instructionText (address : Nat) (mark : Bool) (i : Instruction) :
    (instructionText address mark i).takeWhile (· ≠ ' ') = (hex 4 address).toList := by
  have hblank : ' ' ∉ (hex 4 address).toList := notMem_hex (by decide) 4 address
  simp only [instructionText, ListingLine.margin, String.toList_append, List.append_assoc]
  exact takeWhile_append_separator hblank (by simp)

/-- The line of an instruction is no header. -/
theorem printedHeadings_instructionText_cons (address : Nat) (mark : Bool) (i : Instruction)
    (lines : List (List Char)) :
    printedHeadings (instructionText address mark i :: lines) = printedHeadings lines := by
  have hlast : (instructionText address mark i).getLast? ≠ some ':' := fun heq =>
    notMem_instructionText address mark i (.inr rfl) (List.mem_of_getLast? heq)
  rw [printedHeadings, if_neg hlast]

/-- A header is printed on a line of its own. -/
theorem printedHeadings_header_cons (name : String) (line : List Char) (lines : List (List Char)) :
    printedHeadings ((name.toList ++ [':']) :: line :: lines) =
      (name.toList, line.takeWhile (· ≠ ' ')) :: printedHeadings (line :: lines) := by
  rw [printedHeadings]
  simp

namespace Image

variable {image : Image}

/-- The first procedure at an address. -/
def entryAt? (image : Image) (address : Nat) : Option Entry :=
  image.procedures.find? (·.address == UInt64.ofNat address)

theorem headerLines_eq_entryAt? (address : Nat) :
    image.headerLines address = ((image.entryAt? address).map fun e => .header e.name).toList := by
  rw [headerLines, procedureAt?, entryAt?, Option.map_map]
  rfl

theorem toNat_address_of_entryAt? {address : Nat} {e : Entry} (h : image.entryAt? address = some e)
    (hfits : address < UInt64.size) : e.address.toNat = address := by
  have haddress : e.address = UInt64.ofNat address := by simpa using List.find?_some h
  rw [haddress, UInt64.toNat_ofNat_of_lt' hfits]

/-- What is read of lines one by one, and of those of an instruction in the header in front of them,
is read of a listing in the order of its instructions, if the code is decoded to its end. -/
theorem read_listing {α : Type} (read : List ListingLine → List α) (f : Entry → α)
    (hend : (sweep image.code).rest = [])
    (hfits : ∀ p ∈ (sweep image.code).instructions, p.1 < UInt64.size) (hnil : read [] = [])
    (happend : ∀ address < UInt64.size, ∀ mark i lines,
      read (image.headerLines address ++ .instruction address mark i :: lines) =
        ((image.entryAt? address).map f).toList ++ read lines) :
    read image.listing =
      ((sweep image.code).instructions.filterMap fun p => image.entryAt? p.1).map f := by
  rw [listing, hend, restLines, List.append_nil]
  generalize jumpTargets image.code = targets
  generalize (sweep image.code).instructions = swept at hfits
  induction swept with
  | nil => exact hnil
  | cons p swept ih =>
      obtain ⟨address, i⟩ := p
      have hlt := hfits (address, i) List.mem_cons_self
      rw [List.flatMap_cons]
      show read (image.headerLines address ++ [.instruction address _ i] ++ _) = _
      rw [List.append_assoc, List.singleton_append, happend address hlt,
        ih fun q hq => hfits q (List.mem_cons_of_mem _ hq), List.filterMap_cons]
      cases image.entryAt? address <;> rfl

theorem headings_listing (hend : (sweep image.code).rest = [])
    (hfits : ∀ p ∈ (sweep image.code).instructions, p.1 < UInt64.size) :
    headings image.listing =
      ((sweep image.code).instructions.filterMap fun p => image.entryAt? p.1).map
        Entry.heading := by
  refine read_listing headings Entry.heading hend hfits rfl fun address hlt mark i lines => ?_
  rw [headerLines_eq_entryAt?]
  cases h : image.entryAt? address with
  | none => rfl
  | some e =>
      have haddress := toNat_address_of_entryAt? h hlt
      simp [headings, ListingLine.address?, Entry.heading, haddress]

theorem printedHeadings_listing (hend : (sweep image.code).rest = [])
    (hfits : ∀ p ∈ (sweep image.code).instructions, p.1 < UInt64.size)
    (hnames : ∀ e ∈ image.procedures, '\n' ∉ e.name.toList) :
    printedHeadings (image.listingText.toList.splitOn '\n') =
      ((sweep image.code).instructions.filterMap fun p => image.entryAt? p.1).map
        Entry.printedHeading := by
  rw [toList_listingText]
  refine read_listing
    (fun lines => printedHeadings ((lines.flatMap (·.render.toList)).splitOn '\n'))
    Entry.printedHeading hend hfits rfl fun address hlt mark i lines => ?_
  have hline : ((.instruction address mark i :: lines).flatMap (·.render.toList)).splitOn '\n' =
      instructionText address mark i :: (lines.flatMap (·.render.toList)).splitOn '\n' := by
    have hnone : '\n' ∉ instructionText address mark i :=
      notMem_instructionText address mark i (.inl rfl)
    rw [← List.splitOn_append_cons_self_of_not_mem hnone]
    simp [ListingLine.toList_render_instruction, instructionText]
  cases h : image.entryAt? address with
  | none =>
      rw [headerLines_eq_entryAt?, h, Option.map_none, Option.toList_none, List.nil_append, hline,
        printedHeadings_instructionText_cons]
      rfl
  | some e =>
      have hnone : '\n' ∉ e.name.toList ++ [':'] := by
        simpa using hnames e (List.mem_of_find?_eq_some h)
      have hheader : (ListingLine.header e.name).render.toList =
          e.name.toList ++ [':'] ++ ['\n'] := by
        simp [ListingLine.render]
      rw [headerLines_eq_entryAt?, h, Option.map_some, Option.toList_some, List.singleton_append,
        List.flatMap_cons, hheader, List.append_assoc, List.singleton_append,
        List.splitOn_append_cons_self_of_not_mem hnone, hline, printedHeadings_header_cons,
        printedHeadings_instructionText_cons, takeWhile_instructionText]
      rw [Option.map_some, Option.toList_some, Entry.printedHeading,
        toNat_address_of_entryAt? h hlt]
      rfl

/-- An entry is found at an address if it stands there and none before it does. -/
theorem entryAt?_eq_some_iff {address : Nat} {e : Entry} :
    image.entryAt? address = some e ↔ e.address = UInt64.ofNat address ∧
      ∃ k : Nat, image.procedures[k]? = some e ∧
        ∀ (j : Nat) f, j < k → image.procedures[j]? = some f → f.address ≠ e.address := by
  rw [entryAt?, List.find?_eq_some_iff_getElem, beq_iff_eq]
  refine and_congr_right fun haddress => ?_
  rw [haddress]
  constructor
  · rintro ⟨k, hk, rfl, hbefore⟩
    refine ⟨k, List.getElem?_eq_getElem hk, fun j f hj hf => ?_⟩
    obtain ⟨hlt, rfl⟩ := List.getElem?_eq_some_iff.1 hf
    simpa using hbefore j hj
  · rintro ⟨k, hk, hbefore⟩
    obtain ⟨hlt, rfl⟩ := List.getElem?_eq_some_iff.1 hk
    refine ⟨k, hlt, rfl, fun j hj => ?_⟩
    simpa using hbefore j _ hj (List.getElem?_eq_getElem (Nat.lt_trans hj hlt))

end Image

/-! ## Where procedures start -/

/-- The procedure defines labels, and nothing else. -/
def Procedure.onlyLabels (p : Procedure) : Bool :=
  p.body.all fun s => s.form? = some .label

/-- The address at which a procedure starts: the bytes of those before it. -/
def startAddress (procedures : List Procedure) (k : Nat) : Nat :=
  linesSize (linesOf (procedures.take k))

/-- The procedure before it, if there is one, takes code, and so does this one or one behind it. -/
def headed (procedures : List Procedure) (k : Nat) : Bool :=
  (procedures.take k).getLast?.all (fun p => !p.onlyLabels) &&
    (procedures.drop k).any fun p => !p.onlyLabels

section Programs

variable {procedures : List Procedure} {image : Image}

theorem startAddress_le {j k : Nat} (hle : j ≤ k) :
    startAddress procedures j ≤ startAddress procedures k := by
  have hcut := linesOf_cut (procedures.take k) j
  rw [List.take_take, Nat.min_eq_left hle] at hcut
  rw [startAddress, startAddress, hcut, linesSize_append]
  omega

/-- A procedure starts behind the start of an earlier one exactly if one from that one on, and
before it, takes code. -/
theorem startAddress_lt_iff (h : assembleProgram procedures = .ok image) {j k : Nat} (hle : j ≤ k) :
    startAddress procedures j < startAddress procedures k ↔
      ∃ p ∈ (procedures.take k).drop j, p.onlyLabels = false := by
  have hpart : ∀ p ∈ (procedures.take k).drop j, p ∈ procedures := fun p hp =>
    List.mem_of_mem_take (List.mem_of_mem_drop hp)
  have hcut := linesOf_cut (procedures.take k) j
  have hzero := linesSize_linesFrom_eq_zero_iff h ((procedures.take k).take j).length hpart
  rw [List.take_take, Nat.min_eq_left hle] at hcut hzero
  have hsum : startAddress procedures k = startAddress procedures j +
      linesSize (linesFrom (procedures.take j).length ((procedures.take k).drop j)) := by
    rw [startAddress, hcut, linesSize_append, startAddress]
  have hpos : startAddress procedures j < startAddress procedures k ↔
      ¬ linesSize (linesFrom (procedures.take j).length ((procedures.take k).drop j)) = 0 := by
    omega
  rw [hpos, hzero]
  simp [Procedure.onlyLabels]

/-- The procedure before a procedure takes code exactly if all procedures
before it start before it. -/
theorem all_getLast?_take_iff (h : assembleProgram procedures = .ok image) {k : Nat}
    (hk : k < procedures.length) :
    (procedures.take k).getLast?.all (fun p => !p.onlyLabels) ↔
      ∀ j < k, startAddress procedures j < startAddress procedures k := by
  cases k with
  | zero => simp
  | succ k =>
      have hlt := Nat.lt_of_succ_lt hk
      have hlast : (procedures.take (k + 1)).getLast? = some procedures[k] := by
        simp [List.getLast?_take, hlt]
      have hown := startAddress_lt_iff h (Nat.le_add_right k 1)
      rw [List.drop_take, Nat.add_sub_cancel_left, List.drop_eq_getElem_cons hlt] at hown
      rw [hlast, Option.all_some, Bool.not_eq_true']
      constructor
      · intro hcode j hj
        have hle : startAddress procedures j ≤ startAddress procedures k :=
          startAddress_le (Nat.le_of_lt_succ hj)
        exact Nat.lt_of_le_of_lt hle (hown.2 ⟨procedures[k], List.mem_cons_self, hcode⟩)
      · intro hbefore
        obtain ⟨p, hp, hcode⟩ := hown.1 (hbefore k (Nat.lt_succ_self k))
        rw [← List.mem_singleton.1 hp]
        exact hcode

theorem length_code_eq_startAddress (h : assembleProgram procedures = .ok image) :
    image.code.length = startAddress procedures procedures.length := by
  rw [length_code_of_assembleProgram h, startAddress, List.take_length]

/-- A procedure is headed if it starts behind all procedures before it, and before the end. -/
theorem headed_iff (h : assembleProgram procedures = .ok image) {k : Nat}
    (hk : k < procedures.length) :
    headed procedures k ↔ (∀ j < k, startAddress procedures j < startAddress procedures k) ∧
      startAddress procedures k < image.code.length := by
  rw [length_code_eq_startAddress h, startAddress_lt_iff h (Nat.le_of_lt hk), List.take_length,
    headed, Bool.and_eq_true, all_getLast?_take_iff h hk]
  simp

/-- Every procedure starts behind all others before it and before the end exactly if none
is made of labels only. -/
theorem headed_all_iff :
    (∀ k < procedures.length, headed procedures k) ↔ ∀ p ∈ procedures, p.onlyLabels = false := by
  constructor
  · intro hall p hp
    obtain ⟨k, hk, rfl⟩ := List.mem_iff_getElem.1 hp
    by_cases hnext : k + 1 < procedures.length
    · have hheaded := hall (k + 1) hnext
      simp_all [headed, List.getLast?_take]
    · have hheaded := hall k hk
      have hlast : procedures.drop k = [procedures[k]] := by
        rw [List.drop_eq_getElem_cons hk, List.drop_eq_nil_of_le (by omega)]
      simp_all [headed]
  · intro hcode k hk
    have hbefore : ∀ p ∈ (procedures.take k).getLast?, p.onlyLabels = false := fun p hp =>
      hcode p (List.mem_of_mem_take (List.mem_of_getLast? hp))
    have hbehind : procedures[k] ∈ procedures.drop k := by
      rw [List.drop_eq_getElem_cons hk]
      exact List.mem_cons_self
    have hown := hcode _ (List.getElem_mem hk)
    simp only [headed, Bool.and_eq_true, Option.all_eq_true, Bool.not_eq_true', List.any_eq_true]
    exact ⟨hbefore, _, hbehind, hown⟩

/-- The entries in order of the procedures that are headed. -/
def headedEntries (procedures : List Procedure) (entries : List Entry) : List Entry :=
  (entries.zipIdx.filter fun p => headed procedures p.2).map Prod.fst

theorem mem_headedEntries {entries : List Entry} {e : Entry} :
    e ∈ headedEntries procedures entries ↔
      ∃ k : Nat, entries[k]? = some e ∧ headed procedures k := by
  simp [headedEntries, List.mem_zipIdx_iff_getElem?]

/-- No entry is left out exactly if no procedure is made of labels only. -/
theorem headedEntries_eq_iff {entries : List Entry} (hlength : entries.length = procedures.length) :
    headedEntries procedures entries = entries ↔ ∀ p ∈ procedures, p.onlyLabels = false := by
  rw [← headed_all_iff, ← hlength]
  constructor
  · intro heq k hk
    have hsame := congrArg List.length heq
    rw [headedEntries, List.length_map, ← List.length_zipIdx (l := entries) (i := 0),
      List.length_filter_eq_length_iff] at hsame
    exact hsame (entries[k], k) (by simp [List.mem_zipIdx_iff_getElem?, hk])
  · intro hall
    have hkept : ∀ p ∈ entries.zipIdx, headed procedures p.2 := fun p hp =>
      hall p.2 (List.snd_lt_of_mem_zipIdx hp)
    rw [headedEntries, List.filter_eq_self.2 hkept, List.zipIdx_map_fst]

/-- The sweep over the image of a program ends with the code. -/
theorem sweep_of_assembleProgram (h : assembleProgram procedures = .ok image) :
    (sweep image.code).stop = image.code.length ∧ (sweep image.code).rest = [] := by
  obtain ⟨instructions, hcode, -⟩ := emits_of_assembleProgram h
  rw [hcode, sweep_encodeAll]
  exact ⟨rfl, rfl⟩

theorem lt_length_of_mem_sweep (h : assembleProgram procedures = .ok image) {p : Nat × Instruction}
    (hp : p ∈ (sweep image.code).instructions) : p.1 < image.code.length := by
  have hle := (covers_sweep image.code).add_size_le hp
  have hpos := p.2.size_pos
  rw [(sweep_of_assembleProgram h).1] at hle
  omega

/-- Where an entry of the image of a program stands. -/
theorem toNat_address_of_assembleProgram (h : assembleProgram procedures = .ok image)
    (hfits : image.code.length < UInt64.size) {k : Nat} {e : Entry}
    (he : image.procedures[k]? = some e) :
    k < procedures.length ∧ e.address.toNat = startAddress procedures k ∧
      Boundary image.code e.address.toNat := by
  have hk : k < procedures.length := by
    rw [← length_procedures_of_assembleProgram h]
    exact (List.getElem?_eq_some_iff.1 he).1
  have hle : startAddress procedures k ≤ image.code.length := by
    rw [length_code_eq_startAddress h]
    exact startAddress_le (Nat.le_of_lt hk)
  have haddress : e.address =
      UInt64.ofNat (addressOf (linesOf procedures) (firstLine procedures k)) := by
    rw [procedures_of_assembleProgram h, List.getElem?_mapIdx, List.getElem?_eq_getElem hk] at he
    cases he
    rfl
  rw [haddress]
  refine ⟨hk, ?_, boundary_of_assembleProgram h hfits _⟩
  rw [addressOf_firstLine, ← startAddress, UInt64.toNat_ofNat_of_lt' (Nat.lt_of_le_of_lt hle hfits)]

/-- The entry at the address of an instruction is that of a headed procedure. -/
theorem exists_entryAt?_iff (h : assembleProgram procedures = .ok image)
    (hfits : image.code.length < UInt64.size) {e : Entry} :
    (∃ p ∈ (sweep image.code).instructions, image.entryAt? p.1 = some e) ↔
      e ∈ headedEntries procedures image.procedures := by
  rw [mem_headedEntries]
  constructor
  · rintro ⟨p, hp, hentry⟩
    obtain ⟨haddress, k, hk, hfirst⟩ := Image.entryAt?_eq_some_iff.1 hentry
    obtain ⟨hlt, hstart, -⟩ := toNat_address_of_assembleProgram h hfits hk
    refine ⟨k, hk, (headed_iff h hlt).2 ⟨fun j hj => ?_, ?_⟩⟩
    · have hjlt : j < image.procedures.length := Nat.lt_trans hj (List.getElem?_eq_some_iff.1 hk).1
      have hf := List.getElem?_eq_getElem hjlt
      have hother := (toNat_address_of_assembleProgram h hfits hf).2.1
      have hne := hfirst j _ hj hf
      rw [Ne, ← UInt64.toNat_inj, hother, hstart] at hne
      exact Nat.lt_of_le_of_ne (startAddress_le (Nat.le_of_lt hj)) hne
    · have hend := lt_length_of_mem_sweep h hp
      rw [← hstart, haddress, UInt64.toNat_ofNat_of_lt' (Nat.lt_trans hend hfits)]
      exact hend
  · rintro ⟨k, hk, hheaded⟩
    obtain ⟨hlt, hstart, hboundary⟩ := toNat_address_of_assembleProgram h hfits hk
    obtain ⟨hbefore, hend⟩ := (headed_iff h hlt).1 hheaded
    rcases hboundary with hlast | ⟨i, hi⟩
    · omega
    · refine ⟨_, hi, Image.entryAt?_eq_some_iff.2 ⟨UInt64.ofNat_toNat.symm, k, hk, ?_⟩⟩
      intro j f hj hf hsame
      have hother := (toNat_address_of_assembleProgram h hfits hf).2.1
      have hstarts := hbefore j hj
      rw [hsame] at hother
      omega

/-- The entries at the addresses of instructions come in the order of their addresses. -/
theorem pairwise_filterMap_entryAt? (h : assembleProgram procedures = .ok image)
    (hfits : image.code.length < UInt64.size) :
    ((sweep image.code).instructions.filterMap fun p => image.entryAt? p.1).Pairwise
      (·.address < ·.address) := by
  have hlt := (covers_sweep image.code).pairwise_lt
  refine List.pairwise_filterMap.2 (hlt.imp_of_mem fun {p q} hp hq hpq e he f hf => ?_)
  have hpfits := Nat.lt_trans (lt_length_of_mem_sweep h hp) hfits
  have hqfits := Nat.lt_trans (lt_length_of_mem_sweep h hq) hfits
  rw [(Image.entryAt?_eq_some_iff.1 he).1, (Image.entryAt?_eq_some_iff.1 hf).1,
    UInt64.lt_iff_toNat_lt, UInt64.toNat_ofNat_of_lt' hpfits, UInt64.toNat_ofNat_of_lt' hqfits]
  exact hpq

/-- The entries of headed procedures come in the order of their addresses. -/
theorem pairwise_headedEntries (h : assembleProgram procedures = .ok image)
    (hfits : image.code.length < UInt64.size) :
    (headedEntries procedures image.procedures).Pairwise (·.address < ·.address) := by
  rw [headedEntries, List.pairwise_map, List.pairwise_filter, List.pairwise_iff_getElem]
  intro j k hj hk hjk _ hheaded
  rw [List.length_zipIdx] at hj hk
  simp only [List.getElem_zipIdx, Nat.zero_add] at hheaded ⊢
  obtain ⟨-, hjstart, -⟩ := toNat_address_of_assembleProgram h hfits (List.getElem?_eq_getElem hj)
  obtain ⟨hlt, hkstart, -⟩ := toNat_address_of_assembleProgram h hfits (List.getElem?_eq_getElem hk)
  rw [UInt64.lt_iff_toNat_lt, hjstart, hkstart]
  exact ((headed_iff h hlt).1 hheaded).1 j hjk

/-- The entries at the addresses of instructions are those of the headed procedures, in order. -/
theorem filterMap_entryAt? (h : assembleProgram procedures = .ok image)
    (hfits : image.code.length < UInt64.size) :
    ((sweep image.code).instructions.filterMap fun p => image.entryAt? p.1) =
      headedEntries procedures image.procedures := by
  have hirrefl : Std.Irrefl (fun e f : Entry => e.address < f.address) :=
    ⟨fun _ => UInt64.lt_irrefl _⟩
  have hantisymm : Std.Antisymm (fun e f : Entry => e.address < f.address) :=
    ⟨fun _ _ h h' => absurd h (UInt64.lt_asymm h')⟩
  refine (pairwise_filterMap_entryAt? h hfits).eq_of_mem_iff
    (pairwise_headedEntries h hfits) fun e => ?_
  rw [List.mem_filterMap]
  exact exists_entryAt?_iff h hfits

/-- **The headers of the listing of a program.** In the order of the program, each in front of the
line at which the procedure starts, they are those of the procedures that are headed: the procedure
before it takes code, if there is one, and so does this one or one behind it. All procedures have
their headers exactly if none of them only defines labels. If no name has a line feed, as in a
program that is read from a text, the lines of the text that end in a colon are these headers, and
the line behind each one starts with the address of the procedure. -/
theorem headings_of_assembleProgram (h : assembleProgram procedures = .ok image)
    (hfits : image.code.length < UInt64.size) :
    headings image.listing = (headedEntries procedures image.procedures).map Entry.heading ∧
      (headings image.listing = image.procedures.map Entry.heading ↔
        ∀ p ∈ procedures, p.onlyLabels = false) ∧
      ((∀ e ∈ image.procedures, '\n' ∉ e.name.toList) →
        let printed := printedHeadings (image.listingText.toList.splitOn '\n')
        printed = (headedEntries procedures image.procedures).map Entry.printedHeading ∧
          (printed = image.procedures.map Entry.printedHeading ↔
            ∀ p ∈ procedures, p.onlyLabels = false)) := by
  have hend := (sweep_of_assembleProgram h).2
  have hsmall : ∀ p ∈ (sweep image.code).instructions, p.1 < UInt64.size := fun p hp =>
    Nat.lt_trans (lt_length_of_mem_sweep h hp) hfits
  have hentries := filterMap_entryAt? h hfits
  have hall := headedEntries_eq_iff (length_procedures_of_assembleProgram h)
  have hheadings : headings image.listing =
      (headedEntries procedures image.procedures).map Entry.heading := by
    rw [Image.headings_listing hend hsmall, hentries]
  refine ⟨hheadings, ?_, fun hnames => ?_⟩
  · rw [hheadings, (List.map_injective_iff.2 Entry.heading_injective).eq_iff, hall]
  · intro printed
    have hprinted : printed =
        (headedEntries procedures image.procedures).map Entry.printedHeading := by
      rw [← hentries]
      exact Image.printedHeadings_listing hend hsmall hnames
    refine ⟨hprinted, ?_⟩
    rw [hprinted, (List.map_injective_iff.2 Entry.printedHeading_injective).eq_iff, hall]

end Programs

/-- A procedure that halts, between two without statements. -/
def haltBetween : List Procedure :=
  let empty (name : String) : Procedure := ⟨⟨.identifier, name, .origin, ⟨0, 0⟩⟩, []⟩
  empty "first" :: countdown.drop 1 ++ [empty "last"]

def haltBetweenImage : Image where
  version := Image.currentVersion
  code := [44]
  procedures := [⟨"first", 0⟩, ⟨"stop", 0⟩, ⟨"last", 1⟩]

theorem listing_haltBetweenImage :
    haltBetweenImage.listing = [.header "first", .instruction 0 false .halt] := by
  have hsweep : sweep haltBetweenImage.code = ⟨placed 0 [.halt], 1, []⟩ := sweep_encodeAll [.halt]
  rw [Image.listing, jumpTargets, hsweep]
  decide

/-- Only the first one has a header: the others start where it starts, and where the code ends. -/
theorem headings_haltBetweenImage :
    assembleProgram haltBetween = .ok haltBetweenImage ∧
      haltBetweenImage.code.length < UInt64.size ∧
      headings haltBetweenImage.listing = [("first", some 0)] ∧
      (∀ e ∈ haltBetweenImage.procedures, '\n' ∉ e.name.toList) ∧
      printedHeadings (haltBetweenImage.listingText.toList.splitOn '\n') =
        [("first".toList, "0000".toList)] := by
  have himage : assembleProgram haltBetween = .ok haltBetweenImage := rfl
  have hfits : haltBetweenImage.code.length < UInt64.size := by decide
  have hnames : ∀ e ∈ haltBetweenImage.procedures, '\n' ∉ e.name.toList := by decide
  obtain ⟨hheadings, -, hprinted⟩ := headings_of_assembleProgram himage hfits
  refine ⟨himage, hfits, ?_, hnames, ?_⟩
  · rw [hheadings]
    decide
  · rw [(hprinted hnames).1]
    decide

/-- The procedure that has the code has no header of its name, neither among the
lines nor in the text. -/
theorem no_header_of_stop : ¬ ∀ procedures image, assembleProgram procedures = .ok image →
    ∀ e ∈ image.procedures, .header e.name ∈ image.listing ∨
      e.name.toList ++ [':'] ∈ image.listingText.toList.splitOn '\n' := by
  intro hall
  have htext : haltBetweenImage.listingText = "first:\n0000   HALT\n" := by
    rw [Image.listingText, listing_haltBetweenImage]
    decide
  have hstop := hall haltBetween haltBetweenImage rfl ⟨"stop", 0⟩ (by decide)
  rw [listing_haltBetweenImage, htext] at hstop
  exact absurd hstop (by decide)

end RegisterMachine
