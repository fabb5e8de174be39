import RegisterMachine.Proofs.Assembly.Emission

/-!
# RegisterMachine.Proofs.Assembly.Entry

Where a procedure is entered that is asked for by its name.

* `LaidOut` says that the code of a procedure stands at an address: what the lines before it, its
  own lines and the lines behind it ask for is what is decoded there;
* `laidOut_of_assembleProgram` -- in an image every procedure is laid out, at one address only
  (`LaidOut.unique`);
* `entry?_of_firstNamed` -- of several procedures with a name, the first one is entered;
* `entry?_is_first_of_name` tells which procedure a name selects, and when it is entered where
  another one of its name stands.
-/

namespace RegisterMachine

open Instruction

/-! ## Where a procedure stands -/

/-- The code of a procedure stands at an address, between the code of the others. -/
def LaidOut (procedures : List Procedure) (code : List UInt8) (number address : Nat) : Prop :=
  let lines := linesOf procedures
  ∃ p before own after, procedures[number]? = some p ∧
    code = encodeAll (before ++ (own ++ after)) ∧ totalSize before = address ∧
    lowering? lines (linesOf (procedures.take number)) = some ((placed 0 before).map decoded) ∧
    lowering? lines (p.body.map (Line.mk number)) = some ((placed address own).map decoded) ∧
    lowering? lines (linesFrom (number + 1) (procedures.drop (number + 1))) =
      some ((placed (address + totalSize own) after).map decoded)

/-- The code of a procedure stands at one address. -/
theorem LaidOut.unique {procedures : List Procedure} {code : List UInt8}
    {number address address' : Nat}
    (h : LaidOut procedures code number address) (h' : LaidOut procedures code number address') :
    address = address' := by
  obtain ⟨-, before, -, -, -, -, rfl, hbefore, -⟩ := h
  obtain ⟨-, before', -, -, -, -, rfl, hbefore', -⟩ := h'
  have hshown := hbefore.symm.trans hbefore'
  rw [← shownSize_placed 0 before, ← shownSize_placed 0 before', Option.some.inj hshown]

/-- The instructions of lines can be cut where the lines can. -/
theorem Emits.split {lines xs ys : List Line} {address : Nat} {instructions : List Instruction}
    (h : Emits lines address (xs ++ ys) instructions) :
    ∃ first rest, instructions = first ++ rest ∧ Emits lines address xs first ∧
      Emits lines (address + totalSize first) ys rest := by
  induction xs generalizing address instructions with
  | nil => exact ⟨[], instructions, rfl, .nil address, h⟩
  | cons l xs ih =>
      rw [List.cons_append] at h
      cases h with
      | @cons _ _ _ own rest shown emits =>
          obtain ⟨first, rest, rfl, hfirst, hrest⟩ := ih emits
          refine ⟨own ++ first, rest, (List.append_assoc _ _ _).symm, .cons shown hfirst, ?_⟩
          rw [totalSize_append, ← Nat.add_assoc]
          exact hrest

/-- The lines of a program before a procedure, of the procedure and behind it. -/
theorem linesOf_split {procedures : List Procedure} {number : Nat} {p : Procedure}
    (hp : procedures[number]? = some p) :
    linesOf procedures = linesOf (procedures.take number) ++
      (p.body.map (Line.mk number) ++ linesFrom (number + 1) (procedures.drop (number + 1))) := by
  obtain ⟨hlt, rfl⟩ := List.getElem?_eq_some_iff.1 hp
  have hcut := linesOf_cut procedures number
  rw [List.length_take_of_le (Nat.le_of_lt hlt), List.drop_eq_getElem_cons hlt, linesFrom] at hcut
  exact hcut

theorem Form.size_eq_zero_iff (f : Form) : f.size = 0 ↔ f = .label := by
  cases f with
  | label => simp [size]
  | operation m => cases m <;> simp [size, Shape.size]

theorem linesSize_eq_zero_iff (lines : List Line) :
    linesSize lines = 0 ↔ ∀ l ∈ lines, l.size = 0 := by
  induction lines with
  | nil => simp [linesSize]
  | cons l lines ih => simp [linesSize, ih]

theorem mem_linesFrom (number : Nat) {procedures : List Procedure} {p : Procedure}
    (hp : p ∈ procedures) {s : Statement} (hs : s ∈ p.body) :
    ∃ l ∈ linesFrom number procedures, l.statement = s := by
  induction procedures generalizing number with
  | nil => simp at hp
  | cons q procedures ih =>
      rw [linesFrom]
      cases hp with
      | head => exact ⟨⟨number, s⟩, List.mem_append_left _ (List.mem_map_of_mem hs), rfl⟩
      | tail _ hp =>
          obtain ⟨l, hl, heq⟩ := ih (number + 1) hp
          exact ⟨l, List.mem_append_right _ hl, heq⟩

section Programs

variable {procedures : List Procedure} {image : Image}

/-- Every procedure of an image is laid out, behind the bytes of the lines before it. -/
theorem laidOut_of_assembleProgram (h : assembleProgram procedures = .ok image) {number : Nat}
    {p : Procedure} (hp : procedures[number]? = some p) :
    LaidOut procedures image.code number (linesSize (linesOf (procedures.take number))) := by
  obtain ⟨instructions, hcode, hemits⟩ := emits_of_assembleProgram h
  have hcut : Emits (linesOf procedures) 0 (linesOf (procedures.take number) ++
      (p.body.map (Line.mk number) ++ linesFrom (number + 1) (procedures.drop (number + 1))))
      instructions := by
    rw [← linesOf_split hp]
    exact hemits
  obtain ⟨before, rest, rfl, hbefore, hrest⟩ := hcut.split
  obtain ⟨own, after, rfl, hown, hafter⟩ := hrest.split
  have haddress := hbefore.totalSize_eq
  rw [Nat.zero_add, haddress] at hown hafter
  exact ⟨p, before, own, after, hp, hcode, haddress, hbefore.lowering?_eq, hown.lowering?_eq,
    hafter.lowering?_eq⟩

/-- Every statement of an assembled program is of some form. -/
theorem exists_form_of_assembleProgram (h : assembleProgram procedures = .ok image) {p : Procedure}
    (hp : p ∈ procedures) {s : Statement} (hs : s ∈ p.body) : ∃ f, s.form? = some f := by
  obtain ⟨instructions, -, hemits⟩ := emits_of_assembleProgram h
  obtain ⟨l, hl, rfl⟩ := mem_linesFrom 0 hp hs
  obtain ⟨k, hk⟩ := List.mem_iff_getElem?.1 hl
  obtain ⟨-, own, -, -, -, hown⟩ := hemits.at_line hk
  obtain ⟨action, haction, -⟩ := Option.bind_eq_some_iff.1 hown
  exact ⟨action.form, form?_of_action? haction⟩

/-- Procedures of an assembled program take no bytes exactly if they only define labels. -/
theorem linesSize_linesFrom_eq_zero_iff (h : assembleProgram procedures = .ok image) (number : Nat)
    {part : List Procedure} (hpart : ∀ p ∈ part, p ∈ procedures) :
    linesSize (linesFrom number part) = 0 ↔ ∀ p ∈ part, ∀ s ∈ p.body, s.form? = some .label := by
  have hsize {l : Line} {f : Form} (hf : l.statement.form? = some f) : l.size = f.size := by
    rw [Line.size, hf]
    rfl
  rw [linesSize_eq_zero_iff]
  constructor
  · intro hzero p hp s hs
    obtain ⟨f, hf⟩ := exists_form_of_assembleProgram h (hpart p hp) hs
    obtain ⟨l, hl, rfl⟩ := mem_linesFrom number hp hs
    rw [hf, (Form.size_eq_zero_iff f).1 ((hsize hf).symm.trans (hzero l hl))]
  · intro hlabels l hl
    obtain ⟨p, hp, hs⟩ := exists_procedure_of_mem_linesFrom hl
    exact (hsize (hlabels p hp _ hs)).trans rfl

/-! ## Names -/

/-- The procedure is the first one with a name. -/
structure FirstNamed (procedures : List Procedure) (name : String) (number : Nat) : Prop where
  named : ∃ p, procedures[number]? = some p ∧ p.name.text = name
  before : ∀ k p, k < number → procedures[k]? = some p → p.name.text ≠ name

theorem FirstNamed.unique {name : String} {number number' : Nat}
    (h : FirstNamed procedures name number) (h' : FirstNamed procedures name number') :
    number = number' := by
  obtain ⟨p, hp, hname⟩ := h.named
  obtain ⟨p', hp', hname'⟩ := h'.named
  rcases Nat.lt_trichotomy number number' with hlt | heq | hlt
  · exact absurd hname (h'.before number p hlt hp)
  · exact heq
  · exact absurd hname' (h.before number' p' hlt hp')

/-- Where a procedure has a name, there is a first one with it. -/
theorem exists_firstNamed {number : Nat} {p : Procedure} (hp : procedures[number]? = some p) :
    ∃ first ≤ number, FirstNamed procedures p.name.text first := by
  induction number using Nat.strongRecOn generalizing p with
  | ind number ih =>
      by_cases hbefore : ∃ k q, k < number ∧ procedures[k]? = some q ∧ q.name.text = p.name.text
      · obtain ⟨k, q, hk, hq, hname⟩ := hbefore
        obtain ⟨first, hle, hfirst⟩ := ih k hk hq
        rw [hname] at hfirst
        exact ⟨first, Nat.le_trans hle (Nat.le_of_lt hk), hfirst⟩
      · exact ⟨number, Nat.le_refl _, ⟨p, hp, rfl⟩, fun k q hk hq hname =>
          hbefore ⟨k, q, hk, hq, hname⟩⟩

/-- The first procedure with a name is the one that the name selects. -/
theorem entry?_of_firstNamed (h : assembleProgram procedures = .ok image) {name : String}
    {number : Nat} (hfirst : FirstNamed procedures name number) :
    image.entry? name = some (UInt64.ofNat (linesSize (linesOf (procedures.take number)))) := by
  obtain ⟨p, hp, rfl⟩ := hfirst.named
  obtain ⟨hlt, rfl⟩ := List.getElem?_eq_some_iff.1 hp
  have hfind : image.procedures.find? (·.name == procedures[number].name.text) =
      some ⟨procedures[number].name.text,
        UInt64.ofNat (linesSize (linesOf (procedures.take number)))⟩ := by
    simp only [procedures_of_assembleProgram h, List.find?_eq_some_iff_getElem, addressOf_firstLine,
      List.getElem_mapIdx, List.length_mapIdx]
    refine ⟨beq_self_eq_true _, number, hlt, rfl, fun k hk => ?_⟩
    have hother := hfirst.before k _ hk (List.getElem?_eq_getElem (Nat.lt_trans hk hlt))
    simpa using hother
  rw [Image.entry?, hfind, Option.map_some]

/-- **A name selects the first procedure that has it.** In the image of a program, the name of every
procedure is an entry: the address at which the first procedure with that name is laid out. This is
the procedure's own address when no procedure before it has its name; and when one has, exactly if
the procedures from the first of that name up to it only define labels. -/
theorem entry?_is_first_of_name (h : assembleProgram procedures = .ok image) {number : Nat}
    {p : Procedure} (hp : procedures[number]? = some p) :
    ∃ first address own, FirstNamed procedures p.name.text first ∧ first ≤ number ∧
      LaidOut procedures image.code first address ∧ LaidOut procedures image.code number own ∧
      image.entry? p.name.text = some (UInt64.ofNat address) ∧
      image.startOf? (some p.name.text) = some (UInt64.ofNat address) ∧
      (FirstNamed procedures p.name.text number → address = own) ∧
      (address = own ↔
        ∀ q ∈ (procedures.take number).drop first, ∀ s ∈ q.body, s.form? = some .label) := by
  obtain ⟨first, hle, hfirst⟩ := exists_firstNamed hp
  obtain ⟨q, hq, -⟩ := hfirst.named
  have hentry := entry?_of_firstNamed h hfirst
  refine ⟨first, _, _, hfirst, hle, laidOut_of_assembleProgram h hq,
    laidOut_of_assembleProgram h hp, hentry, hentry, fun hown => by rw [hfirst.unique hown], ?_⟩
  have hpart : ∀ q ∈ (procedures.take number).drop first, q ∈ procedures := fun q hq =>
    List.mem_of_mem_take (List.mem_of_mem_drop hq)
  have hnumber := (List.getElem?_eq_some_iff.1 hp).1
  have hcut := linesOf_cut (procedures.take number) first
  rw [List.take_take, Nat.min_eq_left hle, List.length_take_of_le (by omega)] at hcut
  rw [← linesSize_linesFrom_eq_zero_iff h first hpart, hcut, linesSize_append]
  omega

end Programs

/-- The countdown behind a procedure that has the name of its second one. -/
def twins : List Procedure :=
  countdown.drop 1 ++ countdown

def twinsImage : Image where
  version := Image.currentVersion
  code := 44 :: countdownImage.code
  procedures := [⟨"stop", 0⟩, ⟨"main", 1⟩, ⟨"stop", 22⟩]

/-- A name selects another procedure than the last one that has it, at another address. -/
theorem entry?_of_twins : ¬ ∀ procedures image number p address,
    assembleProgram procedures = .ok image → procedures[number]? = some p →
      LaidOut procedures image.code number address →
        image.entry? p.name.text = some (UInt64.ofNat address) := by
  intro hall
  have himage : assembleProgram twins = .ok twinsImage := rfl
  have hlast : twins[2]? = countdown[1]? := rfl
  have hlaid : LaidOut twins twinsImage.code 2 22 := laidOut_of_assembleProgram himage hlast
  have hentry : twinsImage.entry? "stop" = some 22 :=
    hall twins twinsImage 2 _ 22 himage hlast hlaid
  exact absurd hentry (by decide)

/-- The last procedure of the twins has its name from the first one, and is not entered by it: there
is a countdown between them. -/
theorem entry?_of_twinsImage :
    assembleProgram twins = .ok twinsImage ∧ twins[2]? = countdown[1]? ∧
      ∃ address own, twinsImage.entry? "stop" = some (UInt64.ofNat address) ∧
        LaidOut twins twinsImage.code 0 address ∧ LaidOut twins twinsImage.code 2 own ∧
        address ≠ own := by
  have himage : assembleProgram twins = .ok twinsImage := rfl
  have hstop : twins[2]? = countdown[1]? := rfl
  have hzero : FirstNamed twins "stop" 0 :=
    ⟨⟨_, rfl, rfl⟩, fun k _ hk => absurd hk (Nat.not_lt_zero k)⟩
  obtain ⟨first, address, own, hfirst, -, hlaid, hown, hentry, -, -, hlabels⟩ :=
    entry?_is_first_of_name himage hstop
  obtain rfl := hfirst.unique hzero
  refine ⟨himage, hstop, address, own, hentry, hlaid, hown, fun heq => ?_⟩
  exact absurd (hlabels.1 heq) (by decide)

end RegisterMachine
