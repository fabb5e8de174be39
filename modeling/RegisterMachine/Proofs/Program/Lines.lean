import RegisterMachine.Assembly.Layout

/-!
# RegisterMachine.Proofs.Program.Lines

A program as one list of lines: the statements of all procedures in order, each with the number of
its procedure.

* `addressOf lines k` is the number of bytes that the lines before line `k` take;
* `labelLine? lines n label` is the line that defines a label in procedure `n`;
* `firstLine procedures n` is the line at which procedure `n` begins.

A label of another procedure does not count (`labelLine?_append`), so a procedure can be looked at
between the lines before it and the lines behind it.
-/

namespace RegisterMachine

/-- A statement with the number of the procedure that it stands in. -/
structure Line where
  procedure : Nat
  statement : Statement
deriving DecidableEq, Repr

/-- The lines of procedures, the first of which has a number. -/
def linesFrom : (number : Nat) → List Procedure → List Line
  | _, [] => []
  | n, p :: procedures => p.body.map (Line.mk n) ++ linesFrom (n + 1) procedures

/-- The lines of a program. -/
def linesOf (procedures : List Procedure) : List Line :=
  linesFrom 0 procedures

/-- The line at which a procedure begins. -/
def firstLine (procedures : List Procedure) (number : Nat) : Nat :=
  (linesOf (procedures.take number)).length

/-! ## Addresses -/

/-- The bytes that a line takes. -/
def Line.size (l : Line) : Nat :=
  (l.statement.form?.map Form.size).getD 0

/-- The bytes that lines take. -/
def linesSize : List Line → Nat
  | [] => 0
  | l :: lines => l.size + linesSize lines

/-- The address of a line: the bytes of the lines before it. -/
def addressOf (lines : List Line) (k : Nat) : Nat :=
  linesSize (lines.take k)

theorem linesSize_append (xs ys : List Line) :
    linesSize (xs ++ ys) = linesSize xs + linesSize ys := by
  induction xs with
  | nil => simp [linesSize]
  | cons x xs ih => simp [linesSize, ih, Nat.add_assoc]

theorem addressOf_succ {lines : List Line} {k : Nat} {l : Line} (h : lines[k]? = some l) :
    addressOf lines (k + 1) = addressOf lines k + l.size := by
  rw [addressOf, List.take_add_one, h, linesSize_append]
  rfl

theorem addressOf_cons_succ (l : Line) (lines : List Line) (k : Nat) :
    addressOf (l :: lines) (k + 1) = l.size + addressOf lines k := by
  rw [addressOf, List.take_succ_cons, linesSize, addressOf]

theorem addressOf_length (lines : List Line) : addressOf lines lines.length = linesSize lines := by
  rw [addressOf, List.take_length]

theorem addressOf_append_left (xs ys : List Line) {k : Nat} (h : k ≤ xs.length) :
    addressOf (xs ++ ys) k = addressOf xs k := by
  rw [addressOf, List.take_append_of_le_length h, addressOf]

theorem addressOf_append_right (xs ys : List Line) (k : Nat) :
    addressOf (xs ++ ys) (xs.length + k) = linesSize xs + addressOf ys k := by
  rw [addressOf, List.take_length_add_append, linesSize_append, addressOf]

theorem addressOf_le (lines : List Line) (k : Nat) : addressOf lines k ≤ linesSize lines := by
  have h := linesSize_append (lines.take k) (lines.drop k)
  rw [List.take_append_drop] at h
  rw [addressOf]
  omega

/-! ## Labels -/

/-- The line defines a label in a procedure. -/
def Line.Defines (number : Nat) (label : String) (l : Line) : Prop :=
  l.procedure = number ∧ l.statement.form? = some .label ∧ l.statement.head.text = label

instance (number : Nat) (label : String) (l : Line) : Decidable (l.Defines number label) :=
  inferInstanceAs (Decidable (_ ∧ _ ∧ _))

/-- The line that defines a label in a procedure, the first one if there are several. -/
def labelLine? (lines : List Line) (number : Nat) (label : String) : Option Nat :=
  lines.findIdx? fun l => decide (l.Defines number label)

theorem labelLine?_cons (l : Line) (lines : List Line) (number : Nat) (label : String) :
    labelLine? (l :: lines) number label =
      if l.Defines number label then some 0 else (labelLine? lines number label).map (· + 1) := by
  rw [labelLine?, List.findIdx?_cons]
  by_cases h : l.Defines number label
  · simp [h]
  · simp [h, labelLine?]

theorem labelLine?_append (xs ys : List Line) (number : Nat) (label : String) :
    labelLine? (xs ++ ys) number label =
      (labelLine? xs number label).or ((labelLine? ys number label).map (xs.length + ·)) := by
  rw [labelLine?, List.findIdx?_append, labelLine?, labelLine?]
  congr 2
  funext k
  exact Nat.add_comm _ _

/-- Lines of other procedures define no label of a procedure. -/
theorem labelLine?_of_ne {lines : List Line} {number : Nat}
    (h : ∀ l ∈ lines, l.procedure ≠ number) (label : String) :
    labelLine? lines number label = none :=
  List.findIdx?_eq_none_iff.2 fun l hl => decide_eq_false fun hd => h l hl hd.1

theorem lt_length_of_labelLine? {lines : List Line} {number k : Nat} {label : String}
    (h : labelLine? lines number label = some k) : k < lines.length :=
  (List.findIdx?_eq_some_iff_findIdx_eq.1 h).1

/-! ## Procedures in a program -/

theorem le_procedure_of_mem_linesFrom {number : Nat} {procedures : List Procedure} {l : Line}
    (h : l ∈ linesFrom number procedures) : number ≤ l.procedure := by
  induction procedures generalizing number with
  | nil => simp [linesFrom] at h
  | cons p procedures ih =>
      rw [linesFrom, List.mem_append] at h
      rcases h with h | h
      · obtain ⟨s, -, rfl⟩ := List.mem_map.1 h
        exact Nat.le_refl _
      · have := ih h
        omega

theorem exists_procedure_of_mem_linesFrom {number : Nat} {procedures : List Procedure} {l : Line}
    (h : l ∈ linesFrom number procedures) : ∃ p ∈ procedures, l.statement ∈ p.body := by
  induction procedures generalizing number with
  | nil => simp [linesFrom] at h
  | cons p procedures ih =>
      rw [linesFrom, List.mem_append] at h
      rcases h with h | h
      · obtain ⟨s, hs, rfl⟩ := List.mem_map.1 h
        exact ⟨p, List.mem_cons_self, hs⟩
      · obtain ⟨q, hq, hl⟩ := ih h
        exact ⟨q, List.mem_cons_of_mem p hq, hl⟩

theorem linesFrom_append (number : Nat) (xs ys : List Procedure) :
    linesFrom number (xs ++ ys) = linesFrom number xs ++ linesFrom (number + xs.length) ys := by
  induction xs generalizing number with
  | nil => rfl
  | cons x xs ih =>
      rw [List.cons_append, linesFrom, linesFrom, ih, List.append_assoc, List.length_cons]
      congr 3
      omega

/-- The lines of a program can be cut in front of a procedure. -/
theorem linesOf_cut (procedures : List Procedure) (number : Nat) :
    linesOf procedures = linesOf (procedures.take number) ++
      linesFrom (procedures.take number).length (procedures.drop number) := by
  have hlines := linesFrom_append 0 (procedures.take number) (procedures.drop number)
  rw [List.take_append_drop, Nat.zero_add] at hlines
  exact hlines

/-- The address of a procedure: the bytes of the procedures before it. -/
theorem addressOf_firstLine (procedures : List Procedure) (number : Nat) :
    addressOf (linesOf procedures) (firstLine procedures number) =
      linesSize (linesOf (procedures.take number)) := by
  rw [firstLine, linesOf_cut procedures number, addressOf_append_left _ _ (Nat.le_refl _),
    addressOf_length]

/-- The labels of a procedure are found among its own lines, wherever it stands. -/
theorem map_addressOf_labelLine?_between {before body after : List Line} {number : Nat}
    (hbefore : ∀ l ∈ before, l.procedure ≠ number) (hafter : ∀ l ∈ after, l.procedure ≠ number)
    (label : String) :
    let lines := before ++ (body ++ after)
    (labelLine? lines number label).map (addressOf lines) =
      (labelLine? body number label).map fun k => linesSize before + addressOf body k := by
  intro lines
  rw [labelLine?_append, labelLine?_of_ne hbefore, Option.none_or, labelLine?_append,
    labelLine?_of_ne hafter, Option.map_none, Option.or_none, Option.map_map]
  cases hk : labelLine? body number label with
  | none => rfl
  | some k =>
      have hlt := lt_length_of_labelLine? hk
      rw [Option.map_some, Option.map_some, Function.comp_apply, addressOf_append_right,
        addressOf_append_left _ _ (Nat.le_of_lt hlt)]

/-- No procedure defines a label twice. -/
def DistinctLabels (lines : List Line) : Prop :=
  lines.Pairwise fun l l' => ∀ number label, l.Defines number label → ¬ l'.Defines number label

end RegisterMachine
