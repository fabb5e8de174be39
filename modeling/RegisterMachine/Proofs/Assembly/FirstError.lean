import RegisterMachine.Proofs.Assembly.WellFormed

/-!
# RegisterMachine.Proofs.Assembly.FirstError

Why a parsed program has no image.

* `FirstError` -- the error of the first element of a list that has one;
* `Redefines` -- the first label of a body that is defined already;
* `ConstantFault` and `Statement.Fault` -- what is wrong with a constant, and with a statement,
  given the labels of its procedure;
* `assembleProgram_eq_error_iff` -- the error of a program is the first redefinition of a label, in
  whichever procedure it is; without one, it is that of the first faulty statement.
-/

namespace RegisterMachine

/-! ## First errors -/

section FirstError

variable {α ε : Type} {error : α → ε → Prop}

/-- The error of the first element that has one. -/
def FirstError (error : α → ε → Prop) (xs : List α) (e : ε) : Prop :=
  ∃ before x behind, xs = before ++ x :: behind ∧ (∀ y ∈ before, ∀ e, ¬ error y e) ∧ error x e

theorem not_firstError_nil (e : ε) : ¬ FirstError error [] e := by
  rintro ⟨before, x, behind, heq, -⟩
  simp at heq

theorem firstError_cons_iff {x : α} {xs : List α} {e : ε} :
    FirstError error (x :: xs) e ↔ error x e ∨ (∀ e, ¬ error x e) ∧ FirstError error xs e := by
  constructor
  · rintro ⟨before, y, behind, heq, hbefore, hy⟩
    cases before with
    | nil =>
        cases heq
        exact .inl hy
    | cons z before =>
        cases heq
        obtain ⟨hfirst, hbefore⟩ := List.forall_mem_cons.1 hbefore
        exact .inr ⟨hfirst, before, y, behind, rfl, hbefore, hy⟩
  · rintro (hx | ⟨hx, before, y, behind, rfl, hbefore, hy⟩)
    · exact ⟨[], x, xs, rfl, by simp, hx⟩
    · exact ⟨x :: before, y, behind, rfl, List.forall_mem_cons.2 ⟨hx, hbefore⟩, hy⟩

end FirstError

/-! ## What can be wrong -/

/-- The label that a statement may go to. -/
def Statement.jumpTarget? (s : Statement) : Option Token :=
  match s.head.kind with
  | .operation .jump => s.target
  | .operation (.branch _ _) => s.target
  | _ => none

/-- The type and the constant of a load. -/
def Statement.load? (s : Statement) : Option (IntType × Token) :=
  match s.head.kind with
  | .operation (.load type) => s.source.map (type, ·)
  | _ => none

/-- Either of the two types of a width holds a number. -/
def Width.InRange (w : Width) (v : Int) : Prop :=
  -2 ^ (w.bits - 1) ≤ v ∧ v ≤ 2 ^ w.bits - 1

/-- What is wrong with a constant that is loaded at a type. -/
inductive ConstantFault (type : IntType) (t : Token) : AssemblyError → Prop
  | outOfRange {v : Int} (hkind : t.kind = .integer) (hv : IntegerLiteral t.text.toList v)
      (hrange : ¬ type.width.InRange v) (hlimit : v.natAbs ≤ integerLimit) :
      ConstantFault type t ⟨.outOfRange t.text type, t.position⟩
  /-- A number beyond the limit of literals is not said to be out of range. -/
  | beyondLimit {v : Int} (hkind : t.kind = .integer) (hv : IntegerLiteral t.text.toList v)
      (hlimit : integerLimit < v.natAbs) : ConstantFault type t ⟨.malformed t.text, t.position⟩
  | floatWidth (hkind : t.kind = .float)
      (hwidth : ¬ (type.width.bits = 32 ∨ type.width.bits = 64)) :
      ConstantFault type t ⟨.floatWidth t.text type, t.position⟩

/-- What is wrong with a statement of a procedure that defines some labels. -/
inductive Statement.Fault (procedure : String) (names : List String) (s : Statement) :
    AssemblyError → Prop
  | undefinedLabel {t : Token} (ht : s.jumpTarget? = some t) (hundefined : t.text ∉ names) :
      Fault procedure names s ⟨.undefinedLabel t.text procedure, t.position⟩
  | constant {type : IntType} {t : Token} {e : AssemblyError} (ht : s.load? = some (type, t))
      (hfault : ConstantFault type t e) : Fault procedure names s e

/-- The first label of a body that is defined already, by the body or before it. -/
def Redefines (procedure : String) (names : List String) (body : List Statement)
    (e : AssemblyError) :
    Prop :=
  ∃ before s behind, body = before ++ s :: behind ∧ (names ++ definedLabels before).Nodup ∧
    s.form? = some .label ∧ s.head.text ∈ names ++ definedLabels before ∧
    e = ⟨.duplicateLabel s.head.text procedure, s.head.position⟩

/-- A redefined label is nothing else. -/
theorem Redefines.exists_problem {procedure : String} {names : List String} {body : List Statement}
    {e : AssemblyError} (h : Redefines procedure names body e) :
    ∃ label, e.problem = .duplicateLabel label procedure := by
  obtain ⟨before, s, behind, -, -, -, -, rfl⟩ := h
  exact ⟨s.head.text, rfl⟩

/-- The operand of a faulty statement is malformed only beyond the limit of literals, and its
head is an operation. -/
theorem Statement.Fault.beyondLimit_of_malformed {procedure : String} {names : List String}
    {s : Statement} {e : AssemblyError} (h : s.Fault procedure names e) :
    (∀ text, e.problem ≠ .unsupported text) ∧
      ∀ text, e.problem = .malformed text →
        ∃ v, IntegerLiteral text.toList v ∧ integerLimit < v.natAbs := by
  cases h with
  | undefinedLabel => exact ⟨nofun, nofun⟩
  | constant ht hfault =>
      cases hfault with
      | beyondLimit hkind hv hlimit =>
          refine ⟨nofun, fun text heq => ?_⟩
          obtain rfl := AssemblyProblem.malformed.inj heq
          exact ⟨_, hv, hlimit⟩
      | _ => exact ⟨nofun, nofun⟩

/-! ## Constants -/

section Constants

variable {type : IntType} {t : Token} {e : AssemblyError}

theorem constantBits_integer_eq_error_iff {v : Int} (hkind : t.kind = .integer)
    (hv : IntegerLiteral t.text.toList v) :
    constantBits type t = .error e ↔
      (¬ type.width.InRange v ∧ v.natAbs ≤ integerLimit ∧
        ⟨.outOfRange t.text type, t.position⟩ = e) ∨
        (integerLimit < v.natAbs ∧ malformed t = e) := by
  rw [Width.InRange, ← holds_iff, constantBits, hkind, hv.integerValue?_eq]
  by_cases hlimit : v.natAbs ≤ integerLimit
  · by_cases hholds : type.width.holds v
    · simp [hlimit, hholds]
    · simp [hlimit, hholds]
  · simp [hlimit, Nat.not_le.1 hlimit]

theorem constantBits_float_eq_error_iff (hkind : t.kind = .float)
    (hbits : (realBits? t.text.toList).isSome) :
    constantBits type t = .error e ↔
      ¬ (type.width.bits = 32 ∨ type.width.bits = 64) ∧
      ⟨.floatWidth t.text type, t.position⟩ = e := by
  obtain ⟨real, hreal⟩ := Option.isSome_iff_exists.1 hbits
  obtain ⟨signed, width⟩ := type
  cases width <;> simp [constantBits, hkind, hreal, Width.floatBits?, Width.bits, Width.bytes]

/-- A well-spelt constant has no bits because of what is wrong with it. -/
theorem constantBits_eq_error_iff (hkind : t.kind = .integer ∨ t.kind = .float) (ht : t.WellSpelt) :
    constantBits type t = .error e ↔ ConstantFault type t e := by
  rcases hkind with hkind | hkind
  · obtain ⟨v, hv, hunique⟩ := ht.exists_unique_integer hkind
    rw [constantBits_integer_eq_error_iff hkind hv]
    constructor
    · rintro (⟨hrange, hlimit, rfl⟩ | ⟨hlimit, rfl⟩)
      · exact .outOfRange hkind hv hrange hlimit
      · exact .beyondLimit hkind hv hlimit
    · intro h
      cases h with
      | outOfRange _ hv' hrange hlimit =>
          obtain rfl := hunique _ hv'
          exact .inl ⟨hrange, hlimit, rfl⟩
      | beyondLimit _ hv' hlimit =>
          obtain rfl := hunique _ hv'
          exact .inr ⟨hlimit, rfl⟩
      | floatWidth hfloat => simp [hkind] at hfloat
  · rw [constantBits_float_eq_error_iff hkind (ht.isSome_realBits? hkind)]
    constructor
    · rintro ⟨hwidth, rfl⟩
      exact .floatWidth hkind hwidth
    · intro h
      cases h with
      | outOfRange hinteger => simp [hkind] at hinteger
      | beyondLimit hinteger => simp [hkind] at hinteger
      | floatWidth _ hwidth => exact ⟨hwidth, rfl⟩

end Constants

/-! ## Statements -/

section Statements

variable {s : Statement} {labels : Labels} {names : List String} {procedure : String}
    {address : Nat}
  {e : AssemblyError}

theorem instructions_load_eq_error_iff {type : IntType} {t : Token}
    (hhead : s.head.kind = .operation (.load type)) (hdestination : s.HasRegister .destination)
    (ht : s.operand .source = some t) :
    s.instructions procedure labels address = .error e ↔ constantBits type t = .error e := by
  obtain ⟨r, hr⟩ := exists_registerOperand hdestination
  simp only [Statement.instructions, Statement.form?, hhead, TokenKind.form?, hr,
    require_eq_ok_of_operand ht, ok_bind]
  exact bind_pure_eq_error_iff

theorem targetAddress_eq_error_iff {t : Token} (ht : s.operand .target = some t)
    (hlabels : ∀ label, (labels.lookup label).isSome ↔ label ∈ names) :
    s.targetAddress procedure labels = .error e ↔
      t.text ∉ names ∧ ⟨.undefinedLabel t.text procedure, t.position⟩ = e := by
  rw [← hlabels, Statement.targetAddress, require_eq_ok_of_operand ht, ok_bind]
  cases labels.lookup t.text with
  | none => simp [throw, throwThe, MonadExceptOf.throw]
  | some target => simp [pure, Except.pure]

theorem instructions_branch_eq_error_iff {condition : Condition} {type : IntType}
    (hhead : s.head.kind = .operation (.branch condition type)) (hleft : s.HasRegister .destination)
    (hright : s.HasRegister .source) :
    s.instructions procedure labels address = .error e ↔
      s.targetAddress procedure labels = .error e := by
  obtain ⟨comparison, hcomparison⟩ := exists_comparison type hleft hright
  simp only [Statement.instructions, Statement.form?, hhead, TokenKind.form?, hcomparison, ok_bind]
  exact bind_pure_eq_error_iff

theorem instructions_jump_eq_error_iff (hhead : s.head.kind = .operation .jump) :
    s.instructions procedure labels address = .error e ↔
      s.targetAddress procedure labels = .error e := by
  simp only [Statement.instructions, Statement.form?, hhead, TokenKind.form?]
  exact bind_pure_eq_error_iff

/-- What is wrong with a load is wrong with its constant. -/
theorem fault_load_iff {type : IntType} {t : Token} (hload : s.load? = some (type, t))
    (hjump : s.jumpTarget? = none) : s.Fault procedure names e ↔ ConstantFault type t e := by
  constructor
  · intro h
    cases h with
    | undefinedLabel ht => simp [hjump] at ht
    | constant ht hfault =>
        cases hload.symm.trans ht
        exact hfault
  · exact .constant hload

/-- What is wrong with a jump is that its label is not defined. -/
theorem fault_jump_iff {t : Token} (hjump : s.jumpTarget? = some t) (hload : s.load? = none) :
    s.Fault procedure names e ↔
      t.text ∉ names ∧ ⟨.undefinedLabel t.text procedure, t.position⟩ = e := by
  constructor
  · intro h
    cases h with
    | undefinedLabel ht hundefined =>
        cases hjump.symm.trans ht
        exact ⟨hundefined, rfl⟩
    | constant ht => simp [hload] at ht
  · rintro ⟨hundefined, rfl⟩
    exact .undefinedLabel hjump hundefined

/-- Nothing is wrong with a statement that neither loads nor jumps. -/
theorem not_fault (hjump : s.jumpTarget? = none) (hload : s.load? = none) :
    ¬ s.Fault procedure names e := by
  intro h
  cases h with
  | undefinedLabel ht => simp [hjump] at ht
  | constant ht => simp [hload] at ht

/-- A parsed statement has no instructions because of what is wrong with it, wherever it stands. -/
theorem instructions_eq_error_iff {t : StatementTree} (h : t.Valid)
    (hlexemes : ∀ x ∈ t.tokens, x.WellSpelt)
    (hlabels : ∀ label, (labels.lookup label).isSome ↔ label ∈ names) (address : Nat)
    (e : AssemblyError) :
    t.statement.instructions procedure labels address = .error e ↔
      t.statement.Fault procedure names e := by
  cases h with
  | @load type head destination source hhead hdestination hsource =>
      have hlexeme := hlexemes source (by simp [StatementTree.tokens])
      have hload : Statement.load? ⟨head, some destination, some source, none⟩ =
          some (type, source) := by
        rw [Statement.load?, hhead]
        rfl
      rw [instructions_load_eq_error_iff hhead ⟨destination, rfl, hdestination⟩ rfl,
        constantBits_eq_error_iff hsource hlexeme]
      exact (fault_load_iff hload (by rw [Statement.jumpTarget?, hhead])).symm
  | arithmetic hhead hdestination hsource =>
      exact iff_of_false
        (exists_eq_ok_iff.1 (exists_instructions_arithmetic procedure address hhead
          ⟨_, rfl, hdestination⟩ ⟨_, rfl, hsource⟩) e)
        (not_fault (by rw [Statement.jumpTarget?, hhead]) (by rw [Statement.load?, hhead]))
  | compare hhead hleft hright =>
      exact iff_of_false
        (exists_eq_ok_iff.1 (exists_instructions_compare procedure address hhead
          ⟨_, rfl, hleft⟩ ⟨_, rfl, hright⟩) e)
        (not_fault (by rw [Statement.jumpTarget?, hhead]) (by rw [Statement.load?, hhead]))
  | branch hhead hleft hright htarget =>
      rw [instructions_branch_eq_error_iff hhead ⟨_, rfl, hleft⟩ ⟨_, rfl, hright⟩,
        targetAddress_eq_error_iff rfl hlabels]
      exact (fault_jump_iff (by rw [Statement.jumpTarget?, hhead])
        (by rw [Statement.load?, hhead])).symm
  | jump hhead htarget =>
      rw [instructions_jump_eq_error_iff hhead, targetAddress_eq_error_iff rfl hlabels]
      exact (fault_jump_iff (by rw [Statement.jumpTarget?, hhead])
        (by rw [Statement.load?, hhead])).symm
  | label hhead hcolon =>
      refine iff_of_false ?_ (not_fault (by rw [Statement.jumpTarget?, hhead])
        (by rw [Statement.load?, hhead]))
      simp [Statement.instructions, Statement.form?, hhead, TokenKind.form?]
  | halt hhead =>
      refine iff_of_false ?_ (not_fault (by rw [Statement.jumpTarget?, hhead])
        (by rw [Statement.load?, hhead]))
      simp [Statement.instructions, Statement.form?, hhead, TokenKind.form?]

end Statements

/-! ## Bodies -/

section Bodies

variable {procedure : String} {labels : Labels} {names : List String} {body : List Statement}

/-- A body fails with its first faulty statement. -/
theorem assembleBody_eq_error_iff (hbody : ∀ s ∈ body, s.Parsed)
    (hlabels : ∀ label, (labels.lookup label).isSome ↔ label ∈ names) (address : Nat)
    (e : AssemblyError) :
    assembleBody procedure labels address body = .error e ↔
      FirstError (fun s e => s.Fault procedure names e) body e := by
  induction body generalizing address with
  | nil => exact iff_of_false nofun (not_firstError_nil e)
  | cons s body ih =>
      obtain ⟨⟨t, ht, rfl, hlexemes⟩, hrest⟩ := List.forall_mem_cons.1 hbody
      rw [assembleBody, firstError_cons_iff]
      exact bind_eq_error_iff (instructions_eq_error_iff ht hlexemes hlabels address) fun first _ =>
        bind_pure_eq_error_iff.trans (ih hrest _)

/-- A body that begins with a label that is defined already. -/
theorem redefines_cons_of_mem {s : Statement} (hform : s.form? = some .label)
    (hmem : s.head.text ∈ names) (hnames : names.Nodup) {e : AssemblyError} :
    Redefines procedure names (s :: body) e ↔
      ⟨.duplicateLabel s.head.text procedure, s.head.position⟩ = e := by
  constructor
  · rintro ⟨before, x, behind, heq, hnodup, -, -, rfl⟩
    cases before with
    | nil =>
        cases heq
        rfl
    | cons y before =>
        cases heq
        rw [definedLabels_cons_of_label hform] at hnodup
        exact absurd rfl ((List.nodup_append.1 hnodup).2.2 _ hmem _ List.mem_cons_self)
  · rintro rfl
    exact ⟨[], s, body, rfl, by simpa [definedLabels] using hnames, hform, by simp [hmem], rfl⟩

/-- A body that begins with a label that is not defined yet. -/
theorem redefines_cons_of_not_mem {s : Statement} (hform : s.form? = some .label)
    (hnew : s.head.text ∉ names) {e : AssemblyError} :
    Redefines procedure names (s :: body) e ↔
      Redefines procedure (names ++ [s.head.text]) body e := by
  have hlabels (before : List Statement) : names ++ definedLabels (s :: before) =
      names ++ [s.head.text] ++ definedLabels before := by
    rw [definedLabels_cons_of_label hform, List.append_cons]
  constructor
  · rintro ⟨before, x, behind, heq, hnodup, hx, hmem, rfl⟩
    cases before with
    | nil =>
        cases heq
        simp [definedLabels, hnew] at hmem
    | cons y before =>
        cases heq
        rw [hlabels] at hnodup hmem
        exact ⟨before, x, behind, rfl, hnodup, hx, hmem, rfl⟩
  · rintro ⟨before, x, behind, rfl, hnodup, hx, hmem, rfl⟩
    rw [← hlabels] at hnodup hmem
    exact ⟨s :: before, x, behind, rfl, hnodup, hx, hmem, rfl⟩

/-- A body that begins with a statement that defines no label. -/
theorem redefines_cons_of_ne {s : Statement} (hform : s.form? ≠ some .label) {e : AssemblyError} :
    Redefines procedure names (s :: body) e ↔ Redefines procedure names body e := by
  constructor
  · rintro ⟨before, x, behind, heq, hnodup, hx, hmem, rfl⟩
    cases before with
    | nil =>
        cases heq
        exact absurd hx hform
    | cons y before =>
        cases heq
        rw [definedLabels_cons_of_ne hform] at hnodup hmem
        exact ⟨before, x, behind, rfl, hnodup, hx, hmem, rfl⟩
  · rintro ⟨before, x, behind, rfl, hnodup, hx, hmem, rfl⟩
    rw [← definedLabels_cons_of_ne hform] at hnodup hmem
    exact ⟨s :: before, x, behind, rfl, hnodup, hx, hmem, rfl⟩

/-- A body has no layout because of the first label that it redefines. -/
theorem layoutBody_eq_error_iff (hbody : ∀ s ∈ body, s.Parsed) (hnames : names.Nodup)
    (hlabels : ∀ label, (labels.lookup label).isSome ↔ label ∈ names) (address : Nat)
    (e : AssemblyError) :
    layoutBody procedure address labels body = .error e ↔ Redefines procedure names body e := by
  -- along the body `names` are the labels so far, in order, and no two of them are the same
  induction body generalizing names labels address with
  | nil =>
      refine iff_of_false nofun ?_
      rintro ⟨before, x, behind, heq, -⟩
      simp at heq
  | cons s body ih =>
      obtain ⟨hs, hbody⟩ := List.forall_mem_cons.1 hbody
      obtain ⟨form, hform⟩ := hs.exists_form
      rw [layoutBody, hform, Statement.defineLabel]
      by_cases hlabel : s.form? = some .label
      · rw [if_pos hlabel]
        by_cases hmem : s.head.text ∈ names
        · rw [redefines_cons_of_mem hlabel hmem hnames, if_pos ((hlabels _).2 hmem)]
          exact ⟨Except.error.inj, congrArg Except.error⟩
        · rw [redefines_cons_of_not_mem hlabel hmem, if_neg (mt (hlabels _).1 hmem)]
          refine ih hbody ?_ (fun label => ?_) _
          · have hother : ∀ name ∈ names, name ≠ s.head.text :=
              fun name hname heq => hmem (heq ▸ hname)
            exact List.nodup_append.2 ⟨hnames, by simp, by simpa using hother⟩
          · by_cases heq : label = s.head.text
            · simp [heq]
            · simp [heq, List.lookup_cons, beq_false_of_ne heq, hlabels]
      · rw [if_neg hlabel, redefines_cons_of_ne hlabel]
        exact ih hbody hnames hlabels _

end Bodies

/-! ## Programs -/

section Programs

variable {procedures : List Procedure}

theorem layout_eq_error_iff (hparsed : ∀ p ∈ procedures, ∀ s ∈ p.body, s.Parsed) (address : Nat)
    (e : AssemblyError) :
    layout address procedures = .error e ↔
      FirstError (fun p e => Redefines p.name.text [] p.body e) procedures e := by
  induction procedures generalizing address with
  | nil => exact iff_of_false nofun (not_firstError_nil e)
  | cons p procedures ih =>
      obtain ⟨hp, hlater⟩ := List.forall_mem_cons.1 hparsed
      rw [layout, firstError_cons_iff]
      exact bind_eq_error_iff (layoutBody_eq_error_iff hp .nil (by simp) address) fun result _ =>
        bind_pure_eq_error_iff.trans (ih hlater result.2)

theorem assembleProcedures_eq_error_iff (hparsed : ∀ p ∈ procedures, ∀ s ∈ p.body, s.Parsed)
    {address : Nat} {layouts : List ProcedureLayout} (h : layout address procedures = .ok layouts)
    (start : Nat) (e : AssemblyError) :
    assembleProcedures start (procedures.zip layouts) = .error e ↔
      FirstError (fun p => FirstError (fun s => s.Fault p.name.text (definedLabels p.body)) p.body)
        procedures e := by
  induction procedures generalizing address layouts start with
  | nil => exact iff_of_false nofun (not_firstError_nil e)
  | cons p procedures ih =>
      obtain ⟨hp, hlater⟩ := List.forall_mem_cons.1 hparsed
      obtain ⟨⟨labels, stop⟩, hbody, h⟩ := eq_ok_of_bind_eq_ok h
      obtain ⟨later, hlayout, h⟩ := eq_ok_of_bind_eq_ok h
      cases h
      have hlabels (label : String) : (labels.lookup label).isSome ↔
          label ∈ definedLabels p.body := by
        rw [isSome_lookup_of_layoutBody hbody label]
        simp
      rw [List.zip_cons_cons, assembleProcedures, firstError_cons_iff]
      exact bind_eq_error_iff (assembleBody_eq_error_iff hp hlabels start) fun first _ =>
        bind_pure_eq_error_iff.trans (ih hlater hlayout _)

/-- A parsed program has no image because of the first redefinition of a label; without one, because
of the first faulty statement. -/
theorem assembleProgram_eq_error_iff (hparsed : ∀ p ∈ procedures, ∀ s ∈ p.body, s.Parsed)
    (e : AssemblyError) :
    assembleProgram procedures = .error e ↔
      FirstError (fun p => Redefines p.name.text [] p.body) procedures e ∨
        (∀ p ∈ procedures, (definedLabels p.body).Nodup) ∧
          FirstError (fun p =>
            FirstError (fun s => s.Fault p.name.text (definedLabels p.body)) p.body)
            procedures e := by
  have hparts : assembleProgram procedures = .error e ↔
      FirstError (fun p => Redefines p.name.text [] p.body) procedures e ∨
        (∀ e, ¬ FirstError (fun p => Redefines p.name.text [] p.body) procedures e) ∧
          FirstError (fun p =>
            FirstError (fun s => s.Fault p.name.text (definedLabels p.body)) p.body)
            procedures e :=
    bind_eq_error_iff (layout_eq_error_iff hparsed 0) fun layouts hlayout =>
      bind_pure_eq_error_iff.trans (assembleProcedures_eq_error_iff hparsed hlayout 0 e)
  rw [hparts, ← exists_layout_iff hparsed 0, exists_eq_ok_iff]
  simp only [ne_eq, layout_eq_error_iff hparsed]

end Programs

end RegisterMachine
