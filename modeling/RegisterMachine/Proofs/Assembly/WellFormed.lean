import RegisterMachine.Assembly
import RegisterMachine.Proofs.Assembly.Layout
import RegisterMachine.Proofs.Literal.Real
import RegisterMachine.Proofs.Program.Grammar
import RegisterMachine.Proofs.Token.Lexeme

/-!
# RegisterMachine.Proofs.Assembly.WellFormed

Which programs have an image.

A parsed program of well-spelt tokens has one exactly if it is well-formed: no procedure defines a
label twice, every jump goes to a label of its procedure, and every constant fits the type that it
is loaded at (`exists_assembleProgram_iff`).
-/

namespace RegisterMachine

/-! ## Well-formed programs -/

/-- The labels that statements define, in order. -/
def definedLabels (body : List Statement) : List String :=
  body.filterMap fun s => if s.form? = some .label then some s.head.text else none

/-- The jump of a statement goes to one of the labels, and its constant fits
the width of its type. -/
structure Statement.WellFormed (labels : List String) (s : Statement) : Prop where
  target : (s.head.kind = .operation .jump ∨ ∃ c type, s.head.kind = .operation (.branch c type)) →
    ∀ t ∈ s.target, t.text ∈ labels
  /-- Either of the two types of the width may hold an integer. -/
  integer : ∀ type, s.head.kind = .operation (.load type) → ∀ t ∈ s.source, t.kind = .integer →
    ∃ v, IntegerLiteral t.text.toList v ∧ -2 ^ (type.width.bits - 1) ≤ v ∧
      v ≤ 2 ^ type.width.bits - 1
  float : ∀ type, s.head.kind = .operation (.load type) → ∀ t ∈ s.source, t.kind = .float →
    type.width.bits = 32 ∨ type.width.bits = 64

/-- No label is defined twice, and every jump goes to a label of the procedure itself. -/
structure Procedure.WellFormed (p : Procedure) : Prop where
  labels : (definedLabels p.body).Nodup
  body : ∀ s ∈ p.body, s.WellFormed (definedLabels p.body)

/-! ## Constants -/

section Constants

variable {type : IntType} {t : Token}

theorem holds_iff {w : Width} {v : Int} :
    w.holds v ↔ -2 ^ (w.bits - 1) ≤ v ∧ v ≤ 2 ^ w.bits - 1 := by
  rw [Width.holds, Bool.and_eq_true, decide_eq_true_eq, decide_eq_true_eq]
  cases w <;> simp only [Width.modulus, Width.bits, Width.bytes] <;> omega

/-- No width holds a number beyond the limit of literals. -/
theorem natAbs_le_of_holds {w : Width} {v : Int} (h : w.holds v) : v.natAbs ≤ integerLimit := by
  have hlimit : integerLimit = 170141183460469231731687303715884105727 := rfl
  rw [Width.holds, Bool.and_eq_true, decide_eq_true_eq, decide_eq_true_eq] at h
  rw [hlimit]
  cases w <;> simp only [Width.modulus] at h <;> omega

/-- An integer is loaded exactly if it is in the range of one of the two types of the width. -/
theorem exists_constantBits_integer_iff {v : Int} (hkind : t.kind = .integer)
    (hv : IntegerLiteral t.text.toList v) :
    (∃ bits, constantBits type t = .ok bits) ↔
      -2 ^ (type.width.bits - 1) ≤ v ∧ v ≤ 2 ^ type.width.bits - 1 := by
  rw [← holds_iff, constantBits, hkind, hv.integerValue?_eq]
  by_cases hlimit : v.natAbs ≤ integerLimit
  · rw [if_pos hlimit]
    by_cases hholds : type.width.holds v
    · simp [hholds]
    · simp [hholds]
  · have hholds : ¬ type.width.holds v := fun h => hlimit (natAbs_le_of_holds h)
    simp [hlimit, hholds]

/-- A float is loaded exactly at the widths that have a binary format. -/
theorem exists_constantBits_float_iff (hkind : t.kind = .float)
    (hbits : (realBits? t.text.toList).isSome) :
    (∃ bits, constantBits type t = .ok bits) ↔ type.width.bits = 32 ∨ type.width.bits = 64 := by
  obtain ⟨real, hreal⟩ := Option.isSome_iff_exists.1 hbits
  obtain ⟨signed, width⟩ := type
  cases width <;> simp [constantBits, hkind, hreal, Width.floatBits?, Width.bits, Width.bytes]

end Constants

/-- The text of an integer stands for exactly one number. -/
theorem Token.WellSpelt.exists_unique_integer {t : Token} (h : t.WellSpelt)
    (hkind : t.kind = .integer) : ∃! v, IntegerLiteral t.text.toList v := by
  obtain ⟨n, hn, hnkind, htext⟩ := h.exists_numeral (by rw [hkind]; rfl)
  rw [← htext]
  exact exists_unique_of_wellSpelt hn (hnkind.trans hkind)

/-- The text of a float stands for exactly one number. -/
theorem Token.WellSpelt.exists_unique_real {t : Token} (h : t.WellSpelt)
    (hkind : t.kind = .float) : ∃! x, RealNumeral t.text.toList x := by
  obtain ⟨n, hn, hnkind, htext⟩ := h.exists_numeral (by rw [hkind]; rfl)
  rw [← htext]
  exact exists_unique_real_of_wellSpelt hn (hnkind.trans hkind)

/-- The text of a float has bits. -/
theorem Token.WellSpelt.isSome_realBits? {t : Token} (h : t.WellSpelt)
    (hkind : t.kind = .float) : (realBits? t.text.toList).isSome := by
  obtain ⟨x, hx, -⟩ := h.exists_unique_real hkind
  rw [hx.realBits?_eq]
  rfl

/-! ## Statements -/

section Statements

variable {s : Statement} {labels : Labels} {names : List String} (procedure : String)
    (address : Nat)

theorem require_eq_ok_of_operand {role : Role} {t : Token} (ht : s.operand role = some t) :
    s.require role = .ok t := by
  rw [Statement.require, ht]

/-- The operand in a role is a register. -/
def Statement.HasRegister (s : Statement) (role : Role) : Prop :=
  ∃ t, s.operand role = some t ∧ ∃ r, t.kind = .register r

theorem exists_registerOperand {role : Role} (h : s.HasRegister role) :
    ∃ r, s.registerOperand role = .ok r := by
  obtain ⟨t, ht, r, hr⟩ := h
  refine ⟨r, ?_⟩
  simp only [Statement.registerOperand, require_eq_ok_of_operand ht, ok_bind, hr]
  rfl

theorem exists_comparison (type : IntType) (hleft : s.HasRegister .destination)
    (hright : s.HasRegister .source) : ∃ comparison, s.comparison type = .ok comparison := by
  obtain ⟨l, hl⟩ := exists_registerOperand hleft
  obtain ⟨r, hr⟩ := exists_registerOperand hright
  exact ⟨.compare type.signed type.width l r, by rw [Statement.comparison, hl, hr]; rfl⟩

/-- A jump has an address exactly if its label is defined. -/
theorem exists_targetAddress_iff {t : Token} (ht : s.operand .target = some t)
    (hlabels : ∀ label, (labels.lookup label).isSome ↔ label ∈ names) :
    (∃ target, s.targetAddress procedure labels = .ok target) ↔ t.text ∈ names := by
  rw [← hlabels, Statement.targetAddress, require_eq_ok_of_operand ht, ok_bind]
  cases labels.lookup t.text with
  | none => simp [throw, throwThe, MonadExceptOf.throw]
  | some target => simp [pure, Except.pure]

theorem exists_instructions_load_iff {type : IntType} {t : Token}
    (hhead : s.head.kind = .operation (.load type)) (hdestination : s.HasRegister .destination)
    (ht : s.operand .source = some t) :
    (∃ instructions, s.instructions procedure labels address = .ok instructions) ↔
      ∃ bits, constantBits type t = .ok bits := by
  obtain ⟨r, hr⟩ := exists_registerOperand hdestination
  simp only [Statement.instructions, Statement.form?, hhead, TokenKind.form?, hr,
    require_eq_ok_of_operand ht, ok_bind]
  exact exists_bind_pure_eq_ok_iff

theorem exists_instructions_branch_iff {condition : Condition} {type : IntType} {t : Token}
    (hhead : s.head.kind = .operation (.branch condition type)) (hleft : s.HasRegister .destination)
    (hright : s.HasRegister .source) (ht : s.operand .target = some t)
    (hlabels : ∀ label, (labels.lookup label).isSome ↔ label ∈ names) :
    (∃ instructions, s.instructions procedure labels address = .ok instructions) ↔
      t.text ∈ names := by
  obtain ⟨comparison, hcomparison⟩ := exists_comparison type hleft hright
  rw [← exists_targetAddress_iff procedure ht hlabels]
  simp only [Statement.instructions, Statement.form?, hhead, TokenKind.form?, hcomparison, ok_bind]
  exact exists_bind_pure_eq_ok_iff

theorem exists_instructions_jump_iff {t : Token} (hhead : s.head.kind = .operation .jump)
    (ht : s.operand .target = some t)
    (hlabels : ∀ label, (labels.lookup label).isSome ↔ label ∈ names) :
    (∃ instructions, s.instructions procedure labels address = .ok instructions) ↔
      t.text ∈ names := by
  rw [← exists_targetAddress_iff procedure ht hlabels]
  simp only [Statement.instructions, Statement.form?, hhead, TokenKind.form?]
  exact exists_bind_pure_eq_ok_iff

theorem exists_instructions_arithmetic {op : Arithmetic} {type : IntType}
    (hhead : s.head.kind = .operation (.arithmetic op type))
    (hdestination : s.HasRegister .destination) (hsource : s.HasRegister .source) :
    ∃ instructions, s.instructions procedure labels address = .ok instructions := by
  obtain ⟨d, hd⟩ := exists_registerOperand hdestination
  obtain ⟨r, hr⟩ := exists_registerOperand hsource
  simp only [Statement.instructions, Statement.form?, hhead, TokenKind.form?, hd, hr, ok_bind]
  exact ⟨_, rfl⟩

theorem exists_instructions_compare {type : IntType}
    (hhead : s.head.kind = .operation (.compare type))
    (hleft : s.HasRegister .destination) (hright : s.HasRegister .source) :
    ∃ instructions, s.instructions procedure labels address = .ok instructions := by
  obtain ⟨comparison, hcomparison⟩ := exists_comparison type hleft hright
  simp only [Statement.instructions, Statement.form?, hhead, TokenKind.form?, hcomparison, ok_bind]
  exact ⟨_, rfl⟩

/-! ### What a form is well-formed for -/

theorem wellFormed_load_iff {type : IntType} {t : Token}
    (hhead : s.head.kind = .operation (.load type)) (ht : s.source = some t) :
    s.WellFormed names ↔
      (t.kind = .integer → ∃ v, IntegerLiteral t.text.toList v ∧
        -2 ^ (type.width.bits - 1) ≤ v ∧ v ≤ 2 ^ type.width.bits - 1) ∧
      (t.kind = .float → type.width.bits = 32 ∨ type.width.bits = 64) := by
  constructor
  · rintro ⟨-, hinteger, hfloat⟩
    exact ⟨hinteger type hhead t ht, hfloat type hhead t ht⟩
  · rintro ⟨hinteger, hfloat⟩
    refine ⟨by simp [hhead], ?_, ?_⟩
    · rintro type' hhead' t' ht'
      cases hhead.symm.trans hhead'
      cases ht.symm.trans ht'
      exact hinteger
    · rintro type' hhead' t' ht'
      cases hhead.symm.trans hhead'
      cases ht.symm.trans ht'
      exact hfloat

theorem wellFormed_jump_iff {t : Token}
    (hhead : s.head.kind = .operation .jump ∨ ∃ c type, s.head.kind = .operation (.branch c type))
    (ht : s.target = some t) : s.WellFormed names ↔ t.text ∈ names := by
  constructor
  · rintro ⟨htarget, -, -⟩
    exact htarget hhead t ht
  · intro hmem
    have hload : ∀ type, s.head.kind ≠ .operation (.load type) := by
      rintro type hkind
      rcases hhead with h | ⟨c, type', h⟩ <;> cases hkind.symm.trans h
    refine ⟨?_, fun type h => absurd h (hload type), fun type h => absurd h (hload type)⟩
    rintro - t' ht'
    cases ht.symm.trans ht'
    exact hmem

/-- A statement that neither loads nor jumps is well-formed. -/
theorem wellFormed_of_head (hload : ∀ type, s.head.kind ≠ .operation (.load type))
    (hjump : s.head.kind ≠ .operation .jump)
    (hbranch : ∀ c type, s.head.kind ≠ .operation (.branch c type)) : s.WellFormed names where
  target h := by
    rcases h with h | ⟨c, type, h⟩
    · exact absurd h hjump
    · exact absurd h (hbranch c type)
  integer type h := absurd h (hload type)
  float type h := absurd h (hload type)

/-- A parsed statement has instructions exactly if it is well-formed, wherever it stands. -/
theorem exists_instructions_iff {t : StatementTree} (h : t.Valid)
    (hlexemes : ∀ x ∈ t.tokens, x.WellSpelt)
    (hlabels : ∀ label, (labels.lookup label).isSome ↔ label ∈ names) :
    (∃ instructions, t.statement.instructions procedure labels address = .ok instructions) ↔
      t.statement.WellFormed names := by
  cases h with
  | @load type head destination source hhead hdestination hsource =>
      have hlexeme := hlexemes source (by simp [StatementTree.tokens])
      rw [exists_instructions_load_iff procedure address hhead ⟨destination, rfl, hdestination⟩ rfl,
        wellFormed_load_iff hhead rfl]
      rcases hsource with hkind | hkind
      · obtain ⟨v, hv, hunique⟩ := hlexeme.exists_unique_integer hkind
        rw [exists_constantBits_integer_iff hkind hv]
        simp only [hkind, reduceCtorEq, true_imp_iff, false_imp_iff, and_true]
        exact ⟨fun hrange => ⟨v, hv, hrange⟩, fun ⟨v', hv', hrange⟩ => hunique v' hv' ▸ hrange⟩
      · rw [exists_constantBits_float_iff hkind (hlexeme.isSome_realBits? hkind)]
        simp [hkind]
  | arithmetic hhead hdestination hsource =>
      exact iff_of_true
        (exists_instructions_arithmetic procedure address hhead ⟨_, rfl, hdestination⟩
          ⟨_, rfl, hsource⟩)
        (wellFormed_of_head (by simp [hhead]) (by simp [hhead]) (by simp [hhead]))
  | compare hhead hleft hright =>
      exact iff_of_true
        (exists_instructions_compare procedure address hhead ⟨_, rfl, hleft⟩ ⟨_, rfl, hright⟩)
        (wellFormed_of_head (by simp [hhead]) (by simp [hhead]) (by simp [hhead]))
  | branch hhead hleft hright htarget =>
      rw [wellFormed_jump_iff (.inr ⟨_, _, hhead⟩) rfl]
      exact exists_instructions_branch_iff procedure address hhead ⟨_, rfl, hleft⟩
        ⟨_, rfl, hright⟩ rfl
        hlabels
  | jump hhead htarget =>
      rw [wellFormed_jump_iff (.inl hhead) rfl]
      exact exists_instructions_jump_iff procedure address hhead rfl hlabels
  | label hhead hcolon =>
      refine iff_of_true ⟨[], ?_⟩
        (wellFormed_of_head (by simp [hhead]) (by simp [hhead]) (by simp [hhead]))
      simp only [Statement.instructions, Statement.form?, hhead, TokenKind.form?]
  | halt hhead =>
      refine iff_of_true ⟨[.halt], ?_⟩
        (wellFormed_of_head (by simp [hhead]) (by simp [hhead]) (by simp [hhead]))
      simp only [Statement.instructions, Statement.form?, hhead, TokenKind.form?]

end Statements

/-! ## Bodies -/

/-- The statement of a tree of the grammar whose tokens are well spelt. -/
def Statement.Parsed (s : Statement) : Prop :=
  ∃ t : StatementTree, t.Valid ∧ t.statement = s ∧ ∀ x ∈ t.tokens, x.WellSpelt

theorem Statement.Parsed.exists_form {s : Statement} (h : s.Parsed) :
    ∃ form, s.form? = some form := by
  obtain ⟨t, ht, rfl, -⟩ := h
  cases ht <;> simp_all [Statement.form?, TokenKind.form?]

section Bodies

variable {procedure : String} {labels : Labels} {body : List Statement}

theorem definedLabels_cons_of_label {s : Statement} (h : s.form? = some .label)
    (body : List Statement) :
    definedLabels (s :: body) = s.head.text :: definedLabels body :=
  List.filterMap_cons_some (if_pos h)

theorem definedLabels_cons_of_ne {s : Statement} (h : s.form? ≠ some .label)
    (body : List Statement) :
    definedLabels (s :: body) = definedLabels body :=
  List.filterMap_cons_none (if_neg h)

theorem lookup_cons_eq_none_iff {label name : String} {address : Nat} :
    ((name, address) :: labels : Labels).lookup label = none ↔
      label ≠ name ∧ labels.lookup label = none := by
  by_cases h : label = name
  · simp [h]
  · simp [h, List.lookup_cons, beq_false_of_ne h]

/-- A label is defined after a body if it was before or is by the body. -/
theorem isSome_lookup_of_layoutBody {address stop : Nat} {labels' : Labels}
    (h : layoutBody procedure address labels body = .ok (labels', stop)) (label : String) :
    (labels'.lookup label).isSome ↔ (labels.lookup label).isSome ∨ label ∈ definedLabels body := by
  induction body generalizing address labels with
  | nil =>
      cases h
      simp [definedLabels]
  | cons s body ih =>
      obtain ⟨defined, hdefined, hlater⟩ := layoutBody_cons_eq_ok h
      rw [ih (hlater 0)]
      rcases defineLabel_eq_ok hdefined with ⟨hform, -, rfl⟩ | ⟨hform, rfl⟩
      · rw [definedLabels_cons_of_label hform, List.mem_cons]
        by_cases heq : label = s.head.text
        · simp [heq]
        · simp [heq, List.lookup_cons, beq_false_of_ne heq]
      · rw [definedLabels_cons_of_ne hform]

theorem exists_layoutBody_cons_iff {s : Statement} {form : Form} (hform : s.form? = some form)
    (address : Nat) :
    (∃ result, layoutBody procedure address labels (s :: body) = .ok result) ↔
      ∃ defined, s.defineLabel procedure address labels = .ok defined ∧
        ∃ result, layoutBody procedure (address + form.size) defined body = .ok result := by
  simp only [layoutBody, hform]
  exact exists_bind_eq_ok_iff

/-- A body has a layout exactly if it defines no label twice, and none that is defined before it. -/
theorem exists_layoutBody_iff (procedure : String) (labels : Labels) (hbody : ∀ s ∈ body, s.Parsed)
    (address : Nat) :
    (∃ result, layoutBody procedure address labels body = .ok result) ↔
      (definedLabels body).Nodup ∧ ∀ label ∈ definedLabels body, labels.lookup label = none := by
  induction body generalizing address labels with
  | nil => simp [layoutBody, definedLabels]
  | cons s body ih =>
      obtain ⟨hs, hbody⟩ := List.forall_mem_cons.1 hbody
      obtain ⟨form, hform⟩ := hs.exists_form
      rw [exists_layoutBody_cons_iff hform]
      by_cases hlabel : s.form? = some .label
      · rw [definedLabels_cons_of_label hlabel, List.nodup_cons, List.forall_mem_cons]
        constructor
        · rintro ⟨defined, hdefined, hlater⟩
          obtain ⟨-, hnone, rfl⟩ := (defineLabel_eq_ok hdefined).resolve_right fun h => h.1 hlabel
          obtain ⟨hnodup, hfresh⟩ := (ih _ hbody _).1 hlater
          have hlookup {label : String} (h : label ∈ definedLabels body) :=
            lookup_cons_eq_none_iff.1 (hfresh label h)
          exact ⟨⟨fun hmem => (hlookup hmem).1 rfl, hnodup⟩, hnone, fun label h => (hlookup h).2⟩
        · rintro ⟨⟨hmem, hnodup⟩, hnone, hfresh⟩
          refine ⟨(s.head.text, address) :: labels, ?_,
            (ih _ hbody _).2 ⟨hnodup, fun label h => ?_⟩⟩
          · rw [Statement.defineLabel, if_pos hlabel, hnone]
            rfl
          · exact lookup_cons_eq_none_iff.2 ⟨fun heq => hmem (heq ▸ h), hfresh label h⟩
      · have hdefine : s.defineLabel procedure address labels = .ok labels := if_neg hlabel
        rw [definedLabels_cons_of_ne hlabel, ← ih _ hbody, hdefine]
        constructor
        · rintro ⟨defined, hdefined, hlater⟩
          cases hdefined
          exact hlater
        · exact fun hlater => ⟨labels, rfl, hlater⟩

/-- A body has instructions exactly if all its statements are well-formed. -/
theorem exists_assembleBody_iff (procedure : String) {names : List String}
    (hbody : ∀ s ∈ body, s.Parsed) (hlabels : ∀ label, (labels.lookup label).isSome ↔ label ∈ names)
    (address : Nat) :
    (∃ instructions, assembleBody procedure labels address body = .ok instructions) ↔
      ∀ s ∈ body, s.WellFormed names := by
  induction body generalizing address with
  | nil => simp [assembleBody]
  | cons s body ih =>
      obtain ⟨⟨t, ht, rfl, hlexemes⟩, hrest⟩ := List.forall_mem_cons.1 hbody
      have hfirst := exists_instructions_iff procedure address ht hlexemes hlabels
      rw [assembleBody, List.forall_mem_cons]
      exact exists_bind_eq_ok_iff_and hfirst fun first _ =>
        exists_bind_pure_eq_ok_iff.trans (ih hrest (address + totalSize first))

end Bodies

/-! ## Programs -/

section Programs

variable {procedures : List Procedure}

/-- A program has a layout exactly if no procedure defines a label twice. -/
theorem exists_layout_iff (hparsed : ∀ p ∈ procedures, ∀ s ∈ p.body, s.Parsed) (address : Nat) :
    (∃ layouts, layout address procedures = .ok layouts) ↔
      ∀ p ∈ procedures, (definedLabels p.body).Nodup := by
  induction procedures generalizing address with
  | nil => simp [layout]
  | cons p procedures ih =>
      obtain ⟨hp, hlater⟩ := List.forall_mem_cons.1 hparsed
      have hfirst : (∃ result, layoutBody p.name.text address [] p.body = .ok result) ↔
          (definedLabels p.body).Nodup := by
        rw [exists_layoutBody_iff p.name.text [] hp address]
        exact and_iff_left fun _ _ => rfl
      rw [layout, List.forall_mem_cons]
      exact exists_bind_eq_ok_iff_and hfirst fun (_, stop) _ =>
        exists_bind_pure_eq_ok_iff.trans (ih hlater stop)

/-- A program with a layout has instructions exactly if all its statements are well-formed. -/
theorem exists_assembleProcedures_iff (hparsed : ∀ p ∈ procedures, ∀ s ∈ p.body, s.Parsed)
    {address : Nat} {layouts : List ProcedureLayout} (h : layout address procedures = .ok layouts)
    (start : Nat) :
    (∃ instructions, assembleProcedures start (procedures.zip layouts) = .ok instructions) ↔
      ∀ p ∈ procedures, ∀ s ∈ p.body, s.WellFormed (definedLabels p.body) := by
  induction procedures generalizing address layouts start with
  | nil => simp [assembleProcedures]
  | cons p procedures ih =>
      obtain ⟨hp, hlater⟩ := List.forall_mem_cons.1 hparsed
      obtain ⟨⟨labels, stop⟩, hbody, h⟩ := eq_ok_of_bind_eq_ok h
      obtain ⟨later, hlayout, h⟩ := eq_ok_of_bind_eq_ok h
      cases h
      have hlabels (label : String) : (labels.lookup label).isSome ↔
          label ∈ definedLabels p.body := by
        rw [isSome_lookup_of_layoutBody hbody label]
        simp
      rw [List.zip_cons_cons, assembleProcedures, List.forall_mem_cons]
      exact exists_bind_eq_ok_iff_and (exists_assembleBody_iff p.name.text hp hlabels start)
        fun first _ =>
          exists_bind_pure_eq_ok_iff.trans (ih hlater hlayout (start + totalSize first))

/-- A parsed program has an image exactly if all its procedures are well-formed. -/
theorem exists_assembleProgram_iff (hparsed : ∀ p ∈ procedures, ∀ s ∈ p.body, s.Parsed) :
    (∃ image, assembleProgram procedures = .ok image) ↔ ∀ p ∈ procedures, p.WellFormed := by
  have hparts : (∃ image, assembleProgram procedures = .ok image) ↔
      (∀ p ∈ procedures, (definedLabels p.body).Nodup) ∧
        ∀ p ∈ procedures, ∀ s ∈ p.body, s.WellFormed (definedLabels p.body) :=
    exists_bind_eq_ok_iff_and (exists_layout_iff hparsed 0) fun _ hlayout =>
      exists_bind_pure_eq_ok_iff.trans (exists_assembleProcedures_iff hparsed hlayout 0)
  rw [hparts]
  exact ⟨fun ⟨hlabels, hbodies⟩ p hp => ⟨hlabels p hp, hbodies p hp⟩,
    fun hwell => ⟨fun p hp => (hwell p hp).labels, fun p hp => (hwell p hp).body⟩⟩

end Programs

end RegisterMachine
