import Mathlib.Data.Option.Basic
import Mathlib.Logic.Relator
import RegisterMachine.Assembly
import RegisterMachine.Proofs.Literal.Real

/-!
# RegisterMachine.Proofs.Assembly.Respelling

Assembling does not depend on how a program is spelt.

* `Procedure.Respelt` relates procedures that differ in how their constants are written and in the
  names of their labels;
* `Alike` relates two outcomes of the assembler: both are values that are related, or both
  are errors of one variant;
* every function of the assembler takes respelt arguments to alike outcomes, up to programs
  (`alike_assembleProgram`).
-/

namespace RegisterMachine

/-! ## Spellings -/

/-- Two constants of one kind have the same value; for integers this is the number, and of floats it
is asked by a relation on what they stand for. -/
inductive SameConstant (floats : SignedReal → SignedReal → Prop) (t t' : Token) : Prop
  | integer {v : Int} (hkind : t.kind = .integer) (hkind' : t'.kind = .integer)
      (hv : IntegerLiteral t.text.toList v) (hv' : IntegerLiteral t'.text.toList v)
  | float {x x' : SignedReal} (hkind : t.kind = .float) (hkind' : t'.kind = .float)
      (hx : RealNumeral t.text.toList x) (hx' : RealNumeral t'.text.toList x') (same : floats x x')

/-- Two operands are the same register, or constants of the same value. -/
inductive SameOperand (floats : SignedReal → SignedReal → Prop) (t t' : Token) : Prop
  | register {r : Register} (hkind : t.kind = .register r) (hkind' : t'.kind = .register r)
  | constant (same : SameConstant floats t t')

/-- Two statements differ in spelling only, where labels are renamed. -/
structure Statement.Respelt (floats : SignedReal → SignedReal → Prop)
    (renamed : String → String → Prop) (s s' : Statement) : Prop where
  head : s.head.kind = s'.head.kind
  label : s.form? = some .label → renamed s.head.text s'.head.text
  destination : Option.Rel (SameOperand floats) s.destination s'.destination
  source : Option.Rel (SameOperand floats) s.source s'.source
  target : Option.Rel (fun t t' => renamed t.text t'.text) s.target s'.target

/-- Two procedures differ in spelling only. A label is renamed to one label, and no other label is
renamed to it. -/
def Procedure.Respelt (floats : SignedReal → SignedReal → Prop) (p p' : Procedure) : Prop :=
  ∃ renamed : String → String → Prop, Relator.BiUnique renamed ∧
    List.Forall₂ (Statement.Respelt floats renamed) p.body p'.body

/-- Two floats have the same sign, and one binary64 number is nearest to both, as it is if
they are the same number. -/
def SignedReal.Same (x x' : SignedReal) : Prop :=
  x.negative = x'.negative ∧
    BinaryFormat.binary64.nearest x.magnitude = BinaryFormat.binary64.nearest x'.magnitude

/-! ## Outcomes -/

/-- A problem without the texts that it names. -/
def AssemblyProblem.blank : AssemblyProblem → AssemblyProblem
  | .undefinedLabel _ _ => .undefinedLabel "" ""
  | .duplicateLabel _ _ => .duplicateLabel "" ""
  | .outOfRange _ type => .outOfRange "" type
  | .floatWidth _ type => .floatWidth "" type
  | .malformed _ => .malformed ""
  | .unsupported _ => .unsupported ""

/-- Two outcomes are values that are related, or errors of one variant. -/
inductive Alike {α β : Type} (related : α → β → Prop) :
    Except AssemblyError α → Except AssemblyError β → Prop
  | ok {a : α} {b : β} (h : related a b) : Alike related (.ok a) (.ok b)
  | error {e e' : AssemblyError} (h : e.problem.blank = e'.problem.blank) :
      Alike related (.error e) (.error e')

section Outcomes

variable {α β γ δ : Type} {related : α → β → Prop} {related' : γ → δ → Prop}

/-- Computations behind alike outcomes are alike if they are for related values. -/
theorem Alike.bind {x : Except AssemblyError α} {y : Except AssemblyError β}
    {f : α → Except AssemblyError γ} {g : β → Except AssemblyError δ} (h : Alike related x y)
    (hf : ∀ a b, related a b → Alike related' (f a) (g b)) :
    Alike related' (x >>= f) (y >>= g) := by
  cases h with
  | ok h => exact hf _ _ h
  | error h => exact .error h

/-- Computations behind alike outcomes of one value. -/
theorem Alike.bind_eq {x y : Except AssemblyError α} {f : α → Except AssemblyError γ}
    {g : α → Except AssemblyError δ} (h : Alike Eq x y) (hf : ∀ a, Alike related' (f a) (g a)) :
    Alike related' (x >>= f) (y >>= g) :=
  h.bind fun a _ heq => heq ▸ hf a

theorem Alike.ok_or_error {x : Except AssemblyError α} {y : Except AssemblyError β}
    (h : Alike related x y) :
    (∃ a b, x = .ok a ∧ y = .ok b ∧ related a b) ∨
      ∃ e e', x = .error e ∧ y = .error e' ∧ e.problem.blank = e'.problem.blank := by
  cases h with
  | ok h => exact .inl ⟨_, _, rfl, rfl, h⟩
  | error h => exact .inr ⟨_, _, rfl, rfl, h⟩

end Outcomes

/-! ## Operands -/

section Operands

variable {t t' : Token} {s s' : Statement}

theorem alike_require (role : Role) {related : Token → Token → Prop}
    (h : Option.Rel related (s.operand role) (s'.operand role)) :
    Alike related (s.require role) (s'.require role) := by
  rw [Statement.require, Statement.require]
  generalize s.operand role = operand, s'.operand role = operand' at h
  cases h with
  | some h => exact .ok h
  | none => exact .error rfl

theorem alike_registerOperand (role : Role) {floats : SignedReal → SignedReal → Prop}
    (h : Option.Rel (SameOperand floats) (s.operand role) (s'.operand role)) :
    Alike Eq (s.registerOperand role) (s'.registerOperand role) := by
  refine (alike_require role h).bind fun t t' hsame => ?_
  cases hsame with
  | register hkind hkind' =>
      rw [hkind, hkind']
      exact .ok rfl
  | constant hsame =>
      cases hsame with
      | integer hkind hkind' =>
          rw [hkind, hkind']
          exact .error rfl
      | float hkind hkind' =>
          rw [hkind, hkind']
          exact .error rfl

theorem SignedReal.Same.bits_eq {x x' : SignedReal} (h : x.Same x') :
    x.bits .binary64 = x'.bits .binary64 := by
  rw [bits, bits, h.1, h.2]

theorem alike_constantBits (type : IntType) (h : SameOperand SignedReal.Same t t') :
    Alike Eq (constantBits type t) (constantBits type t') := by
  rw [constantBits, constantBits]
  cases h with
  | register hkind hkind' =>
      rw [hkind, hkind']
      exact .error rfl
  | constant hsame =>
      cases hsame with
      | integer hkind hkind' hv hv' =>
          rw [hkind, hkind']
          simp only [hv.integerValue?_eq, hv'.integerValue?_eq]
          split
          next => exact .error rfl
          next =>
            split
            next => exact .ok rfl
            next => exact .error rfl
      | float hkind hkind' hx hx' hsame =>
          rw [hkind, hkind']
          simp only [hx.realBits?_eq, hx'.realBits?_eq, hsame.bits_eq]
          split
          next => exact .ok rfl
          next => exact .error rfl

end Operands

/-! ## Labels -/

section Labels

variable {renamed : String → String → Prop} {labels labels' : Labels}

/-- Two tables have renamed labels with the same addresses. -/
abbrev RenamedLabels (renamed : String → String → Prop) : Labels → Labels → Prop :=
  List.Forall₂ fun a b => renamed a.1 b.1 ∧ a.2 = b.2

/-- A label and the one that it is renamed to have the same address. -/
theorem lookup_renamed (hunique : Relator.BiUnique renamed)
    (h : RenamedLabels renamed labels labels')
    {label label' : String} (hlabel : renamed label label') :
    labels.lookup label = labels'.lookup label' := by
  induction h with
  | nil => rfl
  | @cons a b _ _ hab _ ih =>
      obtain ⟨hname, haddress⟩ := hab
      have hiff : label = a.1 ↔ label' = b.1 := by
        constructor
        · rintro rfl
          exact hunique.2 hlabel hname
        · rintro rfl
          exact hunique.1 hlabel hname
      have hbeq : (label == a.1) = (label' == b.1) := by
        rw [Bool.eq_iff_iff, beq_iff_eq, beq_iff_eq, hiff]
      rw [List.lookup_cons, List.lookup_cons, hbeq, haddress, ih]

end Labels

/-! ## Statements -/

section Statements

variable {floats : SignedReal → SignedReal → Prop} {renamed : String → String → Prop}
  {labels labels' : Labels} {s s' : Statement} (hunique : Relator.BiUnique renamed)
  (hlabels : RenamedLabels renamed labels labels') (procedure procedure' : String)

namespace Statement.Respelt

theorem form?_eq (h : s.Respelt floats renamed s') : s.form? = s'.form? := by
  rw [Statement.form?, Statement.form?, h.head]

theorem alike_comparison (h : s.Respelt floats renamed s') (type : IntType) :
    Alike Eq (s.comparison type) (s'.comparison type) := by
  refine (alike_registerOperand .destination h.destination).bind_eq fun left => ?_
  refine (alike_registerOperand .source h.source).bind_eq fun right => ?_
  exact .ok rfl

include hunique hlabels in
theorem alike_targetAddress (h : s.Respelt floats renamed s') :
    Alike Eq (s.targetAddress procedure labels) (s'.targetAddress procedure' labels') := by
  refine (alike_require .target h.target).bind fun t t' ht => ?_
  rw [lookup_renamed hunique hlabels ht]
  split
  next => exact .ok rfl
  next => exact .error rfl

include hunique hlabels in
theorem alike_instructions (h : s.Respelt SignedReal.Same renamed s') (address : Nat) :
    Alike Eq (s.instructions procedure labels address)
      (s'.instructions procedure' labels' address) := by
  have htarget := h.alike_targetAddress hunique hlabels procedure procedure'
  rw [Statement.instructions, Statement.instructions, h.form?_eq]
  split
  next => exact .error rfl
  next => exact .ok rfl
  next m hform =>
    cases m with
    | load type =>
        refine (alike_registerOperand .destination h.destination).bind_eq fun destination => ?_
        refine (alike_require .source h.source).bind fun t t' hsame => ?_
        exact (alike_constantBits type hsame).bind_eq fun bits => .ok rfl
    | arithmetic op type =>
        refine (alike_registerOperand .destination h.destination).bind_eq fun destination => ?_
        exact (alike_registerOperand .source h.source).bind_eq fun source => .ok rfl
    | compare type => exact (h.alike_comparison type).bind_eq fun comparison => .ok rfl
    | branch c type =>
        refine (h.alike_comparison type).bind_eq fun comparison => ?_
        exact htarget.bind_eq fun target => .ok rfl
    | jump => exact htarget.bind_eq fun target => .ok rfl
    | halt => exact .ok rfl

include hunique hlabels in
/-- A label is new in one table exactly if the one that it is renamed to is new in the other. -/
theorem alike_defineLabel (h : s.Respelt floats renamed s') (address : Nat) :
    Alike (RenamedLabels renamed) (s.defineLabel procedure address labels)
      (s'.defineLabel procedure' address labels') := by
  rw [Statement.defineLabel, Statement.defineLabel, ← h.form?_eq]
  by_cases hform : s.form? = some .label
  · have hname := h.label hform
    rw [if_pos hform, if_pos hform, lookup_renamed hunique hlabels hname]
    split
    next => exact .error rfl
    next => exact .ok (.cons ⟨hname, rfl⟩ hlabels)
  · rw [if_neg hform, if_neg hform]
    exact .ok hlabels

end Statement.Respelt

end Statements

/-! ## Bodies -/

section Bodies

variable {renamed : String → String → Prop} {labels labels' : Labels} {body body' : List Statement}
  (hunique : Relator.BiUnique renamed) (hlabels : RenamedLabels renamed labels labels')
  (procedure procedure' : String)
include hunique hlabels

theorem alike_assembleBody (h : List.Forall₂ (Statement.Respelt SignedReal.Same renamed) body body')
    (address : Nat) :
    Alike Eq (assembleBody procedure labels address body)
      (assembleBody procedure' labels' address body') := by
  induction h generalizing address with
  | nil => exact .ok rfl
  | cons hs _ ih =>
      have hfirst := hs.alike_instructions hunique hlabels procedure procedure' address
      refine hfirst.bind_eq fun first => ?_
      exact (ih (address + totalSize first)).bind_eq fun later => .ok rfl

theorem alike_layoutBody {floats : SignedReal → SignedReal → Prop}
    (h : List.Forall₂ (Statement.Respelt floats renamed) body body') (address : Nat) :
    Alike (fun a b => RenamedLabels renamed a.1 b.1 ∧ a.2 = b.2)
      (layoutBody procedure address labels body) (layoutBody procedure' address labels' body') := by
  induction h generalizing address labels labels' with
  | nil => exact .ok ⟨hlabels, rfl⟩
  | cons hs _ ih =>
      rw [layoutBody, layoutBody]
      refine (hs.alike_defineLabel hunique hlabels procedure procedure' address).bind ?_
      intro defined defined' hdefined
      rw [← hs.form?_eq]
      split
      next form hform => exact ih hdefined (address + form.size)
      next => exact .error rfl

end Bodies

/-! ## Programs -/

/-- Two procedures that differ in spelling only, with layouts that put them at the same place. -/
def PlacedAlike (a b : Procedure × ProcedureLayout) : Prop :=
  a.2.address = b.2.address ∧ ∃ renamed : String → String → Prop, Relator.BiUnique renamed ∧
    RenamedLabels renamed a.2.labels b.2.labels ∧
    List.Forall₂ (Statement.Respelt SignedReal.Same renamed) a.1.body b.1.body

section Programs

variable {procedures procedures' : List Procedure}

theorem alike_layout (h : List.Forall₂ (Procedure.Respelt SignedReal.Same) procedures procedures')
    (address : Nat) :
    Alike (fun layouts layouts' =>
        List.Forall₂ PlacedAlike (procedures.zip layouts) (procedures'.zip layouts'))
      (layout address procedures) (layout address procedures') := by
  induction h generalizing address with
  | nil => exact .ok .nil
  | @cons p p' _ _ hp _ ih =>
      obtain ⟨renamed, hunique, hbody⟩ := hp
      rw [layout, layout]
      refine (alike_layoutBody hunique .nil p.name.text p'.name.text hbody address).bind ?_
      rintro ⟨labels, stop⟩ ⟨labels', _⟩ ⟨hlabels, rfl⟩
      refine (ih stop).bind fun later later' hlater => ?_
      exact .ok (.cons ⟨rfl, renamed, hunique, hlabels, hbody⟩ hlater)

theorem alike_assembleProcedures {placed placed' : List (Procedure × ProcedureLayout)}
    (h : List.Forall₂ PlacedAlike placed placed') (address : Nat) :
    Alike Eq (assembleProcedures address placed) (assembleProcedures address placed') := by
  induction h generalizing address with
  | nil => exact .ok rfl
  | @cons a b _ _ hab _ ih =>
      obtain ⟨-, renamed, hunique, hlabels, hbody⟩ := hab
      have hfirst := alike_assembleBody hunique hlabels a.1.name.text b.1.name.text hbody address
      refine hfirst.bind_eq fun first => ?_
      exact (ih (address + totalSize first)).bind_eq fun later => .ok rfl

theorem map_address_of_placedAlike {placed placed' : List (Procedure × ProcedureLayout)}
    (h : List.Forall₂ PlacedAlike placed placed') :
    placed.map (·.2.address) = placed'.map (·.2.address) := by
  induction h with
  | nil => rfl
  | cons hab _ ih => rw [List.map_cons, List.map_cons, hab.1, ih]

/-- Two images have the same code and enter their procedures at the same addresses. -/
def Image.SameCode (image image' : Image) : Prop :=
  image.code = image'.code ∧
    image.procedures.map Entry.address = image'.procedures.map Entry.address

/-- Programs that differ in spelling only have images with the same code, or fail alike. -/
theorem alike_assembleProgram
    (h : List.Forall₂ (Procedure.Respelt SignedReal.Same) procedures procedures') :
    Alike Image.SameCode (assembleProgram procedures) (assembleProgram procedures') := by
  refine (alike_layout h 0).bind fun layouts layouts' hplaced => ?_
  refine (alike_assembleProcedures hplaced 0).bind_eq fun instructions => ?_
  refine .ok ⟨rfl, ?_⟩
  have haddress := congrArg (List.map UInt64.ofNat) (map_address_of_placedAlike hplaced)
  simp only [List.map_map] at haddress ⊢
  exact haddress

end Programs

end RegisterMachine
