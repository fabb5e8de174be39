import RegisterMachine.Proofs.Program.Parse
import RegisterMachine.Proofs.Token.Lexeme

/-!
# RegisterMachine.Proofs.Program.Unplaced

Programs and their trees without the places of their tokens.

Two texts that have the same tokens up to their places have the same trees up to their places
(`map_unplaced_inj`).
-/

namespace RegisterMachine

theorem map_kind_map_unplaced (tokens : List Token) :
    (tokens.map Token.unplaced).map Token.kind = tokens.map Token.kind := by
  rw [List.map_map]
  rfl

/-- A statement with the kinds and texts of its tokens only. -/
def Statement.unplaced (s : Statement) : Statement :=
  ⟨s.head.unplaced, s.destination.map Token.unplaced, s.source.map Token.unplaced,
    s.target.map Token.unplaced⟩

/-- A procedure with the kinds and texts of its tokens only. -/
def Procedure.unplaced (p : Procedure) : Procedure :=
  ⟨p.name.unplaced, p.body.map Statement.unplaced⟩

/-! ## Canonical texts -/

theorem Statement.form?_unplaced (s : Statement) : s.unplaced.form? = s.form? := rfl

theorem Statement.operand_unplaced (s : Statement) (role : Role) :
    s.unplaced.operand role = (s.operand role).map Token.unplaced := by
  cases role <;> rfl

theorem operandText_map_unplaced (t : Option Token) :
    operandText (t.map Token.unplaced) = operandText t := by
  cases t <;> rfl

theorem Statement.canonical_unplaced (s : Statement) : s.unplaced.canonical = s.canonical := by
  simp only [canonical, form?_unplaced, operand_unplaced, operandText_map_unplaced]
  rfl

theorem Procedure.canonical_unplaced (p : Procedure) : p.unplaced.canonical = p.canonical := by
  simp only [canonical, unplaced, List.map_map, Function.comp_def, Statement.canonical_unplaced]
  rfl

/-- The canonical text does not depend on places. -/
theorem canonicalText_map_unplaced (procedures : List Procedure) :
    canonicalText (procedures.map Procedure.unplaced) = canonicalText procedures := by
  simp only [canonicalText, List.map_map, Function.comp_def, Procedure.canonical_unplaced]

/-! ## Trees -/

namespace StatementTree

def unplaced (t : StatementTree) : StatementTree :=
  ⟨t.statement.unplaced, t.colon.map Token.unplaced⟩

theorem tokens_unplaced (t : StatementTree) : t.unplaced.tokens = t.tokens.map Token.unplaced := by
  simp [tokens, unplaced, Statement.unplaced, Option.toList_map]

theorem Valid.unplaced {t : StatementTree} (h : t.Valid) : t.unplaced.Valid := by
  cases h with
  | load hhead hdestination hsource => exact .load hhead hdestination hsource
  | arithmetic hhead hdestination hsource => exact .arithmetic hhead hdestination hsource
  | compare hhead hleft hright => exact .compare hhead hleft hright
  | branch hhead hleft hright htarget => exact .branch hhead hleft hright htarget
  | jump hhead htarget => exact .jump hhead htarget
  | label hhead hcolon => exact .label hhead hcolon
  | halt hhead => exact .halt hhead

end StatementTree

namespace ProcedureTree

def unplaced (t : ProcedureTree) : ProcedureTree :=
  ⟨t.opening.unplaced, t.name.unplaced, t.body.map StatementTree.unplaced,
    t.ending.map Token.unplaced⟩

theorem tokens_unplaced (t : ProcedureTree) : t.unplaced.tokens = t.tokens.map Token.unplaced := by
  simp [tokens, unplaced, List.flatMap_map, List.map_flatMap, StatementTree.tokens_unplaced,
    Option.toList_map]

theorem map_procedure_map_unplaced (ts : List ProcedureTree) :
    (ts.map unplaced).map procedure = (ts.map procedure).map Procedure.unplaced := by
  simp [procedure, unplaced, Procedure.unplaced, StatementTree.unplaced]

theorem Valid.unplaced {t : ProcedureTree} (h : t.Valid) : t.unplaced.Valid where
  opening := h.opening
  name := h.name
  body s hs := by
    obtain ⟨s, hmem, rfl⟩ := List.mem_map.1 hs
    exact (h.body s hmem).unplaced
  ending e he := by
    obtain ⟨e, hmem, rfl⟩ := Option.mem_map.1 he
    exact h.ending e hmem

/-- Trees that write the same tokens up to their places are the same up to their places. -/
theorem map_unplaced_inj {ts ts' : List ProcedureTree} (h : ∀ t ∈ ts, t.Valid)
    (h' : ∀ t ∈ ts', t.Valid)
    (heq : (ts.flatMap tokens).map Token.unplaced = (ts'.flatMap tokens).map Token.unplaced) :
    ts.map unplaced = ts'.map unplaced := by
  have hwrite (ts : List ProcedureTree) :
      (ts.map unplaced).flatMap tokens = (ts.flatMap tokens).map Token.unplaced := by
    simp only [List.flatMap_map, List.map_flatMap, tokens_unplaced]
  have hvalid (ts : List ProcedureTree) (h : ∀ t ∈ ts, t.Valid) : ∀ t ∈ ts.map unplaced, t.Valid :=
    List.forall_mem_map.2 fun t ht => (h t ht).unplaced
  exact flatMap_tokens_inj (hvalid ts h) (hvalid ts' h') (by rw [hwrite, hwrite, heq])

end ProcedureTree

end RegisterMachine
