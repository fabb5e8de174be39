import RegisterMachine.Proofs.Program.Unplaced

/-!
# RegisterMachine.Proofs.Program.Canonical

The canonical text of a program is read back as the program.

Every operation of a statement is written with a blank before each of its tokens, and every line
ends with a newline, so each lexeme is followed by a delimiter. A procedure gets the `PROC`, the
colons and the `END` of the canonical layout in the place of its own.
-/

namespace RegisterMachine

/-! ## Canonical trees -/

/-- A token of the canonical layout itself. -/
def layoutToken (kind : TokenKind) (text : String) : Token :=
  ⟨kind, text, .origin, ⟨0, 0⟩⟩

namespace StatementTree

/-- The statement with the colon of the canonical layout. -/
def canonical (t : StatementTree) : StatementTree :=
  ⟨t.statement, t.colon.map fun _ => layoutToken .colon ":"⟩

theorem Valid.canonical {t : StatementTree} (h : t.Valid) : t.canonical.Valid := by
  cases h with
  | load hhead hdestination hsource => exact .load hhead hdestination hsource
  | arithmetic hhead hdestination hsource => exact .arithmetic hhead hdestination hsource
  | compare hhead hleft hright => exact .compare hhead hleft hright
  | branch hhead hleft hright htarget => exact .branch hhead hleft hright htarget
  | jump hhead htarget => exact .jump hhead htarget
  | label hhead => exact .label hhead rfl
  | halt hhead => exact .halt hhead

end StatementTree

namespace ProcedureTree

/-- The procedure with the `PROC`, the colons and the `END` of the canonical layout. -/
def canonical (t : ProcedureTree) : ProcedureTree :=
  ⟨layoutToken .procBegin "PROC", t.name, t.body.map StatementTree.canonical,
    some (layoutToken .procEnd "END")⟩

theorem Valid.canonical {t : ProcedureTree} (h : t.Valid) : t.canonical.Valid where
  opening := rfl
  name := h.name
  body := List.forall_mem_map.2 fun s hs => (h.body s hs).canonical
  ending e he := by
    obtain rfl := Option.some.inj he
    rfl

theorem procedure_canonical (t : ProcedureTree) : t.canonical.procedure = t.procedure := by
  simp [procedure, canonical, StatementTree.canonical]

end ProcedureTree

/-! ## Reading back -/

variable {rest : List Char} {tokens : List Token}

theorem delimited_cons {c : Char} (h : isDelimiter c) : Delimited (c :: rest) := by
  rintro d ⟨rfl⟩
  exact h

/-- The texts of tokens, each after a blank. -/
def spaced (tokens : List Token) : List Char :=
  tokens.flatMap fun t => ' ' :: t.text.toList

theorem delimited_spaced_append {own : List Token} (hrest : Delimited rest) :
    Delimited (spaced own ++ rest) := by
  cases own with
  | nil => exact hrest
  | cons t own => exact delimited_cons rfl

theorem reads_spaced_append {own : List Token} (hown : ∀ t ∈ own, t.WellSpelt)
    (hrest : Delimited rest) (h : Reads rest tokens) :
    Reads (spaced own ++ rest) (own ++ tokens) := by
  induction own with
  | nil => exact h
  | cons t own ih =>
      obtain ⟨ht, hown⟩ := List.forall_mem_cons.1 hown
      have hread := Reads.lexeme ht (delimited_spaced_append hrest) (ih hown)
      rw [spaced, List.flatMap_cons, List.append_assoc]
      exact .blank rfl hread

/-- A label is flush left, and any other statement has a blank before each of its tokens and one
more before its head. -/
theorem toList_canonical {t : StatementTree} (h : t.Valid) :
    (t.canonical.tokens = [t.statement.head, layoutToken .colon ":"] ∧
        t.statement.canonical.toList = t.statement.head.text.toList ++ [':']) ∨
      (t.canonical = t ∧ t.statement.canonical.toList = ' ' :: spaced t.tokens) := by
  cases h <;>
    simp_all [Statement.canonical, Statement.form?, TokenKind.form?, Form.slots,
      StatementTree.tokens,
      StatementTree.canonical, spaced, Statement.operand, operandText, String.toList_append]

theorem reads_canonical_statement {t : StatementTree} (h : t.Valid)
    (hlexemes : ∀ x ∈ t.tokens, x.WellSpelt) (hrest : Reads rest tokens) :
    Reads (t.statement.canonical.toList ++ '\n' :: rest) (t.canonical.tokens ++ tokens) := by
  have hline : Reads ('\n' :: rest) tokens := .blank rfl hrest
  rcases toList_canonical h with ⟨htokens, htext⟩ | ⟨hcanonical, htext⟩
  · have hcolon : Reads (':' :: '\n' :: rest) (layoutToken .colon ":" :: tokens) :=
      .lexeme (t := layoutToken .colon ":") .colon (delimited_cons rfl) hline
    rw [htokens, htext, List.append_assoc]
    exact .lexeme (hlexemes _ List.mem_cons_self) (delimited_cons rfl) hcolon
  · rw [htext, hcanonical]
    exact .blank rfl (reads_spaced_append hlexemes (delimited_cons rfl) hline)

theorem reads_canonical_body {ts : List StatementTree} (h : ∀ t ∈ ts, t.Valid)
    (hlexemes : ∀ x ∈ ts.flatMap StatementTree.tokens, x.WellSpelt)
    (hrest : Reads rest tokens) :
    Reads (ts.flatMap (fun t => t.statement.canonical.toList ++ ['\n']) ++ rest)
      ((ts.map StatementTree.canonical).flatMap StatementTree.tokens ++ tokens) := by
  induction ts with
  | nil => exact hrest
  | cons t ts ih =>
      obtain ⟨ht, hts⟩ := List.forall_mem_cons.1 h
      obtain ⟨hown, hlater⟩ := List.forall_mem_append.1 hlexemes
      have hread := reads_canonical_statement ht hown (ih hts hlater)
      simpa using hread

theorem lexeme_of_wordKind {c : Char} {later : List Char} {kind : TokenKind} (hc : isLetter c)
    (hlater : later.all isWordCharacter) (hkind : wordKind (c :: later) = kind) :
    Lexeme kind (c :: later) := by
  rw [← hkind]
  exact .word hc (List.all_eq_true.1 hlater)

theorem lexeme_procBegin : Lexeme .procBegin "PROC".toList :=
  lexeme_of_wordKind rfl rfl (by decide +kernel)

theorem lexeme_procEnd : Lexeme .procEnd "END".toList :=
  lexeme_of_wordKind rfl rfl (by decide +kernel)

theorem reads_canonical_procedure {t : ProcedureTree} (h : t.Valid)
    (hlexemes : ∀ x ∈ t.tokens, x.WellSpelt) (hrest : Reads rest tokens) :
    Reads (t.procedure.canonical.toList ++ rest) (t.canonical.tokens ++ tokens) := by
  obtain ⟨-, hlexemes⟩ := List.forall_mem_cons.1 hlexemes
  obtain ⟨hname, hlexemes⟩ := List.forall_mem_cons.1 hlexemes
  obtain ⟨hbody, -⟩ := List.forall_mem_append.1 hlexemes
  have hending : Reads ("END".toList ++ '\n' :: rest) (layoutToken .procEnd "END" :: tokens) :=
    .lexeme (t := layoutToken .procEnd "END") lexeme_procEnd (delimited_cons rfl) (.blank rfl hrest)
  have hlines := reads_canonical_body h.body hbody hending
  have hnamed := Reads.lexeme hname (delimited_cons rfl) (.blank (c := '\n') rfl hlines)
  have hopening := Reads.lexeme (t := layoutToken .procBegin "PROC") lexeme_procBegin
    (delimited_cons rfl) (.blank (c := ' ') rfl hnamed)
  simpa [Procedure.canonical, ProcedureTree.procedure, ProcedureTree.canonical,
    ProcedureTree.tokens, layoutToken, List.flatMap_map] using hopening

theorem reads_canonicalText {ts : List ProcedureTree} (h : ∀ t ∈ ts, t.Valid)
    (hlexemes : ∀ x ∈ ts.flatMap ProcedureTree.tokens, x.WellSpelt) :
    Reads (canonicalText (ts.map ProcedureTree.procedure)).toList
      ((ts.map ProcedureTree.canonical).flatMap ProcedureTree.tokens) := by
  induction ts with
  | nil => exact .nil
  | cons t ts ih =>
      obtain ⟨ht, hts⟩ := List.forall_mem_cons.1 h
      obtain ⟨hown, hlater⟩ := List.forall_mem_append.1 hlexemes
      have hread := reads_canonical_procedure ht hown (ih hts hlater)
      simpa [canonicalText] using hread

end RegisterMachine
