import Mathlib.Data.List.Forall2
import RegisterMachine.Proofs.Program.Grammar
import RegisterMachine.SourceUnit

/-!
# RegisterMachine.Proofs.Program.Parse

Parsing finds the tree of a list of tokens.

Statements, bodies and procedures are read off the front of the tokens exactly if a tree writes that
front, and what follows does not go on with it. A body ends at a token that heads no statement, so
trees are told apart by the tokens alone (`ProcedureTree.flatMap_tokens_inj`).
-/

namespace RegisterMachine

variable {mark : EndMark} {tokens rest : List Token}

/-! ## Statements -/

theorem accepts_register_iff {k : TokenKind} :
    Expectation.register.accepts k ↔ ∃ r, k = .register r := by
  cases k <;> simp [Expectation.accepts, TokenKind.isRegister]

theorem accepts_constant_iff {k : TokenKind} :
    Expectation.constant.accepts k ↔ k = .integer ∨ k = .float := by
  cases k <;> simp [Expectation.accepts, TokenKind.isConstant]

theorem accepts_kind_iff {k k' : TokenKind} : (Expectation.kind k).accepts k' ↔ k' = k := by
  simp [Expectation.accepts]

/-- Filled slots take one token each, which becomes the operand of the slot. -/
theorem exists_of_fillSlots {slots : List Slot} {s s' : Statement}
    (h : fillSlots mark slots s tokens = (.ok s', rest)) :
    ∃ own, List.Forall₂ (fun slot t => slot.expects.accepts t.kind) slots own ∧
      tokens = own ++ rest ∧ s' = (slots.zip own).foldl (fun s (slot, t) => slot.assign s t) s := by
  induction slots generalizing s tokens with
  | nil =>
      cases h
      exact ⟨[], .nil, rfl, rfl⟩
  | cons slot slots ih =>
      cases tokens with
      | nil => cases h
      | cons t tokens =>
          rw [fillSlots] at h
          split at h
          next ht =>
            obtain ⟨own, hown, rfl, rfl⟩ := ih h
            exact ⟨t :: own, .cons ht hown, rfl, rfl⟩
          next => cases h

namespace StatementTree

/-- A tree is read off the front of the tokens that it writes. -/
theorem parseStatement_tokens (mark : EndMark) {t : StatementTree} (h : t.Valid)
    (rest : List Token) :
    parseStatement mark (t.tokens ++ rest) = (.parsed t.statement, rest) := by
  cases h <;>
    simp_all [tokens, parseStatement, TokenKind.form?, Form.slots, fillSlots, Slot.assign,
      Statement.withOperand, accepts_register_iff, accepts_constant_iff, accepts_kind_iff]

end StatementTree

theorem eq_identifier_of_form? {k : TokenKind} (h : k.form? = some .label) : k = .identifier := by
  cases k <;> simp_all [TokenKind.form?]

theorem eq_operation_of_form? {k : TokenKind} {m : Mnemonic} (h : k.form? = some (.operation m)) :
    k = .operation m := by
  cases k <;> simp_all [TokenKind.form?]

/-- Tokens that fit the slots of a head are written by a tree. -/
theorem exists_tree_of_fits {head : Token} {form : Form} {own : List Token}
    (hform : head.kind.form? = some form)
    (hown : List.Forall₂ (fun slot t => slot.expects.accepts t.kind) form.slots own) :
    ∃ t : StatementTree, t.Valid ∧ t.tokens = head :: own ∧
      t.statement = (form.slots.zip own).foldl (fun s (slot, t) => slot.assign s t) { head } := by
  cases form with
  | label =>
      simp only [Form.slots, List.forall₂_cons_left_iff, List.forall₂_nil_left_iff,
        accepts_kind_iff] at hown
      obtain ⟨colon, -, hcolon, rfl, rfl⟩ := hown
      exact ⟨_, .label (eq_identifier_of_form? hform) hcolon, rfl, rfl⟩
  | operation m =>
      have hhead := eq_operation_of_form? hform
      cases m with
      | load type =>
          simp only [Form.slots, List.forall₂_cons_left_iff, List.forall₂_nil_left_iff,
            accepts_register_iff, accepts_constant_iff] at hown
          obtain ⟨destination, -, hdestination, ⟨source, -, hsource, rfl, rfl⟩, rfl⟩ := hown
          exact ⟨_, .load hhead hdestination hsource, rfl, rfl⟩
      | arithmetic op type =>
          simp only [Form.slots, List.forall₂_cons_left_iff, List.forall₂_nil_left_iff,
            accepts_register_iff] at hown
          obtain ⟨destination, -, hdestination, ⟨source, -, hsource, rfl, rfl⟩, rfl⟩ := hown
          exact ⟨_, .arithmetic hhead hdestination hsource, rfl, rfl⟩
      | compare type =>
          simp only [Form.slots, List.forall₂_cons_left_iff, List.forall₂_nil_left_iff,
            accepts_register_iff] at hown
          obtain ⟨left, -, hleft, ⟨right, -, hright, rfl, rfl⟩, rfl⟩ := hown
          exact ⟨_, .compare hhead hleft hright, rfl, rfl⟩
      | branch c type =>
          simp only [Form.slots, List.forall₂_cons_left_iff, List.forall₂_nil_left_iff,
            accepts_register_iff, accepts_kind_iff] at hown
          obtain ⟨left, -, hleft, ⟨right, -, hright, ⟨target, -, htarget, rfl, rfl⟩, rfl⟩, rfl⟩ :=
            hown
          exact ⟨_, .branch hhead hleft hright htarget, rfl, rfl⟩
      | jump =>
          simp only [Form.slots, List.forall₂_cons_left_iff, List.forall₂_nil_left_iff,
            accepts_kind_iff] at hown
          obtain ⟨target, -, htarget, rfl, rfl⟩ := hown
          exact ⟨_, .jump hhead htarget, rfl, rfl⟩
      | halt =>
          cases hown
          exact ⟨_, .halt hhead, rfl, rfl⟩

/-- What is parsed is written by a tree at the front of the tokens. -/
theorem exists_tree_of_parseStatement {s : Statement}
    (h : parseStatement mark tokens = (.parsed s, rest)) :
    ∃ t : StatementTree, t.Valid ∧ t.statement = s ∧ t.tokens ++ rest = tokens := by
  unfold parseStatement at h
  split at h
  next => cases h
  next head later =>
    split at h
    next => cases h
    next form hform =>
      split at h
      next s' rest' hfill =>
        cases h
        obtain ⟨own, hown, rfl, rfl⟩ := exists_of_fillSlots hfill
        obtain ⟨t, ht, htokens, hstatement⟩ := exists_tree_of_fits hform hown
        exact ⟨t, ht, hstatement, by rw [htokens, List.cons_append]⟩
      next => cases h

/-! ## Bodies -/

/-- The front of the tokens heads no statement. -/
def HeadsNone (tokens : List Token) : Prop :=
  ∀ t ∈ tokens.head?, t.kind.form? = none

theorem parseStatement_eq_noStatement (mark : EndMark) (h : HeadsNone tokens) :
    parseStatement mark tokens = (.noStatement, tokens) := by
  cases tokens with
  | nil => rfl
  | cons t tokens =>
      rw [parseStatement]
      simp only [h t rfl]

/-- Where there is no statement, nothing is taken. -/
theorem headsNone_of_parseStatement (h : parseStatement mark tokens = (.noStatement, rest)) :
    rest = tokens ∧ HeadsNone rest := by
  unfold parseStatement at h
  split at h
  next =>
    cases h
    exact ⟨rfl, by simp [HeadsNone]⟩
  next head later =>
    split at h
    next hform =>
      cases h
      exact ⟨rfl, by simpa [HeadsNone] using hform⟩
    next => split at h <;> cases h

theorem parseBody_flatMap_tokens (mark : EndMark) {ts : List StatementTree} (h : ∀ t ∈ ts, t.Valid)
    (hrest : HeadsNone rest) :
    parseBody mark (ts.flatMap StatementTree.tokens ++ rest) =
      ⟨ts.map StatementTree.statement, none, rest⟩ := by
  induction ts with
  | nil =>
      have hnone := parseStatement_eq_noStatement mark hrest
      rw [List.flatMap_nil, List.nil_append, parseBody]
      split <;> simp_all
  | cons t ts ih =>
      have hfirst := StatementTree.parseStatement_tokens mark (h t List.mem_cons_self)
        (ts.flatMap StatementTree.tokens ++ rest)
      have hlater := ih fun t ht => h t (List.mem_cons_of_mem _ ht)
      rw [List.flatMap_cons, List.append_assoc, parseBody]
      split <;> simp_all

theorem exists_trees_of_parseBody (h : (parseBody mark tokens).report = none) :
    ∃ ts : List StatementTree, (∀ t ∈ ts, t.Valid) ∧
      ts.map StatementTree.statement = (parseBody mark tokens).statements ∧
      ts.flatMap StatementTree.tokens ++ (parseBody mark tokens).rest = tokens ∧
      HeadsNone (parseBody mark tokens).rest := by
  fun_induction parseBody mark tokens with
  | case1 tokens s rest hs body ih =>
      obtain ⟨t, ht, rfl, rfl⟩ := exists_tree_of_parseStatement hs
      obtain ⟨ts, hts, hstatements, htokens, hrest⟩ := ih h
      refine ⟨t :: ts, List.forall_mem_cons.2 ⟨ht, hts⟩, congrArg _ hstatements, ?_, hrest⟩
      rw [List.flatMap_cons, List.append_assoc, htokens]
  | case2 tokens rest hs =>
      obtain ⟨rfl, hnone⟩ := headsNone_of_parseStatement hs
      exact ⟨[], by simp, rfl, rfl, hnone⟩
  | case3 tokens report rest hs => cases h

/-! ## Procedures -/

/-- The tokens are empty, or a procedure begins with the first of them. -/
def BeginsProcedure (tokens : List Token) : Prop :=
  ∀ t ∈ tokens.head?, t.kind = .procBegin

theorem takeToken_cons {what : Expectation} {t : Token} (h : what.accepts t.kind)
    (rest : List Token) :
    takeToken mark what (t :: rest) = .ok (t, rest) :=
  if_pos h

theorem accepts_of_takeToken {what : Expectation} {t : Token}
    (h : takeToken mark what tokens = .ok (t, rest)) :
    what.accepts t.kind ∧ tokens = t :: rest := by
  unfold takeToken at h
  split at h
  next =>
    split at h
    next ht =>
      cases h
      exact ⟨ht, rfl⟩
    next => cases h
  next => cases h

theorem dropEnd_cons {t : Token} (h : t.kind = .procEnd) (rest : List Token) :
    dropEnd (t :: rest) = rest :=
  if_pos h

theorem dropEnd_of_head? (h : ∀ t ∈ rest.head?, t.kind ≠ .procEnd) : dropEnd rest = rest := by
  cases rest with
  | nil => rfl
  | cons t rest => exact if_neg (h t rfl)

theorem exists_ending_of_dropEnd (tokens : List Token) :
    ∃ ending : Option Token, (∀ e ∈ ending, e.kind = .procEnd) ∧
      ending.toList ++ dropEnd tokens = tokens ∧
      (ending = none → ∀ t ∈ tokens.head?, t.kind ≠ .procEnd) := by
  cases tokens with
  | nil => exact ⟨none, by simp, rfl, by simp⟩
  | cons t tokens =>
      by_cases h : t.kind = .procEnd
      · refine ⟨some t, by simpa using h, ?_, nofun⟩
        rw [dropEnd_cons h]
        rfl
      · exact ⟨none, by simp, if_neg h, by simpa using h⟩

/-- What follows does not go on with the procedure, neither with a statement nor with an `end`. -/
def ProcedureTree.EndsBefore (t : ProcedureTree) (rest : List Token) : Prop :=
  t.ending = none → HeadsNone rest ∧ ∀ r ∈ rest.head?, r.kind ≠ .procEnd

theorem BeginsProcedure.endsBefore (h : BeginsProcedure rest) (t : ProcedureTree) :
    t.EndsBefore rest := by
  intro _
  constructor <;> intro r hr <;> rw [h r hr]
  · rfl
  · exact TokenKind.noConfusion

/-- Neither an `end` nor what follows the procedure goes on with its body. -/
theorem headsNone_ending {t : ProcedureTree} (h : t.Valid) (hrest : t.EndsBefore rest) :
    HeadsNone (t.ending.toList ++ rest) := by
  cases he : t.ending with
  | none => exact (hrest he).1
  | some e =>
      rintro b ⟨rfl⟩
      rw [h.ending e he]
      rfl

namespace ProcedureTree

theorem parseProcedure_tokens (mark : EndMark) {t : ProcedureTree} (h : t.Valid)
    (hrest : t.EndsBefore rest) :
    parseProcedure mark (t.tokens ++ rest) = ⟨some t.procedure, none, rest⟩ := by
  have hbody : parseBody mark (t.body.flatMap StatementTree.tokens ++ (t.ending.toList ++ rest)) =
      ⟨t.body.map StatementTree.statement, none, t.ending.toList ++ rest⟩ :=
    parseBody_flatMap_tokens mark h.body (headsNone_ending h hrest)
  have hend : dropEnd (t.ending.toList ++ rest) = rest := by
    cases he : t.ending with
    | none => exact dropEnd_of_head? (hrest he).2
    | some e => exact dropEnd_cons (h.ending e he) rest
  rw [tokens, List.cons_append, List.cons_append, List.append_assoc, parseProcedure,
    takeToken_cons (accepts_kind_iff.2 h.opening)]
  simp only [takeToken_cons (accepts_kind_iff.2 h.name), hbody, hend]
  rfl

end ProcedureTree

theorem exists_tree_of_parseProcedure (h : (parseProcedure mark tokens).report = none) :
    ∃ t : ProcedureTree, t.Valid ∧ (parseProcedure mark tokens).procedure = some t.procedure ∧
      t.tokens ++ (parseProcedure mark tokens).rest = tokens ∧
      t.EndsBefore (parseProcedure mark tokens).rest := by
  unfold parseProcedure at *
  split at h
  next => cases h
  next opening afterBegin hbegin =>
    split at h
    next => cases h
    next name afterName hname =>
      obtain ⟨hopening, rfl⟩ := accepts_of_takeToken hbegin
      obtain ⟨hidentifier, rfl⟩ := accepts_of_takeToken hname
      obtain ⟨body, hbody, hstatements, htokens, hnone⟩ := exists_trees_of_parseBody h
      obtain ⟨ending, hending, hrest, hend⟩ :=
        exists_ending_of_dropEnd (parseBody mark afterName).rest
      refine ⟨⟨opening, name, body, ending⟩,
        ⟨accepts_kind_iff.1 hopening, accepts_kind_iff.1 hidentifier, hbody, hending⟩, ?_, ?_, ?_⟩
      · simp only [ProcedureTree.procedure, hstatements]
      · simp only [ProcedureTree.tokens, List.cons_append, List.append_assoc, hrest, htokens]
      · intro he
        have he : ending = none := he
        dsimp only
        rw [dropEnd_of_head? (hend he)]
        exact ⟨hnone, hend he⟩

/-! ## Programs -/

theorem beginsProcedure_flatMap_tokens {ts : List ProcedureTree} (h : ∀ t ∈ ts, t.Valid) :
    BeginsProcedure (ts.flatMap ProcedureTree.tokens) := by
  cases ts with
  | nil => simp [BeginsProcedure]
  | cons t ts =>
      rintro b ⟨rfl⟩
      exact (h t List.mem_cons_self).opening

/-- Parsing takes the procedures of the trees that write the tokens. -/
theorem parseProgram_flatMap_tokens (mark : EndMark) {ts : List ProcedureTree}
    (h : ∀ t ∈ ts, t.Valid) :
    parseProgram mark (ts.flatMap ProcedureTree.tokens) =
      (ts.map ProcedureTree.procedure, none) := by
  induction ts with
  | nil =>
      rw [List.flatMap_nil, parseProgram]
      rfl
  | cons t ts ih =>
      have hts : ∀ t ∈ ts, t.Valid := fun t ht => h t (List.mem_cons_of_mem _ ht)
      have hfirst := t.parseProcedure_tokens mark (h t List.mem_cons_self)
        ((beginsProcedure_flatMap_tokens hts).endsBefore t)
      rw [List.flatMap_cons, parseProgram, if_neg (by simp [ProcedureTree.tokens])]
      dsimp only
      split
      next report hreport => simp [hfirst] at hreport
      next =>
        simp only [hfirst, ih hts]
        rfl

theorem exists_trees_of_parseProgram (h : (parseProgram mark tokens).2 = none) :
    ∃ ts : List ProcedureTree, (∀ t ∈ ts, t.Valid) ∧
      ts.map ProcedureTree.procedure = (parseProgram mark tokens).1 ∧
      ts.flatMap ProcedureTree.tokens = tokens := by
  fun_induction parseProgram mark tokens with
  | case1 tokens hempty => exact ⟨[], by simp, rfl, (List.isEmpty_iff.1 hempty).symm⟩
  | case2 => cases h
  | case3 tokens hne first hreport procedures report hlater ih =>
      obtain ⟨t, ht, hprocedure, htokens, -⟩ := exists_tree_of_parseProcedure hreport
      rw [hlater] at ih
      obtain ⟨ts, hts, hprocedures, hrest⟩ := ih h
      refine ⟨t :: ts, List.forall_mem_cons.2 ⟨ht, hts⟩, ?_, ?_⟩
      · show t.procedure :: ts.map ProcedureTree.procedure = first.procedure.toList ++ procedures
        rw [hprocedure, hprocedures]
        rfl
      · rw [List.flatMap_cons, hrest, htokens]

/-! ## One tree at most -/

theorem eq_of_toList_eq {α : Type} {a b : Option α} (h : a.toList = b.toList) : a = b := by
  cases a <;> cases b <;> simp_all

/-- A statement is told apart from what follows it. -/
theorem StatementTree.append_inj {t t' : StatementTree} {rest' : List Token} (h : t.Valid)
    (h' : t'.Valid) (heq : t.tokens ++ rest = t'.tokens ++ rest') : t = t' ∧ rest = rest' := by
  have hparse := parseStatement_tokens (.ofTokens []) h rest
  rw [heq, parseStatement_tokens _ h' rest'] at hparse
  injection hparse with hstatement hrest
  injection hstatement with hstatement
  subst hrest
  obtain ⟨s, colon⟩ := t
  obtain ⟨s', colon'⟩ := t'
  cases hstatement
  have hcolon := List.append_cancel_left (List.cons.inj (List.append_cancel_right heq)).2
  exact ⟨congrArg _ (eq_of_toList_eq hcolon), rfl⟩

theorem StatementTree.flatMap_tokens_append_inj {ts ts' : List StatementTree} {rest' : List Token}
    (h : ∀ t ∈ ts, t.Valid) (h' : ∀ t ∈ ts', t.Valid) (hrest : HeadsNone rest)
    (hrest' : HeadsNone rest')
    (heq : ts.flatMap StatementTree.tokens ++ rest = ts'.flatMap StatementTree.tokens ++ rest') :
    ts = ts' ∧ rest = rest' := by
  have hparse := parseBody_flatMap_tokens (.ofTokens []) h hrest
  rw [heq, parseBody_flatMap_tokens _ h' hrest'] at hparse
  injection hparse with hstatements _ hlater
  refine ⟨?_, hlater.symm⟩
  induction ts generalizing ts' with
  | nil => exact (List.map_eq_nil_iff.1 hstatements).symm
  | cons t ts ih =>
      obtain ⟨t', ts', rfl, -, hlater⟩ := List.map_eq_cons_iff.1 hstatements
      rw [List.flatMap_cons, List.flatMap_cons, List.append_assoc, List.append_assoc] at heq
      obtain ⟨hvalid, hvalids⟩ := List.forall_mem_cons.1 h
      obtain ⟨hvalid', hvalids'⟩ := List.forall_mem_cons.1 h'
      obtain ⟨rfl, htokens⟩ := append_inj hvalid hvalid' heq
      rw [ih hvalids hvalids' htokens hlater]

/-- A procedure is told apart from the one that follows it. -/
theorem ProcedureTree.append_inj {t t' : ProcedureTree} {rest' : List Token} (h : t.Valid)
    (h' : t'.Valid) (hrest : BeginsProcedure rest) (hrest' : BeginsProcedure rest')
    (heq : t.tokens ++ rest = t'.tokens ++ rest') : t = t' ∧ rest = rest' := by
  have hparse := parseProcedure_tokens (.ofTokens []) h (hrest.endsBefore t)
  rw [heq, parseProcedure_tokens _ h' (hrest'.endsBefore t')] at hparse
  injection hparse with _ _ hlater
  subst hlater
  have htokens := List.append_cancel_right heq
  injection htokens with hopening htokens
  injection htokens with hname htokens
  have hnone (t : ProcedureTree) (h : t.Valid) : HeadsNone t.ending.toList := by
    have hnil : BeginsProcedure [] := by simp [BeginsProcedure]
    simpa using headsNone_ending h (hnil.endsBefore t)
  obtain ⟨hbody, hending⟩ :=
    StatementTree.flatMap_tokens_append_inj h.body h'.body (hnone _ h) (hnone _ h') htokens
  exact ⟨ProcedureTree.ext hopening hname hbody (eq_of_toList_eq hending), rfl⟩

/-- Some tokens are written by one list of trees at most. -/
theorem ProcedureTree.flatMap_tokens_inj {ts ts' : List ProcedureTree} (h : ∀ t ∈ ts, t.Valid)
    (h' : ∀ t ∈ ts', t.Valid)
    (heq : ts.flatMap ProcedureTree.tokens = ts'.flatMap ProcedureTree.tokens) : ts = ts' := by
  have hparse := parseProgram_flatMap_tokens (.ofTokens []) h
  rw [heq, parseProgram_flatMap_tokens _ h'] at hparse
  injection hparse with hprocedures
  induction ts generalizing ts' with
  | nil => exact (List.map_eq_nil_iff.1 hprocedures).symm
  | cons t ts ih =>
      obtain ⟨t', ts', rfl, -, hlater⟩ := List.map_eq_cons_iff.1 hprocedures
      obtain ⟨hvalid, hvalids⟩ := List.forall_mem_cons.1 h
      obtain ⟨hvalid', hvalids'⟩ := List.forall_mem_cons.1 h'
      obtain ⟨rfl, htokens⟩ := append_inj hvalid hvalid' (beginsProcedure_flatMap_tokens hvalids)
        (beginsProcedure_flatMap_tokens hvalids') heq
      rw [ih hvalids hvalids' htokens hlater]

/-! ## Units -/

namespace SourceUnit

variable {u : SourceUnit}

theorem parse_of_isClean (h : u.isClean) :
    u.parse = { u with
      procedures := u.procedures ++ (parseProgram u.endMark u.tokens).1
      diagnostics := u.diagnostics ++ (parseProgram u.endMark u.tokens).2.toList } :=
  if_pos h

theorem isClean_parse_iff (h : u.isClean) :
    u.parse.isClean ↔ (parseProgram u.endMark u.tokens).2 = none := by
  rw [parse_of_isClean h, isClean, List.isEmpty_iff, List.append_eq_nil_iff,
    Option.toList_eq_nil_iff]
  exact and_iff_right (List.isEmpty_iff.1 h)

/-- **Parsing accepts exactly the grammar, and finds the tree.** A unit of which nothing was
reported and parsed yet parses without a report exactly if the kinds of its tokens are a word of
the grammar. Then the procedures are those of trees that write the tokens, token for token, and no
other trees write them. -/
theorem isClean_parse_iff_mem_program (hclean : u.diagnostics = []) (hnone : u.procedures = []) :
    (u.parse.isClean ↔ u.tokens.map Token.kind ∈ Grammar.program) ∧
      (u.parse.isClean → ∃ ts : List ProcedureTree,
        u.parse.procedures = ts.map ProcedureTree.procedure ∧
          ((∀ t ∈ ts, t.Valid) ∧ ts.flatMap ProcedureTree.tokens = u.tokens) ∧
          ∀ ts' : List ProcedureTree, (∀ t ∈ ts', t.Valid) ∧
            ts'.flatMap ProcedureTree.tokens = u.tokens → ts' = ts) := by
  have hu : u.isClean := List.isEmpty_iff.2 hclean
  rw [isClean_parse_iff hu]
  refine ⟨?_, fun hreport => ?_⟩
  · rw [mem_program_iff]
    constructor
    · intro hreport
      obtain ⟨ts, hvalid, -, htokens⟩ := exists_trees_of_parseProgram hreport
      exact ⟨ts, hvalid, htokens⟩
    · rintro ⟨ts, hvalid, htokens⟩
      rw [← htokens, parseProgram_flatMap_tokens _ hvalid]
  · obtain ⟨ts, hvalid, hprocedures, htokens⟩ := exists_trees_of_parseProgram hreport
    refine ⟨ts, ?_, ⟨hvalid, htokens⟩, fun ts' ⟨hvalid', htokens'⟩ => ?_⟩
    · rw [parse_of_isClean hu, hnone, hprocedures, List.nil_append]
    · exact ProcedureTree.flatMap_tokens_inj hvalid' hvalid (htokens'.trans htokens.symm)

end SourceUnit

/-- A procedure without an `end` that jumps to its own label, and an empty one behind it. -/
def openEndedTrees : List ProcedureTree :=
  let token (kind : TokenKind) (text : String) : Token := ⟨kind, text, .origin, ⟨0, 0⟩⟩
  let name := token .identifier
  let opening := token .procBegin "proc"
  [⟨opening, name "spin", [⟨⟨name "again", none, none, none⟩, some (token .colon ":")⟩,
      ⟨⟨token (.operation .jump) "jmp", none, none, some (name "again")⟩, none⟩], none⟩,
    ⟨opening, name "empty", [], some (token .procEnd "end")⟩]

theorem parse_openEndedTrees :
    let u :=
      { SourceUnit.ofContent "" "" with tokens := openEndedTrees.flatMap ProcedureTree.tokens }
    u.diagnostics = [] ∧ u.procedures = [] ∧ u.tokens.map Token.kind ∈ Grammar.program ∧
      u.parse.isClean ∧ u.parse.procedures = openEndedTrees.map ProcedureTree.procedure := by
  intro u
  have hvalid : ∀ t ∈ openEndedTrees, t.Valid := by
    refine List.forall_mem_cons.2 ⟨⟨rfl, rfl, ?_, by simp⟩,
      List.forall_mem_singleton.2 ⟨rfl, rfl, by simp, by rintro e ⟨rfl⟩; rfl⟩⟩
    exact List.forall_mem_cons.2 ⟨.label rfl rfl, List.forall_mem_singleton.2 (.jump rfl rfl)⟩
  have hmem : u.tokens.map Token.kind ∈ Grammar.program := mem_program_iff.2 ⟨_, hvalid, rfl⟩
  obtain ⟨hiff, htrees⟩ := SourceUnit.isClean_parse_iff_mem_program (u := u) rfl rfl
  have hclean := hiff.2 hmem
  obtain ⟨ts, hprocedures, -, hunique⟩ := htrees hclean
  rw [hprocedures, ← hunique _ ⟨hvalid, rfl⟩]
  exact ⟨rfl, rfl, hmem, hclean, rfl⟩

end RegisterMachine
