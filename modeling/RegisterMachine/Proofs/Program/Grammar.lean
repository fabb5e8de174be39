import Mathlib.Computability.Language
import RegisterMachine.Program.Parse

/-!
# RegisterMachine.Proofs.Program.Grammar

The grammar of programs, and its trees.

```
program   := procedure*
procedure := PROC IDENT statement* [END]
statement := LOAD REG constant | COMBINE REG REG | BRANCH REG REG IDENT
           | JMP IDENT | IDENT COLON | HALT
constant  := INTEGER | FLOAT
```

* `Grammar.program` is the language of these rules, over the kinds of tokens;
* a tree is a statement or a procedure with the tokens that it does not keep: the colon of a label,
  the `proc` and the `end`; `StatementTree.tokens` and `ProcedureTree.tokens` write it back;
* `mem_program_iff` -- the kinds of some tokens are in the language exactly if
  a tree writes the tokens.
-/

namespace RegisterMachine

open Computability

/-! ## The language -/

namespace Grammar

/-- The words of a single token of some kinds. -/
def letter (P : TokenKind → Prop) : Language TokenKind :=
  {w | ∃ k, P k ∧ w = [k]}

def load : Language TokenKind := letter fun k => ∃ type, k = .operation (.load type)

/-- Arithmetic and comparisons. -/
def combine : Language TokenKind :=
  letter fun k =>
    (∃ op type, k = .operation (.arithmetic op type)) ∨ ∃ type, k = .operation (.compare type)

def branch : Language TokenKind := letter fun k => ∃ c type, k = .operation (.branch c type)

def register : Language TokenKind := letter fun k => ∃ r, k = .register r

def constant : Language TokenKind := letter fun k => k = .integer ∨ k = .float

/-- The word of one kind. -/
def only (k : TokenKind) : Language TokenKind := letter (· = k)

def statement : Language TokenKind :=
  load * register * constant +
    combine * register * register +
    branch * register * register * only .identifier +
    only (.operation .jump) * only .identifier +
    only .identifier * only .colon +
    only (.operation .halt)

def procedure : Language TokenKind :=
  only .procBegin * only .identifier * statement∗ * (1 + only .procEnd)

def program : Language TokenKind :=
  procedure∗

end Grammar

/-! ## Trees -/

/-- A statement as it is written: a label has a colon. -/
structure StatementTree where
  statement : Statement
  colon : Option Token

/-- A procedure as it is written. -/
@[ext]
structure ProcedureTree where
  opening : Token
  name : Token
  body : List StatementTree
  ending : Option Token

namespace StatementTree

/-- The tokens of a statement: head, destination, source, target and colon, as
far as they are there. -/
def tokens (t : StatementTree) : List Token :=
  t.statement.head :: (t.statement.destination.toList ++ t.statement.source.toList ++
    t.statement.target.toList ++ t.colon.toList)

/-- The tokens are of the kinds that the grammar asks for, and each stands in its place: a statement
has the operands of its family and no other. -/
inductive Valid : StatementTree → Prop
  | load {type : IntType} {head destination source : Token}
      (hhead : head.kind = .operation (.load type))
      (hdestination : ∃ r, destination.kind = .register r)
      (hsource : source.kind = .integer ∨ source.kind = .float) :
      Valid ⟨⟨head, some destination, some source, none⟩, none⟩
  | arithmetic {op : Arithmetic} {type : IntType} {head destination source : Token}
      (hhead : head.kind = .operation (.arithmetic op type))
      (hdestination : ∃ r, destination.kind = .register r)
      (hsource : ∃ r, source.kind = .register r) :
      Valid ⟨⟨head, some destination, some source, none⟩, none⟩
  | compare {type : IntType} {head left right : Token}
      (hhead : head.kind = .operation (.compare type))
      (hleft : ∃ r, left.kind = .register r) (hright : ∃ r, right.kind = .register r) :
      Valid ⟨⟨head, some left, some right, none⟩, none⟩
  | branch {c : Condition} {type : IntType} {head left right target : Token}
      (hhead : head.kind = .operation (.branch c type)) (hleft : ∃ r, left.kind = .register r)
      (hright : ∃ r, right.kind = .register r) (htarget : target.kind = .identifier) :
      Valid ⟨⟨head, some left, some right, some target⟩, none⟩
  | jump {head target : Token} (hhead : head.kind = .operation .jump)
      (htarget : target.kind = .identifier) : Valid ⟨⟨head, none, none, some target⟩, none⟩
  | label {head colon : Token} (hhead : head.kind = .identifier) (hcolon : colon.kind = .colon) :
      Valid ⟨⟨head, none, none, none⟩, some colon⟩
  | halt {head : Token} (hhead : head.kind = .operation .halt) :
      Valid ⟨⟨head, none, none, none⟩, none⟩

end StatementTree

namespace ProcedureTree

def tokens (t : ProcedureTree) : List Token :=
  t.opening :: t.name :: (t.body.flatMap StatementTree.tokens ++ t.ending.toList)

/-- The procedure that a tree is of. -/
def procedure (t : ProcedureTree) : Procedure :=
  ⟨t.name, t.body.map StatementTree.statement⟩

structure Valid (t : ProcedureTree) : Prop where
  opening : t.opening.kind = .procBegin
  name : t.name.kind = .identifier
  body : ∀ s ∈ t.body, s.Valid
  ending : ∀ e ∈ t.ending, e.kind = .procEnd

end ProcedureTree

/-! ## Words and trees -/

section Words

variable {P : TokenKind → Prop} {l : Language TokenKind} {tokens : List Token}

theorem map_kind_mem_letter :
    tokens.map Token.kind ∈ Grammar.letter P ↔ ∃ t, P t.kind ∧ tokens = [t] := by
  constructor
  · rintro ⟨k, hk, heq⟩
    obtain ⟨t, rfl, rfl⟩ := List.map_eq_singleton_iff.1 heq
    exact ⟨t, hk, rfl⟩
  · rintro ⟨t, ht, rfl⟩
    exact ⟨t.kind, ht, rfl⟩

theorem map_kind_mem_letter_mul :
    tokens.map Token.kind ∈ Grammar.letter P * l ↔
      ∃ t, P t.kind ∧ ∃ later, later.map Token.kind ∈ l ∧ tokens = t :: later := by
  constructor
  · rintro ⟨_, ⟨k, hk, rfl⟩, w, hw, heq⟩
    obtain ⟨t, later, rfl, rfl, rfl⟩ := List.map_eq_cons_iff.1 heq.symm
    exact ⟨t, hk, later, hw, rfl⟩
  · rintro ⟨t, ht, later, hlater, rfl⟩
    exact ⟨[t.kind], ⟨t.kind, ht, rfl⟩, later.map Token.kind, hlater, rfl⟩

theorem mem_statement_iff :
    tokens.map Token.kind ∈ Grammar.statement ↔
      ∃ t : StatementTree, t.Valid ∧ t.tokens = tokens := by
  simp only [Grammar.statement, Grammar.load, Grammar.combine, Grammar.branch, Grammar.register,
    Grammar.constant, Grammar.only, mul_assoc, Language.mem_add, map_kind_mem_letter_mul,
    map_kind_mem_letter]
  constructor
  · rintro (((((h | h) | h) | h) | h) | h)
    · obtain ⟨head, ⟨type, hhead⟩, -, ⟨r, hr, -, ⟨c, hc, rfl⟩, rfl⟩, rfl⟩ := h
      exact ⟨_, .load hhead hr hc, rfl⟩
    · obtain ⟨head, ⟨op, type, hhead⟩ | ⟨type, hhead⟩, -, ⟨r, hr, -, ⟨q, hq, rfl⟩, rfl⟩, rfl⟩ := h
      · exact ⟨_, .arithmetic hhead hr hq, rfl⟩
      · exact ⟨_, .compare hhead hr hq, rfl⟩
    · obtain ⟨head, ⟨c, type, hhead⟩, -, ⟨r, hr, -, ⟨q, hq, -, ⟨t, ht, rfl⟩, rfl⟩, rfl⟩, rfl⟩ := h
      exact ⟨_, .branch hhead hr hq ht, rfl⟩
    · obtain ⟨head, hhead, -, ⟨t, ht, rfl⟩, rfl⟩ := h
      exact ⟨_, .jump hhead ht, rfl⟩
    · obtain ⟨head, hhead, -, ⟨colon, hcolon, rfl⟩, rfl⟩ := h
      exact ⟨_, .label hhead hcolon, rfl⟩
    · obtain ⟨head, hhead, rfl⟩ := h
      exact ⟨_, .halt hhead, rfl⟩
  · rintro ⟨t, h, rfl⟩
    cases h with
    | load hhead hr hc =>
        exact .inl <| .inl <| .inl <| .inl <| .inl
          ⟨_, ⟨_, hhead⟩, _, ⟨_, hr, _, ⟨_, hc, rfl⟩, rfl⟩, rfl⟩
    | arithmetic hhead hr hq =>
        exact .inl <| .inl <| .inl <| .inl <| .inr
          ⟨_, .inl ⟨_, _, hhead⟩, _, ⟨_, hr, _, ⟨_, hq, rfl⟩, rfl⟩, rfl⟩
    | compare hhead hr hq =>
        exact .inl <| .inl <| .inl <| .inl <| .inr
          ⟨_, .inr ⟨_, hhead⟩, _, ⟨_, hr, _, ⟨_, hq, rfl⟩, rfl⟩, rfl⟩
    | branch hhead hr hq ht =>
        exact .inl <| .inl <| .inl <| .inr
          ⟨_, ⟨_, _, hhead⟩, _, ⟨_, hr, _, ⟨_, hq, _, ⟨_, ht, rfl⟩, rfl⟩, rfl⟩, rfl⟩
    | jump hhead ht => exact .inl <| .inl <| .inr ⟨_, hhead, _, ⟨_, ht, rfl⟩, rfl⟩
    | label hhead hcolon => exact .inl <| .inr ⟨_, hhead, _, ⟨_, hcolon, rfl⟩, rfl⟩
    | halt hhead => exact .inr ⟨_, hhead, rfl⟩

/-- If the words of a language are written by trees, repeated words are
written by lists of trees. -/
theorem mem_kstar_iff {α : Type} {valid : α → Prop} {write : α → List Token}
    (h : ∀ tokens : List Token, tokens.map Token.kind ∈ l ↔ ∃ x, valid x ∧ write x = tokens) :
    tokens.map Token.kind ∈ l∗ ↔
      ∃ xs : List α, (∀ x ∈ xs, valid x) ∧ xs.flatMap write = tokens := by
  rw [Language.mem_kstar]
  constructor
  · rintro ⟨words, heq, hwords⟩
    induction words generalizing tokens with
    | nil => exact ⟨[], by simp, (List.map_eq_nil_iff.1 heq).symm⟩
    | cons w words ih =>
        obtain ⟨own, later, rfl, rfl, hlater⟩ := List.map_eq_append_iff.1 heq
        obtain ⟨x, hx, rfl⟩ := (h own).1 (hwords _ List.mem_cons_self)
        obtain ⟨xs, hxs, rfl⟩ := ih hlater fun w hw => hwords w (List.mem_cons_of_mem _ hw)
        exact ⟨x :: xs, List.forall_mem_cons.2 ⟨hx, hxs⟩, rfl⟩
  · rintro ⟨xs, hxs, rfl⟩
    refine ⟨xs.map fun x => (write x).map Token.kind, ?_, fun w hw => ?_⟩
    · rw [List.map_flatMap, List.flatMap_def]
    · obtain ⟨x, hx, rfl⟩ := List.mem_map.1 hw
      exact (h _).2 ⟨x, hxs x hx, rfl⟩

theorem mem_procedure_iff :
    tokens.map Token.kind ∈ Grammar.procedure ↔
      ∃ t : ProcedureTree, t.Valid ∧ t.tokens = tokens := by
  simp only [Grammar.procedure, Grammar.only, mul_assoc, map_kind_mem_letter_mul]
  constructor
  · rintro ⟨opening, hopening, -, ⟨name, hname, later, ⟨w, hw, v, hv, heq⟩, rfl⟩, rfl⟩
    obtain ⟨own, ending, rfl, rfl, rfl⟩ := List.map_eq_append_iff.1 heq.symm
    obtain ⟨body, hbody, rfl⟩ := (mem_kstar_iff fun _ => mem_statement_iff).1 hw
    rcases hv with hv | hv
    · refine ⟨⟨opening, name, body, none⟩, ⟨hopening, hname, hbody, by simp⟩, ?_⟩
      rw [ProcedureTree.tokens, List.map_eq_nil_iff.1 hv]
      rfl
    · obtain ⟨e, he, rfl⟩ := map_kind_mem_letter.1 hv
      exact ⟨⟨opening, name, body, some e⟩, ⟨hopening, hname, hbody, by simpa using he⟩, rfl⟩
  · rintro ⟨t, h, rfl⟩
    have hbody : (t.body.flatMap StatementTree.tokens).map Token.kind ∈ Grammar.statement∗ :=
      (mem_kstar_iff fun _ => mem_statement_iff).2 ⟨t.body, h.body, rfl⟩
    have hending : t.ending.toList.map Token.kind ∈ 1 + Grammar.letter (· = .procEnd) := by
      cases he : t.ending with
      | none => exact .inl rfl
      | some e => exact .inr (map_kind_mem_letter.2 ⟨e, h.ending e he, rfl⟩)
    refine ⟨_, h.opening, _, ⟨_, h.name, _, ?_, rfl⟩, rfl⟩
    rw [List.map_append]
    exact Language.append_mem_mul hbody hending

/-- The kinds of some tokens are in the language of programs exactly if trees write the tokens. -/
theorem mem_program_iff :
    tokens.map Token.kind ∈ Grammar.program ↔
      ∃ ts : List ProcedureTree, (∀ t ∈ ts, t.Valid) ∧ ts.flatMap ProcedureTree.tokens = tokens :=
  mem_kstar_iff fun _ => mem_procedure_iff

end Words

end RegisterMachine
