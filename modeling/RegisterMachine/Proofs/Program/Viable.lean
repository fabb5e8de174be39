import RegisterMachine.Proofs.Program.Stop

/-!
# RegisterMachine.Proofs.Program.Viable

A syntax error is found at the first token that makes one.

Kinds of tokens are viable as long as a word of the grammar begins with them (`Grammar.Viable`).
Parsing stops at the first token with which the tokens are viable no longer, since

* whatever is asked for there would have gone on with the tokens before it (`Stops.viable`), but
* no tokens that go on with the one that was found are written by trees (`Stops.not_viable`).
-/

namespace RegisterMachine

namespace Grammar

/-- Kinds with which a word of the grammar begins. -/
def Viable (kinds : List TokenKind) : Prop :=
  ∃ later, kinds ++ later ∈ program

/-- Kinds with which a procedure begins, but does not end. -/
structure Unfinished (kinds : List TokenKind) : Prop where
  begun : ∃ later, kinds ++ later ∈ procedure
  ne_nil : kinds ≠ []
  not_mem : kinds ∉ procedure

theorem Viable.of_append {kinds later : List TokenKind} (h : Viable (kinds ++ later)) :
    Viable kinds := by
  obtain ⟨last, hlast⟩ := h
  exact ⟨later ++ last, by rwa [List.append_assoc] at hlast⟩

end Grammar

/-! ## Going on -/

/-- A token of a kind, without a text and a place of its own. -/
def Token.ofKind (k : TokenKind) : Token :=
  ⟨k, "", .origin, ⟨0, 0⟩⟩

theorem map_kind_map_ofKind (kinds : List TokenKind) :
    (kinds.map Token.ofKind).map Token.kind = kinds := by
  simp [Token.ofKind, Function.comp_def]

/-- Tokens are viable exactly if trees write them with others behind. -/
theorem viable_iff {tokens : List Token} :
    Grammar.Viable (tokens.map Token.kind) ↔
      ∃ (ts : List ProcedureTree) (later : List Token), (∀ t ∈ ts, t.Valid) ∧
        ts.flatMap ProcedureTree.tokens = tokens ++ later := by
  constructor
  · rintro ⟨later, hlater⟩
    rw [← map_kind_map_ofKind later, ← List.map_append] at hlater
    obtain ⟨ts, hts, htokens⟩ := mem_program_iff.1 hlater
    exact ⟨ts, later.map Token.ofKind, hts, htokens⟩
  · rintro ⟨ts, later, hts, htokens⟩
    refine ⟨later.map Token.kind, ?_⟩
    rw [← List.map_append, ← htokens]
    exact mem_program_iff.2 ⟨ts, hts, rfl⟩

/-- Whatever the grammar asks for, there is a token of that kind. -/
theorem exists_accepts (what : Expectation) : ∃ t : Token, what.accepts t.kind := by
  cases what with
  | kind k => exact ⟨.ofKind k, accepts_kind_iff.2 rfl⟩
  | register => exact ⟨.ofKind (.register .r0), rfl⟩
  | constant => exact ⟨.ofKind .integer, rfl⟩

theorem exists_fits (slots : List Slot) :
    ∃ own : List Token, List.Forall₂ (fun slot t => slot.expects.accepts t.kind) slots own := by
  induction slots with
  | nil => exact ⟨[], .nil⟩
  | cons slot slots ih =>
      obtain ⟨t, ht⟩ := exists_accepts slot.expects
      obtain ⟨own, hown⟩ := ih
      exact ⟨t :: own, .cons ht hown⟩

section

variable {own : List Token} {what : Expectation} {t : Token}

/-- What a statement asks for next goes on with it. -/
theorem OpenStatement.exists_tree (h : OpenStatement own what) (ht : what.accepts t.kind) :
    ∃ (s : StatementTree) (later : List Token), s.Valid ∧ s.tokens = own ++ t :: later := by
  obtain @⟨head, form, filled, unfilled, slot, own, hform, hslots, hown⟩ := h
  obtain ⟨later, hlater⟩ := exists_fits unfilled
  have hall : List.Forall₂ (fun slot t => slot.expects.accepts t.kind) form.slots
      (own ++ t :: later) := by
    rw [hslots]
    exact List.rel_append hown (.cons ht hlater)
  obtain ⟨s, hs, htokens, -⟩ := exists_tree_of_fits hform hall
  exact ⟨s, later, hs, htokens⟩

/-- What a procedure asks for next goes on with it. -/
theorem OpenProcedure.exists_tree (h : OpenProcedure own what) (ht : what.accepts t.kind) :
    ∃ (p : ProcedureTree) (later : List Token), p.Valid ∧ p.tokens = own ++ t :: later := by
  cases h with
  | unopened =>
      exact ⟨⟨t, .ofKind .identifier, [], none⟩, _,
        ⟨accepts_kind_iff.1 ht, rfl, by simp, by simp⟩, rfl⟩
  | @unnamed opening hopening =>
      exact ⟨⟨opening, t, [], none⟩, _, ⟨hopening, accepts_kind_iff.1 ht, by simp, by simp⟩, rfl⟩
  | @body opening name ts _ _ hopening hname hts hown =>
      obtain ⟨s, later, hs, htokens⟩ := hown.exists_tree ht
      refine ⟨⟨opening, name, ts ++ [s], none⟩, later,
        ⟨hopening, hname, List.forall_mem_append.2 ⟨hts, List.forall_mem_singleton.2 hs⟩, by simp⟩,
        ?_⟩
      simp [ProcedureTree.tokens, htokens]

end

/-! ## Stops -/

namespace Stops

variable {ts : List ProcedureTree} {own found : List Token} {what : Expectation}

/-- What is asked for where parsing stops goes on with the tokens before. -/
theorem viable (h : Stops ts own what found) {t : Token} (ht : what.accepts t.kind) :
    Grammar.Viable ((ts.flatMap ProcedureTree.tokens ++ own ++ [t]).map Token.kind) := by
  obtain ⟨p, later, hp, htokens⟩ := h.opened.exists_tree ht
  refine viable_iff.2 ⟨ts ++ [p], later,
    List.forall_mem_append.2 ⟨h.valid, List.forall_mem_singleton.2 hp⟩, ?_⟩
  simp [htokens]

/-- What is found where parsing stops does not, whatever follows it. -/
theorem not_viable {t : Token} {later : List Token} (h : Stops ts own what (t :: later)) :
    ¬ Grammar.Viable ((ts.flatMap ProcedureTree.tokens ++ own ++ [t]).map Token.kind) := by
  intro hviable
  obtain ⟨ts', later', hts', htokens⟩ := viable_iff.1 hviable
  have hparse := (h.of_cons later').parseProgram_eq (.ofTokens [])
  rw [← List.append_assoc, List.append_cons, ← htokens,
    parseProgram_flatMap_tokens _ hts'] at hparse
  simp at hparse

/-- Where a procedure is begun, the tokens before are no word of the grammar. -/
theorem not_mem_program (h : Stops ts own what found) (hne : own ≠ []) :
    (ts.flatMap ProcedureTree.tokens ++ own).map Token.kind ∉ Grammar.program := by
  intro hmem
  obtain ⟨ts', hts', htokens⟩ := mem_program_iff.1 hmem
  have hparse := (h.at_end hne).parseProgram_eq (.ofTokens [])
  rw [List.append_nil, ← htokens, parseProgram_flatMap_tokens _ hts'] at hparse
  simp at hparse

theorem mem_program_iff (h : Stops ts own what found) :
    (ts.flatMap ProcedureTree.tokens ++ own).map Token.kind ∈ Grammar.program ↔ own = [] := by
  constructor
  · intro hmem
    by_contra hne
    exact h.not_mem_program hne hmem
  · rintro rfl
    exact RegisterMachine.mem_program_iff.2 ⟨ts, h.valid, (List.append_nil _).symm⟩

/-- The tokens of the procedure that is begun are not a procedure yet. -/
theorem unfinished (h : Stops ts own what found) (hne : own ≠ []) :
    Grammar.Unfinished (own.map Token.kind) where
  begun := by
    obtain ⟨t, ht⟩ := exists_accepts what
    obtain ⟨p, later, hp, htokens⟩ := h.opened.exists_tree ht
    refine ⟨(t :: later).map Token.kind, ?_⟩
    rw [← List.map_append]
    exact mem_procedure_iff.2 ⟨p, hp, htokens⟩
  ne_nil := by simpa using hne
  not_mem := by
    intro hmem
    obtain ⟨p, hp, rfl⟩ := mem_procedure_iff.1 hmem
    refine h.not_mem_program hne (RegisterMachine.mem_program_iff.2 ⟨ts ++ [p],
      List.forall_mem_append.2 ⟨h.valid, List.forall_mem_singleton.2 hp⟩, ?_⟩)
    simp

end Stops

theorem problem_unexpected (mark : EndMark) (what : Expectation) (found : List Token) :
    (unexpected mark what found).problem = .expected what (found.head?.map Token.text) := by
  cases found <;> rfl

/-! ## Units -/

namespace SourceUnit

variable {u : SourceUnit}

/-- **A syntax error is found at the first token that makes one.** If a unit of which nothing
was reported and parsed yet does not parse, there is one report: that something else was found
than the grammar asks for.

* If a token was found, the tokens before it are viable, and with it they are not.
* If the end was found, all tokens together are viable, but no word of the grammar.
* In either case what the report says is asked for would have gone on with the tokens before.

The procedures are those of the tokens before: all of them if these tokens are a word of the
grammar, and else all but an unfinished one behind them. -/
theorem parse_stops_at_first_fault (hclean : u.diagnostics = []) (hnone : u.procedures = [])
    (hfails : ¬ u.parse.isClean) :
    ∃ d what before found, u.parse.diagnostics = [d] ∧ u.tokens = before ++ found ∧
      d.problem = .expected what (found.head?.map Token.text) ∧
      (∀ t ∈ found.head?, d.position = t.position ∧ d.span = t.span ∧
        Grammar.Viable (before.map Token.kind) ∧
          ¬ Grammar.Viable ((before ++ [t]).map Token.kind)) ∧
      (found = [] → before.map Token.kind ∉ Grammar.program ∧
        ∃ later, later ≠ [] ∧ before.map Token.kind ++ later ∈ Grammar.program) ∧
      (∀ t : Token, what.accepts t.kind → Grammar.Viable ((before ++ [t]).map Token.kind)) ∧
      ∃ (ts : List ProcedureTree) (own : List Token), (∀ t ∈ ts, t.Valid) ∧
        before = ts.flatMap ProcedureTree.tokens ++ own ∧
        u.parse.procedures = ts.map ProcedureTree.procedure ∧
        (before.map Token.kind ∈ Grammar.program ↔ own = []) ∧
        (own ≠ [] → Grammar.Unfinished (own.map Token.kind)) := by
  have hu : u.isClean := List.isEmpty_iff.2 hclean
  rw [isClean_parse_iff hu] at hfails
  obtain ⟨d, hreport⟩ := Option.ne_none_iff_exists'.1 hfails
  obtain ⟨ts, own, what, found, hstops, htokens, hprocedures, hd⟩ :=
    exists_stops_of_parseProgram hreport
  have hviable (t : Token) (ht : what.accepts t.kind) := hstops.viable ht
  obtain ⟨next, hnext⟩ := exists_accepts what
  have hbefore := hviable next hnext
  rw [List.map_append] at hbefore
  refine ⟨d, what, ts.flatMap ProcedureTree.tokens ++ own, found, ?_, ?_, ?_, ?_, ?_, hviable, ts,
    own, hstops.valid, rfl, ?_, hstops.mem_program_iff, hstops.unfinished⟩
  · rw [parse_of_isClean hu, hclean, hreport]
    rfl
  · rw [htokens, List.append_assoc]
  · rw [hd, problem_unexpected]
  · intro t ht
    obtain ⟨later, rfl⟩ := List.head?_eq_some_iff.1 ht
    rw [hd]
    exact ⟨rfl, rfl, hbefore.of_append, hstops.not_viable⟩
  · rintro rfl
    obtain ⟨later, hlater⟩ := hbefore
    refine ⟨hstops.not_mem_program fun hnil => hstops.ne_nil (by rw [hnil, List.append_nil]),
      [next.kind] ++ later, by simp, ?_⟩
    rwa [List.append_assoc] at hlater
  · rw [parse_of_isClean hu, hnone, hprocedures, List.nil_append]

end SourceUnit

/-- A finished procedure, and behind it one that jumps to a number. -/
def numberedJumpSource : String :=
  "proc a halt end proc b again: jmp 5 end"

theorem parse_numberedJumpSource :
    let u := (SourceUnit.ofContent "numbered" numberedJumpSource).scan
    let report : Diagnostic := ⟨.expected (.kind .identifier) (some "5"), ⟨1, 35⟩, ⟨34, 35⟩⟩
    u.diagnostics = [] ∧ u.procedures = [] ∧ ¬ u.parse.isClean ∧ u.parse.diagnostics = [report] ∧
      u.parse.procedures.length = 1 ∧
      ∃ before t after, u.tokens = before ++ t :: after ∧ t.text = "5" ∧ t.position = ⟨1, 35⟩ ∧
        Grammar.Viable (before.map Token.kind) ∧
        ¬ Grammar.Viable ((before ++ [t]).map Token.kind) := by
  intro u report
  have hclean : u.diagnostics = [] := by decide +kernel
  have hnone : u.procedures = [] := by decide +kernel
  have hfails : ¬ u.parse.isClean := by decide +kernel
  have hreport : u.parse.diagnostics = [report] := by decide +kernel
  have hlength : u.parse.procedures.length = 1 := by decide +kernel
  obtain ⟨d, what, before, found, hd, htokens, hproblem, hfound, -⟩ :=
    SourceUnit.parse_stops_at_first_fault hclean hnone hfails
  obtain rfl : d = report := by simpa [hreport] using hd.symm
  injection hproblem with _ hhead
  obtain ⟨t, ht, htext⟩ := Option.map_eq_some_iff.1 hhead.symm
  obtain ⟨after, rfl⟩ := List.head?_eq_some_iff.1 ht
  obtain ⟨hposition, -, hviable⟩ := hfound t rfl
  exact ⟨hclean, hnone, hfails, hreport, hlength, before, t, after, htokens, htext, hposition.symm,
    hviable⟩

end RegisterMachine
