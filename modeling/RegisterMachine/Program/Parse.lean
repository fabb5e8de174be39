import RegisterMachine.Program

/-!
# RegisterMachine.Program.Parse

The program that a list of tokens writes.

Rules:
1. a procedure is `proc`, its name, statements and `end`, which may be missing;
2. a body ends at `end`, at the end of the tokens and at a token that heads no statement, none of
   which is an error of the body;
3. a token that does not fit its slot is reported and stays where it is: the body ends there;
4. what is missing at the end of the tokens is reported at the last token, just past its text;
5. procedures are taken one after another up to the first report; the procedure it belongs to is not
   taken.
-/

namespace RegisterMachine

/-! ## Reports -/

/-- Where the end of the tokens is reported. -/
structure EndMark where
  position : Position
  span : Span
deriving DecidableEq, Repr

/-- The end of a list of tokens: at the last one, just past its text. -/
def EndMark.ofTokens (tokens : List Token) : EndMark :=
  match tokens.getLast? with
  | some t => ⟨t.position, ⟨t.span.stop, t.span.stop⟩⟩
  | none => ⟨.origin, ⟨0, 0⟩⟩

/-- The report that something else was found, or the end. -/
def unexpected (mark : EndMark) (what : Expectation) (found : List Token) : Diagnostic :=
  match found with
  | t :: _ => ⟨.expected what (some t.text), t.position, t.span⟩
  | [] => ⟨.expected what none, mark.position, mark.span⟩

/-! ## Statements -/

/-- The statement with the token of a slot as its operand. -/
def Slot.assign (slot : Slot) (s : Statement) (t : Token) : Statement :=
  match slot.role with
  | some role => s.withOperand role (some t)
  | none => s

/-- Fills slots from the front of the tokens. What is left of the tokens starts with the
one that did not fit. -/
def fillSlots (mark : EndMark) :
    List Slot → Statement → List Token → Except Diagnostic Statement × List Token
  | [], s, tokens => (.ok s, tokens)
  | slot :: _, _, [] => (.error (unexpected mark slot.expects []), [])
  | slot :: slots, s, t :: tokens =>
    if slot.expects.accepts t.kind then fillSlots mark slots (slot.assign s t) tokens
    else (.error (unexpected mark slot.expects (t :: tokens)), t :: tokens)

/-- What an attempt at a statement comes to. -/
inductive StatementParse where
  | parsed (s : Statement)
  /-- The front of the tokens heads no statement, and nothing was taken. -/
  | noStatement
  /-- A token did not fit its slot. -/
  | failed (report : Diagnostic)
deriving DecidableEq, Repr

/-- The statement at the front of the tokens, and what is left of them. -/
def parseStatement (mark : EndMark) (tokens : List Token) : StatementParse × List Token :=
  match tokens with
  | [] => (.noStatement, [])
  | head :: rest =>
    match head.kind.form? with
    | none => (.noStatement, tokens)
    | some form =>
      match fillSlots mark form.slots { head } rest with
      | (.ok s, rest) => (.parsed s, rest)
      | (.error report, rest) => (.failed report, rest)

theorem length_fillSlots_le (mark : EndMark) (slots : List Slot) (s : Statement)
    (tokens : List Token) : (fillSlots mark slots s tokens).2.length ≤ tokens.length := by
  induction slots generalizing s tokens with
  | nil => simp [fillSlots]
  | cons slot slots ih =>
    cases tokens with
    | nil => simp [fillSlots]
    | cons t tokens =>
      rw [fillSlots]
      split
      · exact Nat.le_succ_of_le (ih _ _)
      · simp

/-- A statement takes at least its head. -/
theorem length_parseStatement_lt {mark : EndMark} {tokens rest : List Token} {s : Statement}
    (h : parseStatement mark tokens = (.parsed s, rest)) : rest.length < tokens.length := by
  unfold parseStatement at h
  split at h
  · simp at h
  · rename_i head tail
    split at h
    · simp at h
    · rename_i form _
      have hlen := length_fillSlots_le mark form.slots { head } tail
      split at h
      · rename_i heq
        rw [heq] at hlen
        simp only [Prod.mk.injEq] at h
        rw [← h.2]
        exact Nat.lt_succ_of_le hlen
      · simp at h

/-! ## Procedures -/

/-- The statements of a body, the report that ended it, if any, and what is left of the tokens. -/
structure BodyParse where
  statements : List Statement
  report : Option Diagnostic
  rest : List Token
deriving DecidableEq, Repr

/-- The statements at the front of the tokens. -/
def parseBody (mark : EndMark) (tokens : List Token) : BodyParse :=
  match _h : parseStatement mark tokens with
  | (.parsed s, rest) =>
    let body := parseBody mark rest
    { body with statements := s :: body.statements }
  | (.noStatement, rest) => ⟨[], none, rest⟩
  | (.failed report, rest) => ⟨[], some report, rest⟩
termination_by tokens.length
decreasing_by exact length_parseStatement_lt _h

/-- Takes the `end` of a procedure if it is there. -/
def dropEnd (tokens : List Token) : List Token :=
  match tokens with
  | t :: rest => if t.kind = .procEnd then rest else tokens
  | [] => []

/-- Takes one token that the grammar asks for. -/
def takeToken (mark : EndMark) (what : Expectation) (tokens : List Token) :
    Except Diagnostic (Token × List Token) :=
  match tokens with
  | t :: rest => if what.accepts t.kind then .ok (t, rest) else .error (unexpected mark what tokens)
  | [] => .error (unexpected mark what [])

theorem eq_cons_of_takeToken {mark : EndMark} {what : Expectation} {tokens rest : List Token}
    {t : Token} (h : takeToken mark what tokens = .ok (t, rest)) : tokens = t :: rest := by
  unfold takeToken at h
  split at h
  · split at h
    · simp only [Except.ok.injEq, Prod.mk.injEq] at h
      rw [h.1, h.2]
    · simp at h
  · simp at h

/-- What an attempt at a procedure comes to. A failing statement leaves the procedure up to it
beside the report; without a name there is no procedure. -/
structure ProcedureParse where
  procedure : Option Procedure
  report : Option Diagnostic
  rest : List Token
deriving DecidableEq, Repr

/-- The procedure at the front of the tokens. -/
def parseProcedure (mark : EndMark) (tokens : List Token) : ProcedureParse :=
  match takeToken mark (.kind .procBegin) tokens with
  | .error report => ⟨none, some report, tokens⟩
  | .ok (_, afterBegin) =>
    match takeToken mark (.kind .identifier) afterBegin with
    | .error report => ⟨none, some report, afterBegin⟩
    | .ok (name, afterName) =>
      let body := parseBody mark afterName
      ⟨some ⟨name, body.statements⟩, body.report, dropEnd body.rest⟩

/-! ## Programs -/

theorem length_parseBody_le (mark : EndMark) (tokens : List Token) :
    (parseBody mark tokens).rest.length ≤ tokens.length := by
  fun_induction parseBody mark tokens with
  | case1 tokens s rest h _ ih => exact Nat.le_trans ih (Nat.le_of_lt (length_parseStatement_lt h))
  | case2 tokens rest h =>
    unfold parseStatement at h
    grind
  | case3 tokens report rest h =>
    unfold parseStatement at h
    split at h
    · simp at h
    · rename_i head tail
      split at h
      · simp at h
      · rename_i form _
        have hlen := length_fillSlots_le mark form.slots { head } tail
        split at h <;> grind

theorem length_dropEnd_le (tokens : List Token) : (dropEnd tokens).length ≤ tokens.length := by
  unfold dropEnd
  split
  · split <;> simp
  · simp

/-- A procedure without a report takes at least its first token. -/
theorem length_parseProcedure_lt {mark : EndMark} {tokens : List Token}
    (h : (parseProcedure mark tokens).report = none) :
    (parseProcedure mark tokens).rest.length < tokens.length := by
  unfold parseProcedure at *
  split at h
  · simp at h
  · rename_i t afterBegin heq
    have hbegin := eq_cons_of_takeToken heq
    split at h
    · simp at h
    · rename_i name afterName heq'
      have hname := eq_cons_of_takeToken heq'
      have hbody := length_parseBody_le mark afterName
      have hend := length_dropEnd_le (parseBody mark afterName).rest
      simp only [hbegin, hname, List.length_cons]
      omega

/-- The procedures of a program up to the first report. -/
def parseProgram (mark : EndMark) (tokens : List Token) : List Procedure × Option Diagnostic :=
  if tokens.isEmpty then ([], none)
  else
    let first := parseProcedure mark tokens
    match _h : first.report with
    | some report => ([], some report)
    | none =>
      let (procedures, report) := parseProgram mark first.rest
      (first.procedure.toList ++ procedures, report)
termination_by tokens.length
decreasing_by exact length_parseProcedure_lt ‹_›

/-- The attempts at the first `n` statements, one after another. -/
def parseStatements (mark : EndMark) : Nat → List Token → List StatementParse
  | 0, _ => []
  | n + 1, tokens =>
    let (first, rest) := parseStatement mark tokens
    first :: parseStatements mark n rest

/-- The attempts at the first `n` procedures, one after another. -/
def parseProcedures (mark : EndMark) : Nat → List Token → List ProcedureParse
  | 0, _ => []
  | n + 1, tokens =>
    let first := parseProcedure mark tokens
    first :: parseProcedures mark n first.rest

end RegisterMachine
