import RegisterMachine.Program.Parse

/-!
# RegisterMachine.Proofs.Program.Report

What the parser reports.

Whatever is reported while tokens are parsed is that something else was found than the
grammar asks for, at what is left of the tokens (`Reported`). So a report is at one of the
tokens, or at the end of them.
-/

namespace RegisterMachine

/-- The report that something else was found than the grammar asks for, at what
is left of the tokens. -/
def Reported (mark : EndMark) (tokens : List Token) (d : Diagnostic) : Prop :=
  ∃ what found, found <:+ tokens ∧ d = unexpected mark what found

/-- The end of tokens is reported at the last one. -/
theorem EndMark.ofTokens_of_getLast? {tokens : List Token} {t : Token}
    (h : tokens.getLast? = some t) :
    EndMark.ofTokens tokens = ⟨t.position, ⟨t.span.stop, t.span.stop⟩⟩ := by
  rw [ofTokens, h]

section Reports

variable {mark : EndMark} {tokens rest : List Token} {d : Diagnostic}

/-- What is reported at the rest of some tokens is reported at these tokens. -/
theorem Reported.of_suffix (h : Reported mark rest d) (hrest : rest <:+ tokens) :
    Reported mark tokens d := by
  obtain ⟨what, found, hfound, rfl⟩ := h
  exact ⟨what, found, hfound.trans hrest, rfl⟩

/-! ## Statements -/

theorem suffix_fillSlots (mark : EndMark) (slots : List Slot) (s : Statement)
    (tokens : List Token) :
    (fillSlots mark slots s tokens).2 <:+ tokens := by
  induction slots generalizing s tokens with
  | nil => exact List.suffix_refl _
  | cons slot slots ih =>
      cases tokens with
      | nil => exact List.suffix_refl _
      | cons t tokens =>
          rw [fillSlots]
          split
          next => exact (ih _ _).trans (List.suffix_cons _ _)
          next => exact List.suffix_refl _

theorem reported_of_fillSlots {slots : List Slot} {s : Statement}
    (h : (fillSlots mark slots s tokens).1 = .error d) : Reported mark tokens d := by
  induction slots generalizing s tokens with
  | nil => contradiction
  | cons slot slots ih =>
      cases tokens with
      | nil =>
          cases h
          exact ⟨_, [], List.suffix_refl _, rfl⟩
      | cons t tokens =>
          rw [fillSlots] at h
          split at h
          next => exact (ih h).of_suffix (List.suffix_cons _ _)
          next =>
            cases h
            exact ⟨_, t :: tokens, List.suffix_refl _, rfl⟩

theorem suffix_parseStatement (mark : EndMark) (tokens : List Token) :
    (parseStatement mark tokens).2 <:+ tokens := by
  unfold parseStatement
  split
  next => exact List.suffix_refl _
  next head tail =>
    split
    next => exact List.suffix_refl _
    next form hform =>
      have hfill := suffix_fillSlots mark form.slots { head } tail
      split
      next s rest heq =>
        rw [heq] at hfill
        exact hfill.trans (List.suffix_cons _ _)
      next report rest heq =>
        rw [heq] at hfill
        exact hfill.trans (List.suffix_cons _ _)

theorem reported_of_parseStatement (h : (parseStatement mark tokens).1 = .failed d) :
    Reported mark tokens d := by
  unfold parseStatement at h
  split at h
  next => contradiction
  next head tail =>
    split at h
    next => contradiction
    next form hform =>
      split at h
      next => contradiction
      next report rest heq =>
        cases h
        have hfill : (fillSlots mark form.slots { head } tail).1 = .error d := by rw [heq]
        exact (reported_of_fillSlots hfill).of_suffix (List.suffix_cons _ _)

/-! ## Procedures -/

theorem suffix_parseBody (mark : EndMark) (tokens : List Token) :
    (parseBody mark tokens).rest <:+ tokens := by
  fun_induction parseBody mark tokens with
  | case1 tokens s rest heq body ih =>
      have hrest := suffix_parseStatement mark tokens
      rw [heq] at hrest
      exact ih.trans hrest
  | case2 tokens rest heq =>
      have hrest := suffix_parseStatement mark tokens
      rwa [heq] at hrest
  | case3 tokens report rest heq =>
      have hrest := suffix_parseStatement mark tokens
      rwa [heq] at hrest

theorem reported_of_parseBody (h : (parseBody mark tokens).report = some d) :
    Reported mark tokens d := by
  fun_induction parseBody mark tokens with
  | case1 tokens s rest heq body ih =>
      have hrest := suffix_parseStatement mark tokens
      rw [heq] at hrest
      exact (ih h).of_suffix hrest
  | case2 tokens rest heq => contradiction
  | case3 tokens report rest heq =>
      cases h
      exact reported_of_parseStatement (by rw [heq])

theorem suffix_dropEnd (tokens : List Token) : dropEnd tokens <:+ tokens := by
  unfold dropEnd
  split
  next t rest =>
    split
    next => exact List.suffix_cons _ _
    next => exact List.suffix_refl _
  next => exact List.suffix_refl _

theorem reported_of_takeToken {what : Expectation} (h : takeToken mark what tokens = .error d) :
    Reported mark tokens d := by
  unfold takeToken at h
  split at h
  next t rest =>
    split at h
    next => contradiction
    next =>
      cases h
      exact ⟨what, _, List.suffix_refl _, rfl⟩
  next =>
    cases h
    exact ⟨what, [], List.suffix_refl _, rfl⟩

theorem suffix_takeToken {what : Expectation} {t : Token}
    (h : takeToken mark what tokens = .ok (t, rest)) : rest <:+ tokens := by
  rw [eq_cons_of_takeToken h]
  exact List.suffix_cons _ _

theorem suffix_parseProcedure (mark : EndMark) (tokens : List Token) :
    (parseProcedure mark tokens).rest <:+ tokens := by
  unfold parseProcedure
  split
  next => exact List.suffix_refl _
  next opening afterBegin hbegin =>
    split
    next => exact suffix_takeToken hbegin
    next name afterName hname =>
      exact (suffix_dropEnd _).trans <| (suffix_parseBody mark afterName).trans <|
        (suffix_takeToken hname).trans (suffix_takeToken hbegin)

theorem reported_of_parseProcedure (h : (parseProcedure mark tokens).report = some d) :
    Reported mark tokens d := by
  unfold parseProcedure at h
  split at h
  next report hbegin =>
    cases h
    exact reported_of_takeToken hbegin
  next opening afterBegin hbegin =>
    have hafter := suffix_takeToken hbegin
    split at h
    next report hname =>
      cases h
      exact (reported_of_takeToken hname).of_suffix hafter
    next name afterName hname =>
      exact (reported_of_parseBody h).of_suffix ((suffix_takeToken hname).trans hafter)

/-! ## Programs -/

theorem reported_of_parseProgram (h : (parseProgram mark tokens).2 = some d) :
    Reported mark tokens d := by
  fun_induction parseProgram mark tokens with
  | case1 tokens hempty => contradiction
  | case2 tokens hempty first report heq =>
      cases h
      exact reported_of_parseProcedure heq
  | case3 tokens hempty first heq procedures report hlater ih =>
      rw [hlater] at ih
      exact (ih h).of_suffix (suffix_parseProcedure mark tokens)

/-- Without tokens there is nothing to report. -/
theorem ne_nil_of_parseProgram (h : (parseProgram mark tokens).2 = some d) : tokens ≠ [] := by
  rintro rfl
  rw [parseProgram] at h
  contradiction

end Reports

end RegisterMachine
