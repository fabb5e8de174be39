import RegisterMachine.Proofs.Program.Parse

/-!
# RegisterMachine.Proofs.Program.Stop

Where parsing stops.

A report cuts the tokens into what is finished, what is begun, and what was
found instead of going on:

* `OpenStatement own what` -- the tokens begin a statement, and the grammar asks for `what` next;
* `OpenProcedure own what` -- the tokens begin a procedure, and the grammar asks for `what` next;
* `Stops ts own what found` -- behind finished procedures and the beginning of one, something else
  is found than the grammar asks for;
* `exists_stops_of_parseProgram`, `Stops.parseProgram_eq` -- parsing reports exactly
  where it stops in this sense.

Of what is found only the first token matters, so a stop is a stop whatever follows that token.
-/

namespace RegisterMachine

variable {mark : EndMark} {tokens rest own found : List Token} {what : Expectation} {d : Diagnostic}

/-- The front of the tokens is not what is asked for: it is another token, or the end. -/
def Expectation.Refuses (what : Expectation) (found : List Token) : Prop :=
  ∀ t ∈ found.head?, what.accepts t.kind = false

/-! ## Statements -/

/-- Slots are filled up to the first that is refused its token. -/
theorem fillSlots_eq_error_iff {slots : List Slot} {s : Statement} :
    fillSlots mark slots s tokens = (.error d, rest) ↔
      ∃ filled slot unfilled own, slots = filled ++ slot :: unfilled ∧
        List.Forall₂ (fun slot t => slot.expects.accepts t.kind) filled own ∧
        tokens = own ++ rest ∧ slot.expects.Refuses rest ∧
        d = unexpected mark slot.expects rest := by
  induction slots generalizing s tokens with
  | nil => simp [fillSlots]
  | cons slot slots ih =>
      cases tokens with
      | nil =>
          constructor
          · rintro ⟨⟩
            exact ⟨[], slot, slots, [], rfl, .nil, rfl, by simp [Expectation.Refuses], rfl⟩
          · rintro ⟨filled, slot', unfilled, own, hslots, hown, htokens, -, rfl⟩
            obtain ⟨rfl, rfl⟩ := List.append_eq_nil_iff.1 htokens.symm
            cases hown
            cases hslots
            rfl
      | cons t tokens =>
          by_cases ht : slot.expects.accepts t.kind
          · rw [fillSlots, if_pos ht, ih]
            constructor
            · rintro ⟨filled, next, unfilled, own, rfl, hown, rfl, h⟩
              exact ⟨slot :: filled, next, unfilled, t :: own, rfl, .cons ht hown, rfl, h⟩
            · rintro ⟨filled, next, unfilled, own, hslots, hown, htokens, hrest, rfl⟩
              cases hown with
              | nil =>
                  cases hslots
                  obtain rfl : t :: tokens = rest := htokens
                  simp [hrest t rfl] at ht
              | cons _ hown =>
                  cases hslots
                  cases htokens
                  exact ⟨_, next, unfilled, _, rfl, hown, rfl, hrest, rfl⟩
          · rw [fillSlots, if_neg ht]
            constructor
            · rintro ⟨⟩
              exact ⟨[], slot, slots, [], rfl, .nil, rfl, by simpa [Expectation.Refuses] using ht,
                rfl⟩
            · rintro ⟨filled, next, unfilled, own, hslots, hown, htokens, -, rfl⟩
              cases hown with
              | nil =>
                  cases hslots
                  obtain rfl : t :: tokens = rest := htokens
                  rfl
              | cons hfirst hown =>
                  cases hslots
                  cases htokens
                  exact absurd hfirst ht

/-- The tokens begin a statement, and the grammar asks for `what` next. -/
inductive OpenStatement : List Token → Expectation → Prop
  | begun {head : Token} {form : Form} {filled unfilled : List Slot} {slot : Slot}
      {own : List Token}
      (hform : head.kind.form? = some form) (hslots : form.slots = filled ++ slot :: unfilled)
      (hown : List.Forall₂ (fun slot t => slot.expects.accepts t.kind) filled own) :
      OpenStatement (head :: own) slot.expects

theorem parseStatement_eq_failed_iff :
    parseStatement mark tokens = (.failed d, rest) ↔
      ∃ own what, OpenStatement own what ∧ tokens = own ++ rest ∧ what.Refuses rest ∧
        d = unexpected mark what rest := by
  constructor
  · intro h
    unfold parseStatement at h
    split at h
    next => cases h
    next head later =>
      split at h
      next => cases h
      next form hform =>
        split at h
        next => cases h
        next report later hfill =>
          cases h
          obtain ⟨filled, slot, unfilled, own, hslots, hown, rfl, hrest, rfl⟩ :=
            fillSlots_eq_error_iff.1 hfill
          exact ⟨head :: own, slot.expects, .begun hform hslots hown, rfl, hrest, rfl⟩
  · rintro ⟨-, -, @⟨head, form, filled, unfilled, slot, own, hform, hslots, hown⟩, rfl, hrest, rfl⟩
    have hfill : fillSlots mark form.slots { head } (own ++ rest) =
        (.error (unexpected mark slot.expects rest), rest) :=
      fillSlots_eq_error_iff.2 ⟨filled, slot, unfilled, own, hslots, hown, rfl, hrest, rfl⟩
    rw [List.cons_append, parseStatement]
    simp only [hform, hfill]

/-! ## Bodies -/

theorem parseBody_report_iff :
    (parseBody mark tokens).report = some d ↔
      ∃ (ts : List StatementTree) (own : List Token) (what : Expectation) (found : List Token),
        (∀ t ∈ ts, t.Valid) ∧ OpenStatement own what ∧
          tokens = ts.flatMap StatementTree.tokens ++ (own ++ found) ∧ what.Refuses found ∧
          d = unexpected mark what found := by
  constructor
  · intro h
    fun_induction parseBody mark tokens with
    | case1 tokens s rest hs body ih =>
        obtain ⟨t, ht, -, rfl⟩ := exists_tree_of_parseStatement hs
        obtain ⟨ts, own, what, found, hts, hopen, rfl, hfound⟩ := ih h
        refine ⟨t :: ts, own, what, found, List.forall_mem_cons.2 ⟨ht, hts⟩, hopen, ?_, hfound⟩
        rw [List.flatMap_cons, List.append_assoc]
    | case2 tokens rest hs => cases h
    | case3 tokens report rest hs =>
        cases h
        obtain ⟨own, what, hopen, rfl, hfound⟩ := parseStatement_eq_failed_iff.1 hs
        exact ⟨[], own, what, rest, by simp, hopen, rfl, hfound⟩
  · rintro ⟨ts, own, what, found, hts, hopen, rfl, hrefuses, rfl⟩
    induction ts with
    | nil =>
        have hfails : parseStatement mark (own ++ found) =
            (.failed (unexpected mark what found), found) :=
          parseStatement_eq_failed_iff.2 ⟨own, what, hopen, rfl, hrefuses, rfl⟩
        rw [List.flatMap_nil, List.nil_append, parseBody]
        split <;> simp_all
    | cons t ts ih =>
        obtain ⟨ht, hts⟩ := List.forall_mem_cons.1 hts
        have hfirst := t.parseStatement_tokens mark ht
          (ts.flatMap StatementTree.tokens ++ (own ++ found))
        have hlater := ih hts
        rw [List.flatMap_cons, List.append_assoc, parseBody]
        split <;> simp_all

/-! ## Procedures -/

/-- The tokens begin a procedure, and the grammar asks for `what` next. -/
inductive OpenProcedure : List Token → Expectation → Prop
  | unopened : OpenProcedure [] (.kind .procBegin)
  | unnamed {opening : Token} (hopening : opening.kind = .procBegin) :
      OpenProcedure [opening] (.kind .identifier)
  | body {opening name : Token} {ts : List StatementTree} {own : List Token} {what : Expectation}
      (hopening : opening.kind = .procBegin) (hname : name.kind = .identifier)
      (hts : ∀ t ∈ ts, t.Valid) (hown : OpenStatement own what) :
      OpenProcedure (opening :: name :: (ts.flatMap StatementTree.tokens ++ own)) what

/-- What begins a procedure begins with its first token. -/
theorem OpenProcedure.beginsProcedure (h : OpenProcedure own what) (hne : own ≠ []) :
    BeginsProcedure (own ++ found) := by
  cases h with
  | unopened => exact absurd rfl hne
  | unnamed hopening =>
      rintro t ⟨rfl⟩
      exact hopening
  | body hopening =>
      rintro t ⟨rfl⟩
      exact hopening

theorem takeToken_eq_error_iff :
    takeToken mark what tokens = .error d ↔
      what.Refuses tokens ∧ d = unexpected mark what tokens := by
  rw [eq_comm (a := d)]
  cases tokens with
  | nil => simp [takeToken, Expectation.Refuses]
  | cons t tokens => by_cases ht : what.accepts t.kind <;> simp [takeToken, Expectation.Refuses, ht]

theorem parseProcedure_report_iff :
    (parseProcedure mark tokens).report = some d ↔
      ∃ own what found, OpenProcedure own what ∧ tokens = own ++ found ∧ what.Refuses found ∧
        d = unexpected mark what found := by
  constructor
  · intro h
    unfold parseProcedure at h
    split at h
    next report hbegin =>
      cases h
      obtain ⟨hrefuses, rfl⟩ := takeToken_eq_error_iff.1 hbegin
      exact ⟨[], _, tokens, .unopened, rfl, hrefuses, rfl⟩
    next opening afterBegin hbegin =>
      obtain ⟨hopening, rfl⟩ := accepts_of_takeToken hbegin
      split at h
      next report hname =>
        cases h
        obtain ⟨hrefuses, rfl⟩ := takeToken_eq_error_iff.1 hname
        exact ⟨[opening], _, afterBegin, .unnamed (accepts_kind_iff.1 hopening), rfl, hrefuses, rfl⟩
      next name afterName hname =>
        obtain ⟨hidentifier, rfl⟩ := accepts_of_takeToken hname
        obtain ⟨ts, own, what, found, hts, hopen, rfl, hfound⟩ := parseBody_report_iff.1 h
        refine ⟨opening :: name :: (ts.flatMap StatementTree.tokens ++ own), what, found,
          .body (accepts_kind_iff.1 hopening) (accepts_kind_iff.1 hidentifier) hts hopen, ?_,
          hfound⟩
        rw [List.cons_append, List.cons_append, List.append_assoc]
  · rintro ⟨own, what, found, hopen, rfl, hrefuses, rfl⟩
    cases hopen with
    | unopened =>
        have hbegin : takeToken mark (.kind .procBegin) found = .error _ :=
          takeToken_eq_error_iff.2 ⟨hrefuses, rfl⟩
        rw [List.nil_append, parseProcedure, hbegin]
    | unnamed hopening =>
        have hname : takeToken mark (.kind .identifier) found = .error _ :=
          takeToken_eq_error_iff.2 ⟨hrefuses, rfl⟩
        rw [List.singleton_append, parseProcedure, takeToken_cons (accepts_kind_iff.2 hopening)]
        simp only [hname]
    | @body _ _ ts own _ hopening hname hts hown =>
        have hbody : (parseBody mark (ts.flatMap StatementTree.tokens ++ (own ++ found))).report =
            some (unexpected mark what found) :=
          parseBody_report_iff.2 ⟨ts, own, what, found, hts, hown, rfl, hrefuses, rfl⟩
        rw [List.cons_append, List.cons_append, List.append_assoc, parseProcedure,
          takeToken_cons (accepts_kind_iff.2 hopening)]
        simp only [takeToken_cons (accepts_kind_iff.2 hname), hbody]

/-! ## Programs -/

/-- Behind the tokens of finished procedures and of the beginning of one, something else is found
than the grammar asks for, and it does not go on with the last of the finished ones either. -/
structure Stops (ts : List ProcedureTree) (own : List Token) (what : Expectation)
    (found : List Token) : Prop where
  valid : ∀ t ∈ ts, t.Valid
  opened : OpenProcedure own what
  refuses : what.Refuses found
  ne_nil : own ++ found ≠ []
  ends : ∀ t ∈ ts.getLast?, t.EndsBefore (own ++ found)

namespace Stops

variable {ts : List ProcedureTree} {t : ProcedureTree}

theorem cons (h : Stops ts own what found) (ht : t.Valid)
    (hends : t.EndsBefore (ts.flatMap ProcedureTree.tokens ++ (own ++ found))) :
    Stops (t :: ts) own what found where
  valid := List.forall_mem_cons.2 ⟨ht, h.valid⟩
  opened := h.opened
  refuses := h.refuses
  ne_nil := h.ne_nil
  ends := by
    cases ts with
    | nil => simpa using hends
    | cons next ts => simpa using h.ends

theorem tail (h : Stops (t :: ts) own what found) : Stops ts own what found where
  valid := (List.forall_mem_cons.1 h.valid).2
  opened := h.opened
  refuses := h.refuses
  ne_nil := h.ne_nil
  ends := by
    cases ts with
    | nil => simp
    | cons next ts => simpa using h.ends

/-- The first procedure ends where the next one begins, or where the tokens
behind the last are found. -/
theorem endsBefore (h : Stops (t :: ts) own what found) :
    t.EndsBefore (ts.flatMap ProcedureTree.tokens ++ (own ++ found)) := by
  cases ts with
  | nil => exact h.ends t rfl
  | cons next ts =>
      have hnext : next.Valid := h.tail.valid next List.mem_cons_self
      refine BeginsProcedure.endsBefore ?_ t
      rintro r ⟨rfl⟩
      exact hnext.opening

/-- Whatever follows the first token that is found, it is found there. -/
theorem of_cons {r : Token} {later : List Token} (h : Stops ts own what (r :: later))
    (later' : List Token) : Stops ts own what (r :: later') where
  valid := h.valid
  opened := h.opened
  refuses := h.refuses
  ne_nil := by simp
  ends := by
    have hends := h.ends
    cases own with
    | nil => exact hends
    | cons first own => exact hends

/-- A procedure that is begun is still begun at the end of the tokens. -/
theorem at_end (h : Stops ts own what found) (hne : own ≠ []) : Stops ts own what [] where
  valid := h.valid
  opened := h.opened
  refuses := nofun
  ne_nil := by simpa using hne
  ends := fun t _ => (h.opened.beginsProcedure hne).endsBefore t

end Stops

/-- A report is made where parsing stops; the procedures are those that are finished there. -/
theorem exists_stops_of_parseProgram (h : (parseProgram mark tokens).2 = some d) :
    ∃ ts own what found, Stops ts own what found ∧
      tokens = ts.flatMap ProcedureTree.tokens ++ (own ++ found) ∧
      (parseProgram mark tokens).1 = ts.map ProcedureTree.procedure ∧
      d = unexpected mark what found := by
  fun_induction parseProgram mark tokens with
  | case1 tokens hempty => cases h
  | case2 tokens hne first report hreport =>
      cases h
      obtain ⟨own, what, found, hopen, rfl, hrefuses, rfl⟩ := parseProcedure_report_iff.1 hreport
      have hne : own ++ found ≠ [] := by simpa using hne
      exact ⟨[], own, what, found, ⟨by simp, hopen, hrefuses, hne, by simp⟩, rfl, rfl, rfl⟩
  | case3 tokens hne first hreport procedures report hlater ih =>
      obtain ⟨t, ht, hprocedure, htokens, hends⟩ := exists_tree_of_parseProcedure hreport
      rw [hlater] at ih
      obtain ⟨ts, own, what, found, hstops, hrest, hprocedures, rfl⟩ := ih h
      rw [hrest] at htokens hends
      refine ⟨t :: ts, own, what, found, hstops.cons ht hends, ?_, ?_, rfl⟩
      · rw [← htokens, List.flatMap_cons, List.append_assoc]
      · show first.procedure.toList ++ procedures = t.procedure :: ts.map ProcedureTree.procedure
        rw [hprocedure]
        exact congrArg (t.procedure :: ·) hprocedures

/-- Where parsing stops a report is made. -/
theorem Stops.parseProgram_eq {ts : List ProcedureTree} (mark : EndMark)
    (h : Stops ts own what found) :
    parseProgram mark (ts.flatMap ProcedureTree.tokens ++ (own ++ found)) =
      (ts.map ProcedureTree.procedure, some (unexpected mark what found)) := by
  induction ts with
  | nil =>
      have hreport : (parseProcedure mark (own ++ found)).report =
          some (unexpected mark what found) :=
        parseProcedure_report_iff.2 ⟨own, what, found, h.opened, rfl, h.refuses, rfl⟩
      rw [List.flatMap_nil, List.nil_append, parseProgram, if_neg (by simpa using h.ne_nil)]
      dsimp only
      split
      next report heq =>
        rw [hreport] at heq
        cases heq
        rfl
      next heq => simp [hreport] at heq
  | cons t ts ih =>
      have hfirst := t.parseProcedure_tokens mark (h.valid t List.mem_cons_self) h.endsBefore
      rw [List.flatMap_cons, List.append_assoc, parseProgram,
        if_neg (by simp [ProcedureTree.tokens])]
      dsimp only
      split
      next report heq => simp [hfirst] at heq
      next heq =>
        simp only [hfirst, ih h.tail]
        rfl

end RegisterMachine
