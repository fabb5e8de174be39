import RegisterMachine.Proofs.Machine.Run

/-!
# RegisterMachine.Proofs.Machine.Budget

Budgets of steps.

* `Machine.Spends` says how many steps a machine takes within a budget: the least of the budget and
  of the steps after which it no longer runs;
* `spends_run` -- a run takes so many steps, and `snd_run` that it leaves the machine as the whole
  budget of steps does, since a machine that has stopped stays as it is;
* `stopsAfter_after_iff` -- where a machine stops can be counted on from any step before;
* `run_exact_and_resumable` -- a run is exact about its budget and can be resumed.
-/

namespace RegisterMachine

namespace Machine

/-- Within a budget the machine takes so many steps: it runs before each of them, and after them the
budget is spent or the machine has stopped. -/
structure Spends (code : List UInt8) (m : Machine) (budget steps : Nat) : Prop where
  le : steps ≤ budget
  running : ∀ j, j < steps → (m.after code j).status = .running
  last : steps = budget ∨ (m.after code steps).status ≠ .running

variable {code : List UInt8} {m : Machine}

/-- Steps beyond those that a machine takes change nothing. -/
theorem Spends.after_budget {budget steps : Nat} (h : m.Spends code budget steps) :
    m.after code budget = m.after code steps := by
  cases h.last with
  | inl heq => rw [heq]
  | inr hstopped =>
      have hbudget : budget = steps + (budget - steps) := by have := h.le; omega
      rw [hbudget, after_add, after_of_not_running hstopped]

/-! ## Runs within a budget -/

/-- A run takes the steps that its budget allows. -/
theorem spends_run (code : List UInt8) (limit : Option Nat) (horizon : Nat) (m : Machine) :
    ∃ k, m.Spends code (limit.getD horizon) k ∧
      m.run code limit horizon = ((m.after code k).outcome code limit k, m.after code k) := by
  obtain ⟨k, hadvance, hk, hrunning, hend⟩ := advance_eq code (limit.getD horizon) 0 m
  refine ⟨k, ⟨hk, hrunning, hend⟩, ?_⟩
  rw [run, hadvance, Nat.zero_add]

/-- A run leaves the machine as its budget of steps does. -/
theorem snd_run (code : List UInt8) (limit : Option Nat) (horizon : Nat) (m : Machine) :
    (m.run code limit horizon).2 = m.after code (limit.getD horizon) := by
  obtain ⟨k, hspends, hrun⟩ := spends_run code limit horizon m
  rw [hrun, hspends.after_budget]

theorem outcome_eq_stepLimit_iff {n steps limit : Nat} :
    m.outcome code (some n) steps = .error (.stepLimit limit) ↔
      m.status = .running ∧ n = limit := by
  obtain ⟨registers, flag, status, lastAddress⟩ := m
  cases status <;> simp [outcome]

/-- A run hits its limit exactly if the machine still runs after all steps of it. -/
theorem run_eq_stepLimit_iff {n limit horizon : Nat} :
    (m.run code (some n) horizon).1 = .error (.stepLimit limit) ↔
      (m.after code n).status = .running ∧ n = limit := by
  obtain ⟨k, hspends, hrun⟩ := spends_run code (some n) horizon m
  rw [hrun, outcome_eq_stepLimit_iff, ← hspends.after_budget, Option.getD_some]

/-- What a run with a limit answers tells how its last machine stands. -/
theorem run_some_exact (code : List UInt8) (n horizon : Nat) (m : Machine) :
    ∃ k, m.Spends code n k ∧
      let (result, last) := m.run code (some n) horizon
      last = m.after code k ∧
        (∀ j, result = .ok j ↔ last.status = .halted ∧ k = j) ∧
        (∀ address byte, result = .error (.fault address byte) ↔
          last.status = .faulted ∧ last.lastAddress = address ∧ code[address.toNat]? = byte) ∧
        (∀ limit, result = .error (.stepLimit limit) ↔ last.status = .running ∧ n = limit) := by
  obtain ⟨k, hspends, hrun⟩ := m.spends_run code (some n) horizon
  refine ⟨k, hspends, ?_⟩
  rw [hrun]
  refine ⟨rfl, fun _ => outcome_eq_ok_iff, fun address byte => ?_,
    fun _ => outcome_eq_stepLimit_iff⟩
  rw [outcome_eq_fault_iff]
  exact and_congr_right fun _ => and_congr_right fun haddress => by rw [haddress]

/-- A machine that does not run is left as it is. -/
theorem run_of_not_running (hm : m.status ≠ .running) (limit : Option Nat) (horizon : Nat) :
    m.run code limit horizon = (m.outcome code limit 0, m) :=
  run_of_stopsAfter (Nat.zero_le _) ⟨fun j hj => absurd hj (Nat.not_lt_zero j), hm⟩

/-- A machine that has faulted reports the same fault whenever it is run again. -/
theorem run_again_of_fault {limit : Option Nat} {horizon : Nat} {address : UInt64}
    {byte : Option UInt8} (h : (m.run code limit horizon).1 = .error (.fault address byte))
    (limit' : Option Nat) :
    let faulted := (m.run code limit horizon).2
    faulted.run code limit' horizon = (.error (.fault address byte), faulted) := by
  obtain ⟨k, -, hrun⟩ := m.spends_run code limit horizon
  simp only [hrun] at h ⊢
  obtain ⟨hfaulted, haddress, hbyte⟩ := outcome_eq_fault_iff.1 h
  rw [run_of_not_running (by simp [hfaulted]),
    outcome_eq_fault_iff.2 ⟨hfaulted, haddress, hbyte⟩]

/-! ## Runs one after another -/

/-- Behind steps after which the machine still runs, the steps to where it stops are counted on. -/
theorem stopsAfter_after_iff {n k : Nat} (hn : (m.after code n).status = .running) :
    (m.after code n).StopsAfter code k ↔ m.StopsAfter code (n + k) := by
  constructor
  · intro h
    refine ⟨fun j hj => ?_, ?_⟩
    · by_cases hjn : j ≤ n
      · exact running_of_le hjn hn
      · have hj' := h.running (j - n) (by omega)
        rwa [← after_add, show n + (j - n) = j by omega] at hj'
    · rw [after_add]
      exact h.stopped
  · intro h
    refine ⟨fun j hj => ?_, ?_⟩
    · rw [← after_add]
      exact h.running (n + j) (by omega)
    · rw [← after_add]
      exact h.stopped

/-- A run that goes on where another one hit its limit halts exactly if a run with both budgets
does, and the steps of both are added up. -/
theorem run_resumed_eq_ok_iff {n n' k horizon : Nat} (hn : (m.after code n).status = .running) :
    (m.run code (some (n + n')) horizon).1 = .ok (n + k) ↔
      ((m.after code n).run code (some n') horizon).1 = .ok k := by
  rw [run_eq_ok_iff, run_eq_ok_iff, stopsAfter_after_iff hn, after_add, Option.getD_some,
    Option.getD_some, Nat.add_le_add_iff_left]

/-- A run without a limit that halts is the run with any limit that reaches so far. -/
theorem run_some_of_run_none_eq_ok {horizon k n : Nat} (h : (m.run code none horizon).1 = .ok k)
    (hn : k ≤ n) (horizon' : Nat) : m.run code (some n) horizon' = m.run code none horizon := by
  obtain ⟨hbudget, hstops, hhalted⟩ := run_eq_ok_iff.1 h
  have hlimited : m.run code (some n) horizon' = (_, m.after code k) := run_of_stopsAfter hn hstops
  have hfree : m.run code none horizon = (_, m.after code k) := run_of_stopsAfter hbudget hstops
  have hok : (m.after code k).outcome code (some n) k = (m.after code k).outcome code none k := by
    rw [outcome_eq_ok_iff.2 ⟨hhalted, rfl⟩, outcome_eq_ok_iff.2 ⟨hhalted, rfl⟩]
  rw [hlimited, hfree, hok]

/-- **A run is exact about its budget and can be resumed.** It makes the steps that the budget
allows, at most up to where the machine stops; it answers with their number exactly if the machine
has halted, with a fault exactly if it has faulted, and with its limit exactly if the machine still
runs. A run that goes on behind a limit ends as one run with both budgets does, and halts exactly if
that one does; a run without a limit that halts is the run with every limit that reaches so far; and
to run a machine that has halted or faulted changes nothing and gives no steps or the same fault. -/
theorem run_exact_and_resumable (code : List UInt8) (m : Machine) (horizon : Nat) :
    (∀ n, ∃ k, m.Spends code n k ∧
      let (result, last) := m.run code (some n) horizon
      last = m.after code k ∧
        (∀ j, result = .ok j ↔ last.status = .halted ∧ k = j) ∧
        (∀ address byte, result = .error (.fault address byte) ↔
          last.status = .faulted ∧ last.lastAddress = address ∧ code[address.toNat]? = byte) ∧
        (∀ limit, result = .error (.stepLimit limit) ↔ last.status = .running ∧ n = limit)) ∧
    (∀ n n', (m.run code (some n) horizon).1 = .error (.stepLimit n) →
      let resumed := (m.run code (some n) horizon).2.run code (some n') horizon
      let whole := m.run code (some (n + n')) horizon
      resumed.2 = whole.2 ∧ ∀ k, whole.1 = .ok (n + k) ↔ resumed.1 = .ok k) ∧
    (∀ k, (m.run code none horizon).1 = .ok k →
      ∀ n, k ≤ n → m.run code (some n) horizon = m.run code none horizon) ∧
    (m.status = .halted → ∀ limit, m.run code limit horizon = (.ok 0, m)) ∧
    (m.status = .faulted → ∀ limit, m.run code limit horizon =
      (.error (.fault m.lastAddress code[m.lastAddress.toNat]?), m)) ∧
    (∀ limit limit' address byte, (m.run code limit horizon).1 = .error (.fault address byte) →
      let faulted := (m.run code limit horizon).2
      faulted.run code limit' horizon = (.error (.fault address byte), faulted)) := by
  refine ⟨fun n => m.run_some_exact code n horizon, fun n n' h => ?_,
    fun k h n hk => run_some_of_run_none_eq_ok h hk horizon, fun hm limit => ?_, fun hm limit => ?_,
    fun limit limit' address byte h => run_again_of_fault h limit'⟩
  · have hrunning := (run_eq_stepLimit_iff.1 h).1
    simp only [snd_run, Option.getD_some]
    exact ⟨(m.after_add code n n').symm, fun k => run_resumed_eq_ok_iff hrunning⟩
  · rw [run_of_not_running (by simp [hm]), outcome_eq_ok_iff.2 ⟨hm, rfl⟩]
  · rw [run_of_not_running (by simp [hm]), outcome_eq_fault_iff.2 ⟨hm, rfl, rfl⟩]

/-- A load and a halt. The limit of one step is hit before the halt; a second step makes it, and a
run without a limit is the run with five steps. -/
theorem run_resumed_at_halt :
    let code : List UInt8 := [1, 0, 7, 44]
    let first := initial.run code (some 1) 9
    first.1 = .error (.stepLimit 1) ∧ (first.2.run code (some 1) 9).1 = .ok 1 ∧
      (initial.run code none 9).1 = .ok 2 ∧
      initial.run code (some 5) 9 = initial.run code none 9 := by
  intro code first
  obtain ⟨-, hresumed, hfree, -⟩ := run_exact_and_resumable code initial 9
  have hlimit : first.1 = .error (.stepLimit 1) := rfl
  have hwhole : (initial.run code (some (1 + 1)) 9).1 = .ok (1 + 1) := rfl
  have hhalts : (initial.run code none 9).1 = .ok 2 := rfl
  exact ⟨hlimit, ((hresumed 1 1 hlimit).2 1).1 hwhole, hhalts, hfree 2 hhalts 5 (by decide)⟩

end Machine

end RegisterMachine
