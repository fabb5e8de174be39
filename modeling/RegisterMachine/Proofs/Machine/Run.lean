import RegisterMachine.Proofs.Machine.Step

/-!
# RegisterMachine.Proofs.Machine.Run

Runs of any length.

* `Machine.after code n m` is the machine after `n` steps, and `Machine.StopsAfter` says that a step
  is the last one of a run;
* `run_eq` -- what a run answers is determined by the state after the least of its budget and of the
  steps to where the machine stops;
* `run_eq_ok_iff` and `run_eq_fault_iff` -- a run halts or faults exactly where the machine does, if
  its budget reaches so far.
-/

namespace RegisterMachine

namespace Machine

/-- The machine after some steps. -/
def after (code : List UInt8) : (steps : Nat) → Machine → Machine
  | 0, m => m
  | n + 1, m => after code n (m.step code)

variable {code : List UInt8} {m : Machine}

@[simp]
theorem after_zero (code : List UInt8) (m : Machine) : m.after code 0 = m := rfl

@[simp]
theorem after_one (code : List UInt8) (m : Machine) : m.after code 1 = m.step code := rfl

theorem after_add (code : List UInt8) (a b : Nat) (m : Machine) :
    m.after code (a + b) = (m.after code a).after code b := by
  induction a generalizing m with
  | zero => rw [Nat.zero_add, after_zero]
  | succ a ih => rw [Nat.succ_add, after, ih, after]

/-- The last of some steps. -/
theorem after_succ (code : List UInt8) (n : Nat) (m : Machine) :
    m.after code (n + 1) = (m.after code n).step code := by
  rw [after_add, after_one]

/-- A machine that does not run stays as it is. -/
theorem after_of_not_running (hm : m.status ≠ .running) (n : Nat) : m.after code n = m := by
  induction n with
  | zero => rfl
  | succ n ih => rw [after, step_of_not_running hm, ih]

/-- A machine that runs after some steps ran all the time. -/
theorem running_of_le {a b : Nat} (hle : a ≤ b) (hb : (m.after code b).status = .running) :
    (m.after code a).status = .running := by
  obtain ⟨k, rfl⟩ := Nat.exists_eq_add_of_le hle
  by_cases ha : (m.after code a).status = .running
  · exact ha
  · rw [after_add, after_of_not_running ha] at hb
    exact hb

/-- After some steps the machine has stopped, and not before. -/
structure StopsAfter (code : List UInt8) (m : Machine) (steps : Nat) : Prop where
  running : ∀ j, j < steps → (m.after code j).status = .running
  stopped : (m.after code steps).status ≠ .running

theorem StopsAfter.unique {a b : Nat} (ha : m.StopsAfter code a) (hb : m.StopsAfter code b) :
    a = b := by
  rcases Nat.lt_trichotomy a b with h | h | h
  · exact absurd (hb.running a h) ha.stopped
  · exact h
  · exact absurd (ha.running b h) hb.stopped

/-! ## Budgets -/

/-- Steps within a budget end where the machine stops or where the budget does. -/
theorem advance_eq (code : List UInt8) (budget taken : Nat) (m : Machine) :
    ∃ k, m.advance code budget taken = (taken + k, m.after code k) ∧ k ≤ budget ∧
      (∀ j, j < k → (m.after code j).status = .running) ∧
      (k = budget ∨ (m.after code k).status ≠ .running) := by
  induction budget generalizing taken m with
  | zero => exact ⟨0, rfl, Nat.le_refl 0, fun j hj => absurd hj (Nat.not_lt_zero j), .inl rfl⟩
  | succ budget ih =>
      by_cases hm : m.status = .running
      · obtain ⟨k, hadvance, hk, hrunning, hend⟩ := ih (taken + 1) (m.step code)
        refine ⟨k + 1, ?_, Nat.succ_le_succ hk, fun j hj => ?_, hend.imp (congrArg (· + 1)) id⟩
        · rw [advance, if_pos hm, hadvance, Nat.add_assoc, Nat.add_comm 1 k, after]
        · cases j with
          | zero => exact hm
          | succ j => exact hrunning j (Nat.lt_of_succ_lt_succ hj)
      · refine ⟨0, ?_, Nat.zero_le _, fun j hj => absurd hj (Nat.not_lt_zero j), .inr hm⟩
        rw [advance, if_neg hm, Nat.add_zero, after_zero]

/-- A run ends after as many steps as its budget allows and the machine takes. -/
theorem run_eq (code : List UInt8) (limit : Option Nat) (horizon : Nat) (m : Machine) :
    ∃ k, m.run code limit horizon = ((m.after code k).outcome code limit k, m.after code k) ∧
      ((k = limit.getD horizon ∧ (m.after code k).status = .running) ∨
        (k ≤ limit.getD horizon ∧ m.StopsAfter code k)) := by
  obtain ⟨k, hadvance, hk, hrunning, hend⟩ := advance_eq code (limit.getD horizon) 0 m
  refine ⟨k, ?_, ?_⟩
  · rw [run, hadvance, Nat.zero_add]
  · by_cases hlast : (m.after code k).status = .running
    · exact .inl ⟨hend.resolve_right fun h => h hlast, hlast⟩
    · exact .inr ⟨hk, hrunning, hlast⟩

/-- What a run answers, where the machine stops within the budget. -/
theorem run_of_stopsAfter {limit : Option Nat} {horizon k : Nat} (hk : k ≤ limit.getD horizon)
    (hstops : m.StopsAfter code k) :
    m.run code limit horizon = ((m.after code k).outcome code limit k, m.after code k) := by
  obtain ⟨k', hrun, ⟨hbudget, hrunning⟩ | ⟨-, hstops'⟩⟩ := run_eq code limit horizon m
  · exact absurd (running_of_le (hbudget ▸ hk) hrunning) hstops.stopped
  · rw [hrun, hstops'.unique hstops]

theorem outcome_eq_ok_iff {limit : Option Nat} {steps k : Nat} :
    m.outcome code limit steps = .ok k ↔ m.status = .halted ∧ steps = k := by
  obtain ⟨registers, flag, status, lastAddress⟩ := m
  cases status <;> cases limit <;> simp [outcome]

theorem outcome_eq_fault_iff {limit : Option Nat} {steps : Nat} {address : UInt64}
    {byte : Option UInt8} :
    m.outcome code limit steps = .error (.fault address byte) ↔
      m.status = .faulted ∧ m.lastAddress = address ∧ code[m.lastAddress.toNat]? = byte := by
  obtain ⟨registers, flag, status, lastAddress⟩ := m
  cases status <;> cases limit <;> simp [outcome]

/-- A run halts with a number of steps exactly if the machine halts after so many, and the budget
allows them. -/
theorem run_eq_ok_iff {limit : Option Nat} {horizon k : Nat} :
    (m.run code limit horizon).1 = .ok k ↔
      k ≤ limit.getD horizon ∧ m.StopsAfter code k ∧ (m.after code k).status = .halted := by
  constructor
  · intro h
    obtain ⟨k', hrun, hend⟩ := run_eq code limit horizon m
    rw [hrun, outcome_eq_ok_iff] at h
    obtain ⟨hhalted, rfl⟩ := h
    rcases hend with ⟨-, hrunning⟩ | ⟨hk, hstops⟩
    · rw [hrunning] at hhalted
      contradiction
    · exact ⟨hk, hstops, hhalted⟩
  · rintro ⟨hk, hstops, hhalted⟩
    rw [run_of_stopsAfter hk hstops, outcome_eq_ok_iff]
    exact ⟨hhalted, rfl⟩

/-- A run faults exactly if the machine does within the budget, and reports where. -/
theorem run_eq_fault_iff {limit : Option Nat} {horizon : Nat} {address : UInt64}
    {byte : Option UInt8} :
    (m.run code limit horizon).1 = .error (.fault address byte) ↔
      ∃ k, k ≤ limit.getD horizon ∧ m.StopsAfter code k ∧ (m.after code k).status = .faulted ∧
        (m.after code k).lastAddress = address ∧
        code[(m.after code k).lastAddress.toNat]? = byte := by
  constructor
  · intro h
    obtain ⟨k, hrun, hend⟩ := run_eq code limit horizon m
    rw [hrun, outcome_eq_fault_iff] at h
    rcases hend with ⟨-, hrunning⟩ | ⟨hk, hstops⟩
    · rw [hrunning] at h
      exact absurd h.1 (by decide)
    · exact ⟨k, hk, hstops, h⟩
  · rintro ⟨k, hk, hstops, hfault⟩
    rw [run_of_stopsAfter hk hstops, outcome_eq_fault_iff]
    exact hfault

end Machine

end RegisterMachine
