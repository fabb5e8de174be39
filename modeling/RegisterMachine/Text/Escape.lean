/-!
# RegisterMachine.Text.Escape

Text for a terminal: the control characters that act on it are written by their code points.

* `escaped` writes a text, and `not_control_of_mem_escaped` says that none of them is left.

Rules:
1. bell, backspace, form feed, escape and delete become a backslash, an `x` and two lower-case
   hexadecimal digits;
2. the control characters from U+0080 to U+009F become a backslash, a `u` and their lower-case
   hexadecimal digits in braces;
3. every other character stays as it is, among them tabs, line ends and backslashes.
-/

namespace RegisterMachine

/-- A control character of ASCII that acts on a terminal: bell, backspace, form feed, escape or
delete. -/
def isTerminalCommand (c : Char) : Bool :=
  [0x07, 0x08, 0x0c, 0x1b, 0x7f].contains c.toNat

/-- A control character above ASCII. -/
def isHighControl (c : Char) : Bool :=
  0x80 ≤ c.toNat && c.toNat ≤ 0x9f

/-- The two hexadecimal digits of a code point below 256. -/
def hexPair (n : Nat) : List Char :=
  [Nat.digitChar (n / 16), Nat.digitChar (n % 16)]

/-- A character as it is written. -/
def escapedChar (c : Char) : List Char :=
  if isTerminalCommand c then '\\' :: 'x' :: hexPair c.toNat
  else if isHighControl c then '\\' :: 'u' :: '\x7b' :: hexPair c.toNat ++ ['\x7d']
  else [c]

/-- A text that no terminal acts on. -/
def escaped (text : String) : String :=
  String.ofList (text.toList.flatMap escapedChar)

/-- A digit is no control character. -/
theorem not_control_digitChar (n : Nat) :
    isTerminalCommand n.digitChar = false ∧ isHighControl n.digitChar = false := by
  by_cases h : n < 16
  · have digits : ∀ m < 16,
        isTerminalCommand m.digitChar = false ∧ isHighControl m.digitChar = false := by
      decide
    exact digits n h
  · have star : n.digitChar = '*' := by
      unfold Nat.digitChar
      repeat rw [if_neg (by omega)]
    rw [star]
    decide

/-- Neither kind of control character is in what a character is written as. -/
theorem not_control_of_mem_escapedChar {c d : Char} (h : d ∈ escapedChar c) :
    isTerminalCommand d = false ∧ isHighControl d = false := by
  unfold escapedChar hexPair at h
  split at h
  · simp only [List.mem_cons, List.not_mem_nil, or_false] at h
    rcases h with rfl | rfl | rfl | rfl
    · decide
    · decide
    · exact not_control_digitChar _
    · exact not_control_digitChar _
  · next hc =>
    split at h
    · simp only [List.cons_append, List.nil_append, List.mem_cons, List.not_mem_nil, or_false] at h
      rcases h with rfl | rfl | rfl | rfl | rfl | rfl
      · decide
      · decide
      · decide
      · exact not_control_digitChar _
      · exact not_control_digitChar _
      · decide
    · next hh =>
      rw [List.mem_singleton.1 h]
      exact ⟨Bool.eq_false_iff.2 hc, Bool.eq_false_iff.2 hh⟩

/-- An escaped text has no control character that acts on a terminal. -/
theorem not_control_of_mem_escaped {text : String} {d : Char} (h : d ∈ (escaped text).toList) :
    isTerminalCommand d = false ∧ isHighControl d = false := by
  rw [escaped, String.toList_ofList, List.mem_flatMap] at h
  obtain ⟨_, -, hd⟩ := h
  exact not_control_of_mem_escapedChar hd

/-- A text without such characters stays as it is. -/
theorem escaped_eq_self {text : String}
    (h : ∀ c ∈ text.toList, isTerminalCommand c = false ∧ isHighControl c = false) :
    escaped text = text := by
  have plain : ∀ cs : List Char, (∀ c ∈ cs, isTerminalCommand c = false ∧ isHighControl c = false) →
      cs.flatMap escapedChar = cs := by
    intro cs hcs
    induction cs with
    | nil => rfl
    | cons c cs ih =>
      have hc := hcs c (List.mem_cons_self ..)
      have hs := ih fun d hd => hcs d (List.mem_cons_of_mem _ hd)
      simp [List.flatMap_cons, escapedChar, hc.1, hc.2, hs]
  rw [escaped, plain _ h, String.ofList_toList]

end RegisterMachine
