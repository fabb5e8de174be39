import RegisterMachine.Proofs.Except
import RegisterMachine.Proofs.Program.Lines

/-!
# RegisterMachine.Proofs.Assembly.Layout

What the layout of a program knows: every label stands for the address of the line that defines it
(`lookup_of_layoutBody`), every procedure begins behind the bytes of those before it
(`layout_eq_map`), and no procedure defines a label twice.
-/

namespace RegisterMachine

/-! ## Bodies -/

section Bodies

variable {procedure : String} {address stop : Nat} {labels labels' : Labels} {body : List Statement}

/-- A statement defines a label that was not defined yet, or no label. -/
theorem defineLabel_eq_ok {s : Statement}
    (h : s.defineLabel procedure address labels = .ok labels') :
    (s.form? = some .label ∧ labels.lookup s.head.text = none ∧
        labels' = (s.head.text, address) :: labels) ∨
      (s.form? ≠ some .label ∧ labels' = labels) := by
  rw [Statement.defineLabel] at h
  split at h
  next hform =>
    split at h
    next => contradiction
    next hnone =>
      cases h
      exact .inl ⟨hform, Option.not_isSome_iff_eq_none.1 hnone, rfl⟩
  next hform =>
    cases h
    exact .inr ⟨hform, rfl⟩

/-- One statement of a body: it has a form, and the others follow behind its bytes. -/
theorem layoutBody_cons_eq_ok {s : Statement}
    (h : layoutBody procedure address labels (s :: body) = .ok (labels', stop)) :
    ∃ defined, s.defineLabel procedure address labels = .ok defined ∧
      ∀ number, layoutBody procedure (address + (Line.mk number s).size) defined body =
        .ok (labels', stop) := by
  rw [layoutBody] at h
  obtain ⟨defined, hdefined, h⟩ := eq_ok_of_bind_eq_ok h
  refine ⟨defined, hdefined, fun number => ?_⟩
  split at h
  next form hform =>
    rw [Line.size, hform]
    exact h
  next => contradiction

/-- A body ends behind the bytes of its lines. -/
theorem stop_of_layoutBody (h : layoutBody procedure address labels body = .ok (labels', stop))
    (number : Nat) : stop = address + linesSize (body.map (Line.mk number)) := by
  induction body generalizing address labels with
  | nil =>
      cases h
      rfl
  | cons s body ih =>
      obtain ⟨defined, -, hlater⟩ := layoutBody_cons_eq_ok h
      rw [ih (hlater number), List.map_cons, linesSize, Nat.add_assoc]

/-- The labels of a body are those before it and those of its lines, with the lines' addresses. -/
theorem lookup_of_layoutBody (h : layoutBody procedure address labels body = .ok (labels', stop))
    (number : Nat) (label : String) :
    labels'.lookup label =
      (labels.lookup label).or
        ((labelLine? (body.map (Line.mk number)) number label).map fun k =>
          address + addressOf (body.map (Line.mk number)) k) := by
  induction body generalizing address labels with
  | nil =>
      cases h
      exact (Option.or_none).symm
  | cons s body ih =>
      obtain ⟨defined, hdefined, hlater⟩ := layoutBody_cons_eq_ok h
      rw [ih (hlater number), List.map_cons, labelLine?_cons]
      rcases defineLabel_eq_ok hdefined with ⟨hform, hnone, rfl⟩ | ⟨hform, rfl⟩
      · by_cases htext : s.head.text = label
        · have hdefines : (Line.mk number s).Defines number label := ⟨rfl, hform, htext⟩
          rw [if_pos hdefines, List.lookup_cons, htext, beq_self_eq_true, ← htext, hnone]
          rfl
        · have hdefines : ¬ (Line.mk number s).Defines number label := fun hd => htext hd.2.2
          have hbeq : (label == s.head.text) = false := beq_false_of_ne (Ne.symm htext)
          rw [if_neg hdefines, List.lookup_cons, hbeq]
          simp [Function.comp_def, addressOf_cons_succ, Nat.add_assoc]
      · have hdefines : ¬ (Line.mk number s).Defines number label := fun hd => hform hd.2.1
        rw [if_neg hdefines]
        simp [Function.comp_def, addressOf_cons_succ, Nat.add_assoc]

/-- A body that has a layout defines no label twice, and none that is defined before it. -/
theorem distinctLabels_of_layoutBody
    (h : layoutBody procedure address labels body = .ok (labels', stop)) (number : Nat) :
    DistinctLabels (body.map (Line.mk number)) ∧
      ∀ l ∈ body.map (Line.mk number), ∀ label,
        l.Defines number label → labels.lookup label = none := by
  induction body generalizing address labels with
  | nil => simp [DistinctLabels]
  | cons s body ih =>
      obtain ⟨defined, hdefined, hlater⟩ := layoutBody_cons_eq_ok h
      obtain ⟨hdistinct, hfresh⟩ := ih (hlater number)
      rw [List.map_cons]
      rcases defineLabel_eq_ok hdefined with ⟨hform, hnone, rfl⟩ | ⟨hform, rfl⟩
      · have hother : ∀ l ∈ body.map (Line.mk number), ∀ label, l.Defines number label →
            labels.lookup label = none ∧ label ≠ s.head.text := fun l hl label hd => by
          have hlookup := hfresh l hl label hd
          rw [List.lookup_cons] at hlookup
          split at hlookup
          next => contradiction
          next hne => exact ⟨hlookup, fun heq => by simp [heq] at hne⟩
        refine ⟨List.Pairwise.cons (fun l hl n label hs hd => ?_) hdistinct,
          fun l hl label hd => ?_⟩
        · obtain ⟨rfl, -, rfl⟩ := hs
          exact (hother l hl _ hd).2 rfl
        · rcases List.mem_cons.1 hl with rfl | hl
          · exact hd.2.2 ▸ hnone
          · exact (hother l hl label hd).1
      · refine ⟨List.Pairwise.cons (fun l _ n label hs => absurd hs.2.1 hform) hdistinct,
          fun l hl label hd => ?_⟩
        rcases List.mem_cons.1 hl with rfl | hl
        · exact absurd hd.2.1 hform
        · exact hfresh l hl label hd

end Bodies

/-! ## Procedures -/

/-- A layout gives every procedure the address behind the bytes of those before it. -/
theorem layout_eq_map {address : Nat} {procedures : List Procedure} {layouts : List ProcedureLayout}
    (h : layout address procedures = .ok layouts) (number : Nat) :
    layouts.map ProcedureLayout.address =
      procedures.mapIdx fun k _ => address + linesSize (linesFrom number (procedures.take k)) := by
  induction procedures generalizing address layouts number with
  | nil =>
      cases h
      rfl
  | cons p procedures ih =>
      obtain ⟨⟨labels, stop⟩, hbody, h⟩ := eq_ok_of_bind_eq_ok h
      obtain ⟨later, hlater, h⟩ := eq_ok_of_bind_eq_ok h
      cases h
      rw [List.map_cons, ih hlater (number + 1), List.mapIdx_cons, stop_of_layoutBody hbody number]
      simp only [List.take_succ_cons, linesFrom, linesSize_append, Nat.add_assoc]
      rfl

theorem length_of_layout {address : Nat} {procedures : List Procedure}
    {layouts : List ProcedureLayout}
    (h : layout address procedures = .ok layouts) : layouts.length = procedures.length := by
  have hlength := congrArg List.length (layout_eq_map h 0)
  rwa [List.length_map, List.length_mapIdx] at hlength

theorem distinctLabels_of_layout {address : Nat} {procedures : List Procedure}
    {layouts : List ProcedureLayout} (h : layout address procedures = .ok layouts) (number : Nat) :
    DistinctLabels (linesFrom number procedures) := by
  induction procedures generalizing address layouts number with
  | nil => exact .nil
  | cons p procedures ih =>
      obtain ⟨⟨labels, stop⟩, hbody, h⟩ := eq_ok_of_bind_eq_ok h
      obtain ⟨later, hlater, -⟩ := eq_ok_of_bind_eq_ok h
      refine List.pairwise_append.2
        ⟨(distinctLabels_of_layoutBody hbody number).1, ih hlater (number + 1), ?_⟩
      intro l hl l' hl' n label hd hd'
      obtain ⟨s, -, rfl⟩ := List.mem_map.1 hl
      have hle := le_procedure_of_mem_linesFrom hl'
      rw [← hd.1] at hd'
      have heq : l'.procedure = number := hd'.1
      omega

end RegisterMachine
