import RegisterMachine.Command.Directory

/-!
# RegisterMachine.Proofs.Command.Name

Files that are named without a path.

* a `PlainName` leads to one place in the directory (`locate_of_plain`), is read if a file stands
  there, and written if no directory does;
* `node_put` -- what is written changes this one place;
* `IsStem` says what of a name stands before its extension, and `withExtension_of_isStem` that the
  extension is replaced behind it.
-/

namespace RegisterMachine

/-- A name that a file of the directory itself may have, and that is no option of a command. -/
structure PlainName (name : String) : Prop where
  normal : name ∉ ["", ".", ".."]
  slashless : '/' ∉ name.toList
  dashless : name.toList.head? ≠ some '-'

namespace PlainName

variable {name : String}

theorem ne_each (h : PlainName name) : name ≠ "" ∧ name ≠ "." ∧ name ≠ ".." := by
  simpa using h.normal

theorem ne_empty (h : PlainName name) : name ≠ "" :=
  h.ne_each.1

theorem ne_dots (h : PlainName name) : name ≠ ".." :=
  h.ne_each.2.2

theorem isIdlePart_eq (h : PlainName name) : isIdlePart name = false := by
  simp [isIdlePart, h.ne_each]

end PlainName

/-- A name of more than two characters leads nowhere else. -/
theorem normal_of_length {name : String} (h : 2 < name.toList.length) : name ∉ ["", ".", ".."] := by
  intro hmem
  simp only [List.mem_cons, List.not_mem_nil, or_false] at hmem
  rcases hmem with heq | heq | heq <;> simp [heq] at h

/-! ## Paths of one part -/

namespace PlainName

variable {name : String}

theorem pathParts_eq (h : PlainName name) : pathParts name = [name] := by
  rw [pathParts, List.splitOn_eq_singleton h.slashless, List.map_singleton, String.ofList_toList]

theorem isAbsolute_eq (h : PlainName name) : isAbsolute name = false := by
  rw [isAbsolute, beq_eq_false_iff_ne]
  exact fun hslash => h.slashless (List.mem_of_mem_head? hslash)

theorem fileName?_eq (h : PlainName name) : fileName? name = some name := by
  simp [fileName?, h.pathParts_eq, h.isIdlePart_eq, h.ne_dots]

end PlainName

/-! ## Extensions -/

/-- What stands before the extension of a name: all of it when it has no point behind its first
character, and else what stands before its last point. -/
inductive IsStem : (name stem : String) → Prop
  | pointless {name : String} (h : '.' ∉ name.toList.tail) : IsStem name name
  | before {stem extension : String} (hstem : stem ≠ "") (h : '.' ∉ extension.toList) :
      IsStem (stem ++ "." ++ extension) stem

theorem bne_of_mem_reverse {separator : Char} {text : List Char} (h : separator ∉ text) :
    ∀ c ∈ text.reverse, (c != separator) = true := by
  intro c hc
  rw [bne_iff_ne]
  rintro rfl
  exact h (List.mem_reverse.1 hc)

theorem takeWhile_eq_self {p : Char → Bool} {text : List Char} (h : ∀ a ∈ text, p a = true) :
    text.takeWhile p = text := by
  have happend := @List.takeWhile_append_of_pos _ _ text [] h
  simpa using happend

theorem dropWhile_eq_nil {p : Char → Bool} {text : List Char} (h : ∀ a ∈ text, p a = true) :
    text.dropWhile p = [] := by
  have happend := @List.dropWhile_append_of_pos _ _ text [] h
  simpa using happend

theorem splitExtension?_eq_none {name : List Char} (h : '.' ∉ name.tail) :
    splitExtension? name = none := by
  cases name with
  | nil => rfl
  | cons c cs =>
      have hcs : '.' ∉ cs := h
      have hdrop : ((c :: cs).reverse.dropWhile (· != '.')).drop 1 = [] := by
        rw [List.reverse_cons, List.dropWhile_append_of_pos (bne_of_mem_reverse hcs)]
        cases hc : c != '.' <;> simp [hc]
      simp only [splitExtension?, hdrop]
      rfl

theorem splitExtension?_append {stem extension : List Char} (hstem : stem ≠ [])
    (h : '.' ∉ extension) :
    splitExtension? (stem ++ '.' :: extension) = some (stem, extension) := by
  have hno := bne_of_mem_reverse h
  have hreverse : (stem ++ '.' :: extension).reverse =
      extension.reverse ++ '.' :: stem.reverse := by
    simp
  have htake : (extension.reverse ++ '.' :: stem.reverse).takeWhile (· != '.') =
      extension.reverse := by
    rw [List.takeWhile_append_of_pos hno]
    simp
  have hdrop : (extension.reverse ++ '.' :: stem.reverse).dropWhile (· != '.') =
      '.' :: stem.reverse := by
    rw [List.dropWhile_append_of_pos hno]
    simp
  simp [splitExtension?, hreverse, htake, hdrop, hstem]

section Stems

variable {name stem : String}

theorem toList_pointed (stem extension : String) :
    (stem ++ "." ++ extension).toList = stem.toList ++ '.' :: extension.toList := by
  simp

/-- The stem of a name is the name up to its extension. -/
theorem splitExtension?_of_isStem (h : IsStem name stem) :
    ((splitExtension? name.toList).map (·.1)).getD name.toList = stem.toList := by
  cases h with
  | pointless h => rw [splitExtension?_eq_none h, Option.map_none, Option.getD_none]
  | before hstem h =>
      rw [toList_pointed, splitExtension?_append (mt String.toList_eq_nil_iff.1 hstem) h,
        Option.map_some, Option.getD_some]

/-- The extension of a name is replaced behind its stem. -/
theorem withExtension_of_isStem (hname : PlainName name) (h : IsStem name stem) (hdot : stem ≠ ".")
    (extension : String) : withExtension name extension = stem ++ "." ++ extension := by
  have hslash := bne_of_mem_reverse hname.slashless
  have hstem : stem.toList ≠ ['.'] := fun heq => hdot (String.toList_injective heq)
  simp only [withExtension, takeWhile_eq_self hslash, dropWhile_eq_nil hslash, List.reverse_reverse,
    List.reverse_nil, List.nil_append, splitExtension?_of_isStem h, if_neg hstem,
    String.ofList_toList]

theorem extension?_eq_none (hname : PlainName name) (h : '.' ∉ name.toList.tail) :
    extension? name = none := by
  rw [extension?, hname.fileName?_eq, Option.bind_eq_bind, Option.bind_some,
    splitExtension?_eq_none h]
  rfl

/-- What was put behind a point is the extension. -/
theorem extension?_append {extension : String} (hname : PlainName (stem ++ "." ++ extension))
    (hstem : stem ≠ "") (h : '.' ∉ extension.toList) :
    extension? (stem ++ "." ++ extension) = some extension := by
  rw [extension?, hname.fileName?_eq, Option.bind_eq_bind, Option.bind_some, toList_pointed,
    splitExtension?_append (mt String.toList_eq_nil_iff.1 hstem) h]
  exact congrArg some String.ofList_toList

theorem IsStem.ne_empty (h : IsStem name stem) (hname : PlainName name) : stem ≠ "" := by
  cases h with
  | pointless => exact hname.ne_empty
  | before hstem => exact hstem

theorem IsStem.prefix_toList (h : IsStem name stem) : stem.toList <+: name.toList := by
  cases h with
  | pointless => exact List.prefix_refl _
  | before => exact ⟨_, (toList_pointed _ _).symm⟩

/-- A plain name is plain with another extension as well. -/
theorem IsStem.plainName_pointed (h : IsStem name stem) (hname : PlainName name)
    {extension : String} (hextension : extension ≠ "") (hslash : '/' ∉ extension.toList) :
    PlainName (stem ++ "." ++ extension) := by
  obtain ⟨c, cs, hstem⟩ :=
    List.exists_cons_of_ne_nil (mt String.toList_eq_nil_iff.1 (h.ne_empty hname))
  obtain ⟨e, es, hes⟩ := List.exists_cons_of_ne_nil (mt String.toList_eq_nil_iff.1 hextension)
  obtain ⟨rest, hrest⟩ := h.prefix_toList
  constructor
  · apply normal_of_length
    rw [toList_pointed, hstem, hes]
    simp
    omega
  · rw [toList_pointed, List.mem_append, List.mem_cons]
    rintro (hmem | heq | hmem)
    · exact hname.slashless (hrest ▸ List.mem_append_left rest hmem)
    · exact absurd heq (by decide)
    · exact hslash hmem
  · have hfirst := hname.dashless
    rw [← hrest, hstem] at hfirst
    rw [toList_pointed, hstem]
    exact hfirst

end Stems

/-! ## Files in the directory -/

namespace Directory

variable {d : Directory} {name : String} {bytes : List UInt8}

theorem locate_of_plain (d : Directory) (access : Access) (h : PlainName name)
    (hsize : name.utf8ByteSize ≤ nameLimit) :
    d.locate access name = .ok (.inside [name], d.node [name]) := by
  have hpath : ¬ pathLimit ≤ name.utf8ByteSize := by
    rw [nameLimit] at hsize
    rw [pathLimit]
    omega
  rw [locate, if_neg hpath, h.isAbsolute_eq, h.pathParts_eq]
  cases hnode : d.node [name] <;>
    simp [follow, h.isIdlePart_eq, h.ne_dots, Nat.not_lt.2 hsize, named, hnode, Place.child]

/-- A name that is too long is known nowhere. -/
theorem locate_of_long (d : Directory) (access : Access) (h : PlainName name)
    (hsize : nameLimit < name.utf8ByteSize) : d.locate access name = .error .nameTooLong := by
  rw [locate]
  split
  · rfl
  · rw [h.isAbsolute_eq, h.pathParts_eq]
    simp [follow, h.isIdlePart_eq, h.ne_dots, hsize]

/-- What is read under a plain name stands there. -/
theorem node_of_read (h : PlainName name) (hread : d.read name = .ok bytes) :
    name.utf8ByteSize ≤ nameLimit ∧ d.node [name] = .file bytes := by
  by_cases hsize : name.utf8ByteSize ≤ nameLimit
  · rw [read, locate_of_plain d .reading h hsize] at hread
    cases hnode : d.node [name] with
    | file bytes' =>
        rw [hnode] at hread
        cases hread
        exact ⟨hsize, rfl⟩
    | directory =>
        rw [hnode] at hread
        contradiction
    | absent =>
        rw [hnode] at hread
        contradiction
  · rw [read, locate_of_long d .reading h (Nat.lt_of_not_le hsize)] at hread
    contradiction

theorem read_of_node (h : PlainName name) (hsize : name.utf8ByteSize ≤ nameLimit)
    (hnode : d.node [name] = .file bytes) : d.read name = .ok bytes := by
  rw [read, locate_of_plain d .reading h hsize, hnode]

theorem write_of_plain (h : PlainName name) (hsize : name.utf8ByteSize ≤ nameLimit)
    (hnode : d.node [name] ≠ .directory) (bytes : List UInt8) :
    d.write name bytes = .ok (d.put bytes (.inside [name])) := by
  rw [write, locate_of_plain d .writing h hsize]
  cases hd : d.node [name] with
  | directory => exact absurd hd hnode
  | file _ => rfl
  | absent => rfl

theorem lookup_put (files : List (List String × List UInt8)) (key : List String)
    (bytes : List UInt8)
    (parts : List String) : (files.filter (·.1 != key) ++ [(key, bytes)]).lookup parts =
      if parts = key then some bytes else files.lookup parts := by
  induction files with
  | nil => by_cases h : parts = key <;> simp [h, List.lookup_cons, beq_false_of_ne]
  | cons file files ih =>
      obtain ⟨place, content⟩ := file
      by_cases hplace : place = key
      · rw [List.filter_cons_of_neg (by simp [hplace]), ih, List.lookup_cons]
        by_cases h : parts = key <;> simp [h, hplace, beq_false_of_ne]
      · rw [List.filter_cons_of_pos (by simp [hplace]), List.cons_append, List.lookup_cons, ih,
          List.lookup_cons]
        by_cases h : parts = key <;> simp [h, beq_false_of_ne (Ne.symm hplace)]

theorem isPrefixOf_singleton {parts : List String} {name : String} (h : parts.isPrefixOf [name]) :
    parts = [] ∨ parts = [name] := by
  rcases List.prefix_cons_iff.1 (List.isPrefixOf_iff_prefix.1 h) with h | ⟨t, rfl, ht⟩
  · exact .inl h
  · rw [List.prefix_nil.1 ht]
    exact .inr rfl

/-- What is put under a name stands there, and nothing else changes. -/
theorem node_put (d : Directory) (name : String) (bytes : List UInt8) (parts : List String) :
    (d.put bytes (.inside [name])).node parts =
      if parts = [name] then .file bytes else d.node parts := by
  rw [put, node, lookup_put]
  by_cases h : parts = [name]
  · rw [if_pos h, if_pos h]
  · -- the file that is put makes directories of nothing but the whole directory
    have hany : (parts.isEmpty || (d.files.filter (·.1 != [name]) ++ [([name], bytes)]).any
        fun file => parts.isPrefixOf file.1) =
          (parts.isEmpty || d.files.any fun file => parts.isPrefixOf file.1) := by
      cases hparts : parts.isEmpty with
      | true => rfl
      | false =>
          have hnone : parts.isPrefixOf [name] = false := by
            refine Bool.eq_false_iff.2 fun hprefix => ?_
            rcases isPrefixOf_singleton hprefix with rfl | heq
            · contradiction
            · exact h heq
          have hother (place : List String) :
              (place != [name] && parts.isPrefixOf place) = parts.isPrefixOf place := by
            by_cases hplace : place = [name] <;> simp [hplace, hnone]
          simp [List.any_append, List.any_filter, hnone, hother]
    rw [if_neg h, if_neg h, node, hany]

end Directory

end RegisterMachine
