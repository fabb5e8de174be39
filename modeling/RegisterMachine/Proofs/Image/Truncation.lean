import RegisterMachine.Proofs.Image.Wire

/-!
# RegisterMachine.Proofs.Image.Truncation

Images that are cut short.

* `RefusesCuts reader bytes` -- wherever the bytes are cut, the reader runs into their end, and
  nothing else is found wrong before;
* `RefusesCuts.bind` -- this holds of two fields if it holds of each: a cut falls into the first
  one, or the first one is read back and the cut falls into the second;
* `refusesCuts_readImage` puts the fields of an image together, and `ofBytes_eq_unexpectedEnd_iff`
  says that of the beginnings of an image only the whole one is not refused for its end.
-/

namespace RegisterMachine

/-- The reader runs into the end of the bytes wherever they are cut. -/
def RefusesCuts {α : Type} (reader : List UInt8 → Except WireError (α × List UInt8))
    (bytes : List UInt8) : Prop :=
  ∀ front, front <+: bytes → front ≠ bytes → reader front = .error .unexpectedEnd

namespace RefusesCuts

variable {α β : Type} {reader : List UInt8 → Except WireError (α × List UInt8)}
  {next : α × List UInt8 → Except WireError (β × List UInt8)} {xs ys : List UInt8} {a : α}

/-- No bytes cannot be cut. -/
theorem nil (reader : List UInt8 → Except WireError (α × List UInt8)) : RefusesCuts reader [] :=
  fun _ hfront hne => absurd (List.prefix_nil.1 hfront) hne

/-- A field and what is read behind it, if the field is read back from the front of any bytes. -/
theorem bind (hfirst : RefusesCuts reader xs) (hwhole : ∀ rest, reader (xs ++ rest) = .ok (a, rest))
    (hnext : RefusesCuts (fun rest => next (a, rest)) ys) :
    RefusesCuts (fun bytes => reader bytes >>= next) (xs ++ ys) := by
  intro front hfront hne
  rcases List.prefix_or_prefix_of_prefix hfront (List.prefix_append xs ys) with hshort |
    ⟨later, rfl⟩
  · by_cases hall : front = xs
    · -- the cut falls between the two fields
      have hempty : [] ≠ ys := by
        rintro rfl
        exact hne (by rw [hall, List.append_nil])
      have hread := hwhole []
      rw [List.append_nil] at hread
      simp only [hall, hread, ok_bind]
      exact hnext [] List.nil_prefix hempty
    · simp only [hfirst front hshort hall]
      rfl
  · simp only [hwhole, ok_bind]
    refine hnext later ((List.prefix_append_right_inj xs).1 hfront) ?_
    rintro rfl
    exact hne rfl

/-- What is made of the last field when it has been read does not matter. -/
theorem last (h : RefusesCuts reader xs) : RefusesCuts (fun bytes => reader bytes >>= next) xs := by
  intro front hfront hne
  simp only [h front hfront hne]
  rfl

end RefusesCuts

/-! ## Fields -/

/-- A number is cut inside its groups: all of them but the last say that another one follows. -/
theorem refusesCuts_readGroups {top : Nat} (htop : top < 128) (more : Nat) {n : Nat}
    (h : n < groupsRange top more) : RefusesCuts (readGroups top (more + 1)) (writeVarint n) := by
  induction more generalizing n with
  | zero =>
      intro front hfront hne
      rw [groupsRange] at h
      rw [writeVarint, if_pos (by omega)] at hfront hne
      cases front with
      | nil => rfl
      | cons b front =>
          obtain ⟨rfl, hnil⟩ := List.cons_prefix_cons.1 hfront
          exact absurd (congrArg _ (List.prefix_nil.1 hnil)) hne
  | succ more ih =>
      intro front hfront hne
      rw [groupsRange] at h
      cases front with
      | nil => rfl
      | cons b front =>
          rw [writeVarint] at hfront hne
          split at hfront
          next hn =>
            obtain ⟨rfl, hnil⟩ := List.cons_prefix_cons.1 hfront
            rw [if_pos hn, List.prefix_nil.1 hnil] at hne
            contradiction
          next hn =>
            obtain ⟨rfl, hlater⟩ := List.cons_prefix_cons.1 hfront
            rw [if_neg hn] at hne
            have hb : (UInt8.ofNat (128 + n % 128)).toNat = 128 + n % 128 := by
              rw [UInt8.toNat_ofNat']
              omega
            have hcut := ih (n := n / 128) (by omega) front hlater fun heq => hne (by rw [heq])
            rw [readGroups, hb, if_neg (by omega), hcut]
            rfl

theorem refusesCuts_readVarint (range : VarintRange) {n : Nat} (h : n < range.size) :
    RefusesCuts (readVarint range) (writeVarint n) :=
  refusesCuts_readGroups range.top_lt range.more h

theorem refusesCuts_takeExactly (bytes : List UInt8) :
    RefusesCuts (takeExactly bytes.length) bytes := by
  intro front hfront hne
  have hlt : front.length < bytes.length :=
    Nat.lt_of_le_of_ne hfront.length_le fun heq => hne (hfront.eq_of_length heq)
  have htake : front.take bytes.length = front := List.take_of_length_le (Nat.le_of_lt hlt)
  simp only [takeExactly, htake, if_neg (Nat.ne_of_lt hlt)]

theorem refusesCuts_readBytes {bytes : List UInt8} (h : bytes.length < UInt64.size) :
    RefusesCuts readBytes (writeBytes bytes) :=
  (refusesCuts_readVarint .word64 h).bind (readVarint_writeVarint .word64 h)
    (refusesCuts_takeExactly bytes)

/-- A text is taken whole before it is looked at, so a cut inside a character is no other error. -/
theorem refusesCuts_readText {text : String} (h : (utf8Bytes text).length < UInt64.size) :
    RefusesCuts readText (writeBytes (utf8Bytes text)) :=
  (refusesCuts_readBytes h).last

/-! ## Procedures -/

theorem refusesCuts_readEntry {e : Entry} (h : (utf8Bytes e.name).length < UInt64.size) :
    RefusesCuts readEntry e.toBytes :=
  (refusesCuts_readText h).bind (readText_writeBytes h)
    ((refusesCuts_readVarint .word64 e.address.toNat_lt).last)

theorem refusesCuts_readEntries {procedures : List Entry}
    (h : ∀ e ∈ procedures, (utf8Bytes e.name).length < UInt64.size) :
    RefusesCuts (readEntries procedures.length) (procedures.flatMap Entry.toBytes) := by
  induction procedures with
  | nil => exact .nil _
  | cons e procedures ih =>
      obtain ⟨hfirst, hlater⟩ := List.forall_mem_cons.1 h
      rw [List.flatMap_cons]
      exact (refusesCuts_readEntry hfirst).bind (readEntry_toBytes hfirst) ((ih hlater).last)

/-! ## Images -/

theorem refusesCuts_readImage {image : Image} (h : image.Fits) :
    RefusesCuts readImage image.toBytes := by
  have hversion := readVarint_writeVarint .word32 image.version.toNat_lt
  refine (refusesCuts_readVarint .word32 image.version.toNat_lt).bind hversion ?_
  refine (refusesCuts_readBytes h.code).bind (readBytes_writeBytes h.code) ?_
  refine (refusesCuts_readVarint .word64 h.procedures).bind
    (readVarint_writeVarint .word64 h.procedures) ?_
  exact (refusesCuts_readEntries h.names).last

/-- **An image that is cut short is refused for its end.** Of the beginnings of the bytes of
an image, of whatever version, all but the whole end unexpectedly for the reader, wherever
the cut falls: none of them is an image, of this version or another one, and none is refused
for a number or a name. -/
theorem ofBytes_eq_unexpectedEnd_iff {image : Image} (h : image.Fits) {front : List UInt8}
    (hfront : front <+: image.toBytes) :
    Image.ofBytes front = .error (.codec .unexpectedEnd) ↔ front ≠ image.toBytes := by
  constructor
  · rintro hend rfl
    have hwhole := readImage_toBytes_append h []
    rw [List.append_nil] at hwhole
    simp only [Image.ofBytes, hwhole] at hend
    split at hend <;> cases hend
  · intro hne
    rw [Image.ofBytes, refusesCuts_readImage h front hfront hne]

/-- Of an image of another version, the bytes up to the middle of the first character of a name. -/
theorem ofBytes_cutName :
    let image := sharedNameImage 2
    let front : List UInt8 := [2, 1, 44, 2, 5, 195]
    image.Fits ∧ front <+: image.toBytes ∧ front ≠ image.toBytes ∧
      Image.ofBytes front = .error (.codec .unexpectedEnd) := by
  intro image front
  have hfits : image.Fits := ⟨by decide, by decide, by decide⟩
  have hfront : front <+: image.toBytes := by decide +kernel
  have hne : front ≠ image.toBytes := by decide +kernel
  exact ⟨hfits, hfront, hne, (ofBytes_eq_unexpectedEnd_iff hfits hfront).2 hne⟩

end RegisterMachine
