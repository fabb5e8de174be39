import RegisterMachine.Image.Wire
import RegisterMachine.Proofs.Except
import RegisterMachine.Proofs.Literal.Integer
import RegisterMachine.Proofs.Token.Lexicon
import RegisterMachine.Text.Slice

/-!
# RegisterMachine.Proofs.Literal.Accepted

The texts that have a value as an integer are the integer literals, up to the limit.

* `integerValue?_eq_some_iff` -- a text has a value exactly if it is a literal that stands for it;
* `Bytewise.integerValue` -- the value read off the UTF-8 bytes of a text, with what can go wrong
  there: a cut inside a character, and a number without a negation;
* `Bytewise.integerValue_eq` -- nothing goes wrong, and the value is the same;
* `integerValue?_exact` -- both together.

Where only ASCII characters matter, a byte says as much about a text as a character does, since no
other character begins with the byte of one (`head?_utf8_bind`).
-/

namespace RegisterMachine

/-! ## Literals from values -/

/-- What has a value after the digits of `n` are digits of the base. -/
theorem appendDigits?_eq_some_iff {base n m : Nat} {digits : List Char} :
    appendDigits? base n digits = some m ↔
      (∀ c ∈ digits, isDigitOf base c) ∧
      m = n * base ^ digits.length + digitsNumber base digits := by
  constructor
  · intro h
    have hall : ∀ c ∈ digits, isDigitOf base c := by
      induction digits generalizing n with
      | nil => simp
      | cons c digits ih =>
          rw [appendDigits?] at h
          split at h
          next d hd =>
            split at h
            next hlt => exact List.forall_mem_cons.2 ⟨by simp [isDigitOf, hd, hlt], ih h⟩
            next => cases h
          next => cases h
    rw [appendDigits?_eq hall] at h
    exact ⟨hall, (Option.some.inj h).symm⟩
  · rintro ⟨hall, rfl⟩
    exact appendDigits?_eq hall n

theorem digitsValue?_eq_some_iff {base m : Nat} {digits : List Char} :
    digitsValue? base digits = some m ↔ IsDigits base digits ∧ m = digitsNumber base digits := by
  constructor
  · intro h
    unfold digitsValue? at h
    split at h
    next => cases h
    next hne =>
      obtain ⟨hall, hm⟩ := appendDigits?_eq_some_iff.1 h
      exact ⟨⟨by simpa using hne, hall⟩, by simpa using hm⟩
  · rintro ⟨hdigits, rfl⟩
    exact digitsValue?_eq hdigits

theorem magnitude?_eq_some_iff {text : List Char} {m : Nat} :
    magnitude? text = some m ↔
      IsDigits (splitBase text).1 (splitBase text).2 ∧
        m = digitsNumber (splitBase text).1 (splitBase text).2 ∧ m ≤ integerLimit := by
  have hmagnitude :
      magnitude? text =
        (digitsValue? (splitBase text).1 (splitBase text).2).filter (· ≤ integerLimit) :=
    rfl
  rw [hmagnitude, Option.filter_eq_some_iff, digitsValue?_eq_some_iff, decide_eq_true_eq, and_assoc]

/-- A text without its sign begins with the mark of a base, or is read in base ten. -/
theorem splitBase_cases (text : List Char) :
    (∃ letter base digits, text = '0' :: letter :: digits ∧ baseOf? letter = some base ∧
      splitBase text = (base, digits)) ∨ splitBase text = (10, text) := by
  unfold splitBase
  split
  next letter digits =>
    cases hbase : baseOf? letter with
    | some base => exact .inl ⟨letter, base, digits, rfl, hbase, rfl⟩
    | none => exact .inr rfl
  next => exact .inr rfl

/-- A value is a magnitude behind a sign. -/
theorem integerValue?_eq_signOf (text : List Char) :
    integerValue? text =
      (magnitude? (text.drop (signOf text).length)).map (applySign (signOf text)) := by
  unfold integerValue?
  split
  next rest => cases h : magnitude? rest <;> simp [signOf, isSign, applySign, h]
  next rest => cases h : magnitude? rest <;> simp [signOf, isSign, applySign, h]
  next hminus hplus =>
    have hsign : signOf text = [] := by
      cases text with
      | nil => rfl
      | cons c text =>
          have hc : ¬ isSign c := by
            rw [isSign_iff]
            rintro (rfl | rfl)
            · exact hplus text rfl
            · exact hminus text rfl
          simp [signOf, hc]
    cases h : magnitude? text <;> simp [hsign, applySign, h]

/-- What has a value is a literal that stands for it. -/
theorem exists_literal_of_integerValue? {text : List Char} {v : Int}
    (h : integerValue? text = some v) :
    IntegerLiteral text v ∧ v.natAbs ≤ integerLimit := by
  have hsign := isSign_signOf text
  have htext := List.prefix_append_drop (signOf_isPrefix text)
  rw [integerValue?_eq_signOf, Option.map_eq_some_iff] at h
  obtain ⟨n, hn, rfl⟩ := h
  obtain ⟨hdigits, rfl, hlimit⟩ := magnitude?_eq_some_iff.1 hn
  refine ⟨?_, by rwa [natAbs_applySign]⟩
  generalize signOf text = sign, text.drop (signOf text).length = rest at *
  subst htext
  obtain ⟨letter, base, digits, rfl, hbase, hsplit⟩ | hsplit := splitBase_cases rest
  · rw [hsplit] at hdigits ⊢
    exact .based hsign hbase hdigits
  · rw [hsplit] at hdigits ⊢
    exact .decimal hsign hdigits

theorem IntegerLiteral.mem_integer {text : List Char} {v : Int} (h : IntegerLiteral text v) :
    text ∈ Lexicon.integer := by
  cases h with
  | based hsign hbase hdigits =>
      exact Language.append_mem_mul (Lexicon.mem_sign_iff.2 hsign)
        (Lexicon.mem_unsigned_iff.2 (.inl ⟨_, _, _, hbase, hdigits, rfl⟩))
  | decimal hsign hdigits =>
      exact Language.append_mem_mul (Lexicon.mem_sign_iff.2 hsign)
        (Lexicon.mem_unsigned_iff.2 (.inr hdigits))

theorem integerLimit_eq : integerLimit = 2 ^ 127 - 1 := by
  decide

theorem integerValue?_eq_some_iff {text : List Char} {v : Int} :
    integerValue? text = some v ↔ IntegerLiteral text v ∧ v.natAbs ≤ 2 ^ 127 - 1 := by
  rw [← integerLimit_eq]
  constructor
  · exact exists_literal_of_integerValue?
  · rintro ⟨h, hlimit⟩
    rw [h.integerValue?_eq, if_pos hlimit]

/-! ## Bytes -/

/-- The UTF-8 form of characters. -/
def utf8 (text : List Char) : List UInt8 :=
  utf8Bytes (String.ofList text)

/-- The character that a byte on its own stands for. -/
def byteChar (b : UInt8) : Char :=
  Char.ofNat b.toNat

section Bytes

variable {α : Type} {c : Char} {text : List Char}

theorem utf8_cons (c : Char) (text : List Char) :
    utf8 (c :: text) = String.utf8EncodeChar c ++ utf8 text := by
  simp [utf8, utf8Bytes, List.utf8Encode, List.data_toByteArray]

theorem utf8Size_ascii (h : c.toNat < 128) : c.utf8Size = 1 :=
  Char.utf8Size_eq_one_iff.2 (UInt32.le_iff_toNat_le.2 (Nat.le_of_lt_succ h))

theorem byteChar_ascii (h : c.toNat < 128) : byteChar c.toUInt8 = c := by
  have hnat : c.toUInt8.toNat = c.toNat := by
    rw [Char.toUInt8, UInt32.toNat_toUInt8]
    exact Nat.mod_eq_of_lt (Nat.lt_trans h (by decide))
  rw [byteChar, hnat, Char.ofNat_toNat]

/-- An ASCII character is one byte. -/
theorem utf8_cons_ascii (h : c.toNat < 128) (text : List Char) :
    utf8 (c :: text) = c.toUInt8 :: utf8 text := by
  rw [utf8_cons, String.utf8EncodeChar_eq_singleton (utf8Size_ascii h)]
  rfl

theorem toNat_byteChar (b : UInt8) : (byteChar b).toNat = b.toNat := by
  have hb := b.toNat_lt
  rw [byteChar, Char.ofNat, dif_pos (.inl (by omega))]
  rfl

/-- Any other character begins with a byte that is no ASCII character. -/
theorem exists_utf8_cons_wide (h : ¬ c.toNat < 128) (text : List Char) :
    ∃ b rest, utf8 (c :: text) = b :: rest ∧ ¬ (byteChar b).toNat < 128 := by
  have hwide : ¬ c.val.toNat ≤ 127 := fun hle => h (Nat.lt_succ_of_le hle)
  simp only [utf8_cons, toNat_byteChar]
  unfold String.utf8EncodeChar
  simp only [if_neg hwide]
  split_ifs
  all_goals
    refine ⟨_, _, rfl, ?_⟩
    rw [UInt8.toNat_ofNat']
    omega

/-- What is asked of the first character, if only of ASCII, can be asked of the first byte. -/
theorem head?_utf8_bind {f : Char → Option α} (hf : ∀ c, ¬ c.toNat < 128 → f c = none)
    (text : List Char) : ((utf8 text).head?.bind fun b => f (byteChar b)) = text.head?.bind f := by
  cases text with
  | nil => rfl
  | cons c text =>
      by_cases h : c.toNat < 128
      · rw [utf8_cons_ascii h, List.head?_cons, List.head?_cons, Option.bind_some, Option.bind_some,
          byteChar_ascii h]
      · obtain ⟨b, rest, heq, hb⟩ := exists_utf8_cons_wide h text
        rw [heq, List.head?_cons, List.head?_cons, Option.bind_some, Option.bind_some, hf c h,
          hf _ hb]

/-- An ASCII character stands first exactly if its byte does. -/
theorem head?_utf8_eq_some_iff (h : c.toNat < 128) :
    (utf8 text).head? = some c.toUInt8 ↔ text.head? = some c := by
  cases text with
  | nil => simp [utf8, utf8Bytes]
  | cons d text =>
      rw [List.head?_cons, Option.some_inj]
      by_cases hd : d.toNat < 128
      · rw [utf8_cons_ascii hd, List.head?_cons, Option.some_inj]
        refine ⟨fun heq => ?_, fun heq => heq ▸ rfl⟩
        rw [← byteChar_ascii hd, heq, byteChar_ascii h]
      · obtain ⟨b, rest, heq, hb⟩ := exists_utf8_cons_wide hd text
        rw [heq, List.head?_cons, Option.some_inj]
        constructor
        · rintro rfl
          rw [byteChar_ascii h] at hb
          exact absurd h hb
        · rintro rfl
          exact absurd h hd

end Bytes

/-! ## Reading bytewise -/

namespace Bytewise

/-- What can go wrong in reading a text that has a value or has none. -/
inductive Failure where
  /-- A cut falls inside a character or behind the text. -/
  | cut
  /-- A number of 128 bits has no negation. -/
  | negation
deriving DecidableEq, Repr

/-- What follows the first `n` bytes. -/
def dropBytes (text : List Char) (n : Nat) : Except Failure (List Char) :=
  match dropBytes? text n with
  | some rest => .ok rest
  | none => .error .cut

/-- Whether a text is negative, and what follows the sign. -/
def cutSign (text : List Char) : Except Failure (Bool × List Char) :=
  if (utf8 text).head? = some '-'.toUInt8 then do return (true, ← dropBytes text 1)
  else if (utf8 text).head? = some '+'.toUInt8 then do return (false, ← dropBytes text 1)
  else return (false, text)

/-- The base of an unsigned literal and the digits after its mark. -/
def cutBase (text : List Char) : Except Failure (Nat × List Char) :=
  if (utf8 text).head? = some '0'.toUInt8 then
    match (utf8 text).tail.head?.bind fun b => baseOf? (byteChar b) with
    | some base => do return (base, ← dropBytes text 2)
    | none => return (10, text)
  else return (10, text)

/-- The number that digits write after the digits of `n`; none when a byte is no digit of the base,
or when the number passes the limit on the way. -/
def checkedDigits? (base limit : Nat) : Nat → List UInt8 → Option Nat
  | n, [] => some n
  | n, b :: bs =>
    match digitValue? (byteChar b) with
    | some d =>
      if d < base ∧ n * base + d ≤ limit then checkedDigits? base limit (n * base + d) bs else none
    | none => none

def unsigned? (base limit : Nat) (digits : List UInt8) : Option Nat :=
  if digits.isEmpty then none else checkedDigits? base limit 0 digits

/-- The number of 128 bits that digits write, which may bring a sign of their own. -/
def signed? (base : Nat) (bytes : List UInt8) : Option Int :=
  if bytes.head? = some '-'.toUInt8 then
    (unsigned? base (2 ^ 127) bytes.tail).map fun n : Nat => -(n : Int)
  else if bytes.head? = some '+'.toUInt8 then
    (unsigned? base (2 ^ 127 - 1) bytes.tail).map Int.ofNat
  else (unsigned? base (2 ^ 127 - 1) bytes).map Int.ofNat

def negate (v : Int) : Except Failure Int :=
  if v = -2 ^ 127 then .error .negation else .ok (-v)

/-- The value of the digits behind a sign and the mark of a base: no other sign may precede them. -/
def digitsValue (negative : Bool) (base : Nat) (digits : List Char) : Except Failure (Option Int) :=
  if digits.isEmpty ∨ digits.head?.any isSign then return none
  else
    match signed? base (utf8 digits) with
    | none => return none
    | some v => if negative then do return some (← negate v) else return some v

/-- The value of an integer literal. -/
def integerValue (text : List Char) : Except Failure (Option Int) :=
  if text.isEmpty then return none
  else do
    let (negative, rest) ← cutSign text
    let (base, digits) ← cutBase rest
    digitsValue negative base digits

section Wide

variable {c : Char} (h : ¬ c.toNat < 128)
include h

theorem baseOf?_wide : baseOf? c = none := by
  rw [baseOf?, if_neg, if_neg, if_neg, if_neg]
  all_goals
    rintro (rfl | rfl)
    all_goals exact h (by decide)

theorem digitValue?_wide : digitValue? c = none := by
  rw [digitValue?, if_neg, if_neg, if_neg]
  all_goals
    rintro ⟨-, hhigh⟩
    exact h (Nat.lt_of_le_of_lt hhigh (by decide))

end Wide

/-- An ASCII character can be cut off. -/
theorem dropBytes_cons_ascii {c : Char} (h : c.toNat < 128) (text : List Char) (n : Nat) :
    dropBytes (c :: text) (n + 1) = dropBytes text n := by
  rw [dropBytes, dropBytes?, utf8Size_ascii h, if_pos (by omega), Nat.add_sub_cancel, dropBytes]

theorem dropBytes_zero (text : List Char) : dropBytes text 0 = .ok text := by
  rw [dropBytes, dropBytes?]

theorem cutSign_eq (text : List Char) :
    cutSign text = .ok (signOf text = ['-'], text.drop (signOf text).length) := by
  unfold cutSign
  simp only [head?_utf8_eq_some_iff (show '-'.toNat < 128 by decide),
    head?_utf8_eq_some_iff (show '+'.toNat < 128 by decide)]
  split_ifs with hminus hplus
  · obtain ⟨rest, rfl⟩ := List.head?_eq_some_iff.1 hminus
    rw [dropBytes_cons_ascii (by decide), dropBytes_zero]
    rfl
  · obtain ⟨rest, rfl⟩ := List.head?_eq_some_iff.1 hplus
    rw [dropBytes_cons_ascii (by decide), dropBytes_zero]
    rfl
  · have hsign : signOf text = [] := by
      cases text with
      | nil => rfl
      | cons c text => simp_all [signOf, isSign]
    rw [hsign]
    rfl

theorem cutBase_eq (text : List Char) : cutBase text = .ok (splitBase text) := by
  unfold cutBase
  simp only [head?_utf8_eq_some_iff (show '0'.toNat < 128 by decide)]
  split_ifs with hzero
  · obtain ⟨later, rfl⟩ := List.head?_eq_some_iff.1 hzero
    rw [utf8_cons_ascii (by decide), List.tail_cons, head?_utf8_bind fun c h => baseOf?_wide h]
    cases later with
    | nil => rfl
    | cons mark digits =>
        rw [List.head?_cons, Option.bind_some, splitBase]
        cases hbase : baseOf? mark with
        | none => rfl
        | some base =>
            have hmark : mark.toNat < 128 := by
              by_contra hwide
              rw [baseOf?_wide hwide] at hbase
              cases hbase
            rw [dropBytes_cons_ascii (by decide), dropBytes_cons_ascii hmark, dropBytes_zero]
            rfl
  · unfold splitBase
    split
    next => exact absurd rfl hzero
    next => rfl

/-- Checking on the way is checking in the end, since the number only grows. -/
theorem le_of_appendDigits? {base n m : Nat} {digits : List Char}
    (h : appendDigits? base n digits = some m) : n ≤ m := by
  induction digits generalizing n with
  | nil => exact (Option.some.inj h).le
  | cons c digits ih =>
      rw [appendDigits?] at h
      split at h
      next d hd =>
        split at h
        next hlt =>
          calc n ≤ n * base := Nat.le_mul_of_pos_right n (Nat.zero_lt_of_lt hlt)
            _ ≤ n * base + d := Nat.le_add_right _ _
            _ ≤ m := ih h
        next => cases h
      next => cases h

theorem checkedDigits?_utf8 {base limit n : Nat} (hn : n ≤ limit) (digits : List Char) :
    checkedDigits? base limit n (utf8 digits) =
      (appendDigits? base n digits).filter (· ≤ limit) := by
  induction digits generalizing n with
  | nil =>
      rw [appendDigits?, Option.filter_some, if_pos (by simpa using hn)]
      rfl
  | cons c digits ih =>
      by_cases h : c.toNat < 128
      · rw [utf8_cons_ascii h, checkedDigits?, byteChar_ascii h, appendDigits?]
        cases digitValue? c with
        | none => rfl
        | some d =>
            by_cases hd : d < base
            · by_cases hlimit : n * base + d ≤ limit
              · simp only [hd, hlimit, and_self, if_true, ih hlimit]
              · simp only [hd, hlimit, and_false, if_false, if_true]
                symm
                rw [Option.filter_eq_none_iff]
                intro m hm
                have hle := le_of_appendDigits? hm
                simp only [decide_eq_true_eq]
                omega
            · simp [hd]
      · obtain ⟨b, rest, heq, hb⟩ := exists_utf8_cons_wide h digits
        rw [heq, checkedDigits?, digitValue?_wide hb, appendDigits?, digitValue?_wide h]
        rfl

/-- Digits without a sign of their own are read as they are. -/
theorem signed?_utf8 {base : Nat} {digits : List Char} (h : ∀ c ∈ digits.head?, isSign c = false) :
    signed? base (utf8 digits) =
      ((digitsValue? base digits).filter (· ≤ integerLimit)).map Int.ofNat := by
  have hhead : ∀ c, isSign c → digits.head? ≠ some c := fun c hc heq => by
    rw [h c heq] at hc
    cases hc
  have hunsigned : unsigned? base (2 ^ 127 - 1) (utf8 digits) =
      (digitsValue? base digits).filter (· ≤ integerLimit) := by
    rw [unsigned?, digitsValue?, ← integerLimit_eq, checkedDigits?_utf8 (Nat.zero_le _)]
    cases digits with
    | nil => rfl
    | cons c digits =>
        rw [if_neg (by simp [utf8_cons, String.utf8EncodeChar_ne_nil]), if_neg (by simp)]
  unfold signed?
  simp only [head?_utf8_eq_some_iff (show '-'.toNat < 128 by decide),
    head?_utf8_eq_some_iff (show '+'.toNat < 128 by decide)]
  rw [if_neg (hhead _ rfl), if_neg (hhead _ rfl), hunsigned]

/-- A magnitude is in range of a negation. -/
theorem negate_natCast {n : Nat} (h : n ≤ integerLimit) : negate n = .ok (-n) := by
  rw [negate, if_neg]
  rw [integerLimit_eq] at h
  omega

theorem digitsValue?_of_isSign {base : Nat} {c : Char} (h : isSign c) (digits : List Char) :
    digitsValue? base (c :: digits) = none := by
  rw [Option.eq_none_iff_forall_ne_some]
  intro n hn
  obtain ⟨hdigits, -⟩ := digitsValue?_eq_some_iff.1 hn
  rw [not_isSign_of_isDigitOf (hdigits.all c (List.mem_cons_self ..))] at h
  cases h

theorem digitsValue_eq (sign : List Char) (base : Nat) (digits : List Char) :
    digitsValue (sign = ['-']) base digits =
      .ok (((digitsValue? base digits).filter (· ≤ integerLimit)).map (applySign sign)) := by
  unfold digitsValue
  by_cases hguard : digits.isEmpty ∨ digits.head?.any isSign
  · have hnone : digitsValue? base digits = none := by
      cases digits with
      | nil => rfl
      | cons c digits => exact digitsValue?_of_isSign (by simpa using hguard) digits
    rw [if_pos hguard, hnone]
    rfl
  · obtain ⟨-, hhead⟩ := not_or.1 hguard
    rw [Option.any_eq_true] at hhead
    rw [if_neg hguard, signed?_utf8 (by simpa using hhead)]
    cases hn : (digitsValue? base digits).filter (· ≤ integerLimit) with
    | none => rfl
    | some n =>
        have hlimit : n ≤ integerLimit := of_decide_eq_true (Option.filter_eq_some_iff.1 hn).2
        by_cases hsign : sign = ['-']
        · simp only [hsign, Option.map_some, applySign, if_true, Int.ofNat_eq_natCast, decide_true,
            negate_natCast hlimit]
          rfl
        · simp only [hsign, Option.map_some, applySign, if_false, Int.ofNat_eq_natCast,
            decide_false]
          rfl

/-- Nothing goes wrong, whatever the text, and the value is the one that the characters have. -/
theorem integerValue_eq (text : List Char) : integerValue text = .ok (integerValue? text) := by
  unfold integerValue
  split_ifs with hempty
  · rw [List.isEmpty_iff.1 hempty]
    rfl
  · simp only [cutSign_eq, cutBase_eq, ok_bind, digitsValue_eq, integerValue?_eq_signOf]
    rfl

end Bytewise

/-! ## Acceptance -/

/-- A text has the value `v` exactly if it is an integer literal that stands for `v`, with digits up
to the limit; and reading it off its bytes never goes wrong. -/
theorem integerValue?_exact (text : List Char) :
    (∀ v, integerValue? text = some v ↔
      text ∈ Lexicon.integer ∧ IntegerLiteral text v ∧ v.natAbs ≤ 2 ^ 127 - 1) ∧
      Bytewise.integerValue text = .ok (integerValue? text) := by
  refine ⟨fun v => ?_, Bytewise.integerValue_eq text⟩
  rw [integerValue?_eq_some_iff]
  constructor
  · rintro ⟨h, hlimit⟩
    exact ⟨h.mem_integer, h, hlimit⟩
  · rintro ⟨-, h, hlimit⟩
    exact ⟨h, hlimit⟩

end RegisterMachine
