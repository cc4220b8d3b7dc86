import ArchivePlan.Proofs.Numerals

/-! # Which texts are modes

A mode is written by an octal numeral, behind a mark or not, and `Mode.Spells` says what that means
without the reader.  The reader accepts exactly these texts, with blanks around them and with a plus
in front of the digits, which counts towards the five characters that there may be; every other text
is handed back as it was given (`parse_eq_ok_iff_spells`).  The plus is more than a numeral should
have (`plus_accepted`). -/

namespace ArchivePlan.Mode

/-- A text writes permission bits: octal digits behind this sign, five characters at most, with the
mark of an octal numeral in front or without it. -/
inductive Spells (sign : List Char) : List Char → Nat → Prop
  | plain {digits : List Char} {bits : Nat} (short : (sign ++ digits).length ≤ 5)
      (value : Numeral.Writes 8 digits bits) : Spells sign (sign ++ digits) bits
  | marked {digits : List Char} {bits : Nat} (short : (sign ++ digits).length ≤ 5)
      (value : Numeral.Writes 8 digits bits) : Spells sign ('0' :: 'o' :: (sign ++ digits)) bits

/-- A text is an octal numeral, or one behind a plus. -/
def IsOctal (core : List Char) (bits : Nat) : Prop :=
  Spells [] core bits ∨ Spells ['+'] core bits

variable {core digits : List Char} {bits : Nat}

theorem not_writes_plus : ¬Numeral.Writes 8 ('+' :: digits) bits := fun h =>
  absurd (h.isDigit (by decide) List.mem_cons_self) (by decide)

theorem octal?_eq_some_iff : octal? core = some bits ↔
    Numeral.Writes 8 core bits ∨ ∃ digits, core = '+' :: digits ∧ Numeral.Writes 8 digits bits := by
  unfold octal?
  split
  · next digits =>
      rw [Numeral.read?_eq_some_iff (by decide)]
      constructor
      · exact fun h => Or.inr ⟨digits, rfl, h⟩
      · rintro (h | ⟨others, heq, h⟩)
        · exact absurd h not_writes_plus
        · obtain ⟨-, rfl⟩ := List.cons.inj heq
          exact h
  · next hplain =>
      rw [Numeral.read?_eq_some_iff (by decide)]
      constructor
      · exact Or.inl
      · rintro (h | ⟨others, rfl, -⟩)
        · exact h
        · exact absurd rfl (hplain others)

theorem octal?_withoutMark_iff :
    (withoutMark core).length ≤ 5 ∧ octal? (withoutMark core) = some bits ↔ IsOctal core bits := by
  rw [octal?_eq_some_iff]
  constructor
  · unfold withoutMark
    split
    · rintro ⟨hshort, hvalue | ⟨digits, rfl, hvalue⟩⟩
      · exact Or.inl (.marked hshort hvalue)
      · exact Or.inr (.marked hshort hvalue)
    · rintro ⟨hshort, hvalue | ⟨digits, rfl, hvalue⟩⟩
      · exact Or.inl (.plain hshort hvalue)
      · exact Or.inr (.plain hshort hvalue)
  · rintro (h | h)
    · cases h with
      | plain short value =>
          rw [List.nil_append,
            withoutMark_of_isDigit fun c hc => value.isDigit (by decide) hc]
          exact ⟨short, Or.inl value⟩
      | marked short value => exact ⟨short, Or.inl value⟩
    · cases h with
      | plain short value => exact ⟨short, Or.inr ⟨_, rfl, value⟩⟩
      | marked short value => exact ⟨short, Or.inr ⟨_, rfl, value⟩⟩

theorem Spells.isBlank_eq_false {sign : List Char} (hsign : ∀ c ∈ sign, Text.isBlank c = false)
    (h : Spells sign core bits) {c : Char} (hc : c ∈ core) : Text.isBlank c = false := by
  have hdigits : ∀ {digits : List Char}, Numeral.Writes 8 digits bits → c ∈ sign ++ digits →
      Text.isBlank c = false := by
    intro digits value hc
    rcases List.mem_append.mp hc with hc | hc
    · exact hsign c hc
    · exact Text.isBlank_of_isDigit (value.isDigit (by decide) hc)
  cases h with
  | plain short value => exact hdigits value hc
  | marked short value =>
      rcases List.mem_cons.mp hc with rfl | hc
      · rfl
      · rcases List.mem_cons.mp hc with rfl | hc
        · rfl
        · exact hdigits value hc

theorem IsOctal.trim_eq (h : IsOctal core bits) {text : List Char}
    (hcore : Text.Surrounded text core) : Text.trim text = core := by
  refine Text.trim_of_surrounded_plain hcore ?_
  rcases h with h | h
  · exact fun c => h.isBlank_eq_false (by simp)
  · exact fun c => h.isBlank_eq_false fun c hc => List.mem_singleton.mp hc ▸ rfl

theorem ofBits?_eq_some_iff {mode : Mode} : ofBits? bits = some mode ↔ mode.bits = bits := by
  unfold ofBits?
  split
  · next hle =>
      rw [Option.some_inj]
      constructor
      · rintro rfl
        rfl
      · rintro rfl
        rfl
  · next hgt =>
      refine iff_of_false (Option.some_ne_none mode).symm ?_
      rintro rfl
      exact hgt mode.bits_le

theorem parse?_eq_some_iff {text : String} {mode : Mode} : parse? text = some mode ↔
    ∃ core, Text.Surrounded text.toList core ∧ IsOctal core mode.bits := by
  have htrim : (∃ core, Text.Surrounded text.toList core ∧ IsOctal core mode.bits) ↔
      IsOctal (Text.trim text.toList) mode.bits := by
    constructor
    · rintro ⟨core, hcore, h⟩
      rwa [h.trim_eq hcore]
    · exact fun h => ⟨_, Text.surrounded_trim _, h⟩
  rw [htrim, ← octal?_withoutMark_iff, parse?]
  split
  · next hlong =>
      exact iff_of_false (Option.some_ne_none mode).symm fun h => absurd h.1 (Nat.not_le.mpr hlong)
  · next hshort =>
      simp only [Option.bind_eq_some_iff, ofBits?_eq_some_iff, exists_eq_right', Nat.not_lt.mp hshort,
        true_and]

/-- **Which texts are modes.**  A text is read as a mode if and only if it is an octal numeral of
one to five characters between blanks, with or without the mark and perhaps with a plus before the
digits, for the bits of this mode.  A text that is read as none is refused and quoted unchanged. -/
theorem parse_eq_ok_iff_spells (text : String) :
    (∀ mode, parse text = .ok mode ↔ ∃ core, Text.Surrounded text.toList core ∧
      (Spells [] core mode.bits ∨ Spells ['+'] core mode.bits)) ∧
    ∀ fault, parse text = .error fault ↔ fault.given = text ∧ ¬∃ core bits, bits ≤ 0o7777 ∧
      Text.Surrounded text.toList core ∧ (Spells [] core bits ∨ Spells ['+'] core bits) := by
  have hmode : ∀ mode, parse? text = some mode ↔ ∃ core, Text.Surrounded text.toList core ∧
      (Spells [] core mode.bits ∨ Spells ['+'] core mode.bits) := fun mode => parse?_eq_some_iff
  have hnone : parse? text = none ↔ ¬∃ core bits, bits ≤ 0o7777 ∧
      Text.Surrounded text.toList core ∧ (Spells [] core bits ∨ Spells ['+'] core bits) := by
    rw [Option.eq_none_iff_forall_ne_some]
    constructor
    · rintro h ⟨core, bits, hle, hcore⟩
      exact h ⟨bits, hle⟩ ((hmode ⟨bits, hle⟩).mpr ⟨core, hcore⟩)
    · intro h mode hparse
      obtain ⟨core, hcore⟩ := (hmode mode).mp hparse
      exact h ⟨core, mode.bits, mode.bits_le, hcore⟩
  rw [← hnone]
  simp only [← hmode]
  unfold parse
  cases parse? text with
  | some mode => simp
  | none =>
      refine ⟨by simp, fun ⟨given⟩ => ?_⟩
      simp [eq_comm]

/-- A text with a plus is read as a mode, though no octal numeral stands in it. -/
theorem plus_accepted :
    parse "+644" = .ok ⟨0o644, by decide⟩ ∧
      ¬∃ core bits, Text.Surrounded "+644".toList core ∧ Spells [] core bits := by
  refine ⟨rfl, fun ⟨core, bits, hcore, h⟩ => ?_⟩
  have htrim : ['+', '6', '4', '4'] = core := IsOctal.trim_eq (Or.inl h) hcore
  subst htrim
  generalize hsame : ['+', '6', '4', '4'] = core at h
  cases h with
  | plain short value =>
      rw [List.nil_append] at hsame
      exact not_writes_plus (hsame ▸ value)
  | marked short value => cases hsame

end ArchivePlan.Mode
