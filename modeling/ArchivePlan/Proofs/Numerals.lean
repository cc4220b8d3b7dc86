import ArchivePlan.Mode
import Mathlib.Data.List.Basic
import Mathlib.Data.List.Induction
import Mathlib.Data.List.TakeWhile

/-! # Written numerals

Reading the digits of a number gives the number again (`Numeral.read?_padded`), and so a mode is
read from its own text (`Mode.parse_text`).  The induction is on the number, which loses its last
digit in each step.

Which runs of digits write which number is a relation of its own (`Numeral.Writes`), and reading
goes by it in bases up to ten (`Numeral.read?_eq_some_iff`).  What stands between blanks is what
trimming leaves if it neither begins nor ends with one (`Text.trim_of_surrounded`). -/

namespace ArchivePlan

namespace Numeral

variable {base : Nat}

theorem digit?_digitChar {d : Nat} (hd : d < base) (hbase : base ≤ 10) :
    digit? base (Nat.digitChar d) = some d := by
  have hvalue : ∀ d : Fin 10, digit? 10 (Nat.digitChar d) = some d.val := by decide
  have hten := hvalue ⟨d, by omega⟩
  unfold digit? at hten ⊢
  rw [Option.filter_eq_some_iff] at hten ⊢
  exact ⟨hten.1, decide_eq_true hd⟩

theorem readFrom_append (value : Nat) (front back : List Char) :
    readFrom base value (front ++ back) =
      (readFrom base value front).bind fun value => readFrom base value back := by
  induction front generalizing value with
  | nil => rfl
  | cons c front ih =>
      rw [List.cons_append, readFrom, readFrom]
      cases digit? base c with
      | none => rfl
      | some d => exact ih _

theorem readFrom_toDigits (hlow : 1 < base) (hbase : base ≤ 10) (n : Nat) :
    readFrom base 0 (Nat.toDigits base n) = some n := by
  induction n using Nat.strongRecOn with
  | ind n ih =>
      rcases Nat.lt_or_ge n base with hlt | hge
      · rw [Nat.toDigits_of_lt_base hlt, readFrom, digit?_digitChar hlt hbase]
        simp [readFrom]
      · have hdigit := digit?_digitChar (Nat.mod_lt n (by omega)) hbase
        have hlast : n / base * base + n % base = n := Nat.div_add_mod' n base
        rw [Nat.toDigits_of_base_le hlow hge, readFrom_append,
          ih (n / base) (Nat.div_lt_self (by omega) hlow), Option.bind_some, readFrom, hdigit]
        exact congrArg some hlast

theorem readFrom_zeros (hlow : 1 < base) (hbase : base ≤ 10) (width : Nat) (digits : List Char) :
    readFrom base 0 (List.replicate width '0' ++ digits) = readFrom base 0 digits := by
  have hzero : digit? base (Nat.digitChar 0) = some 0 := digit?_digitChar (by omega) hbase
  change digit? base '0' = some 0 at hzero
  induction width with
  | zero => rfl
  | succ width ih =>
      rw [List.replicate_succ, List.cons_append, readFrom, hzero]
      exact (congrArg (readFrom base · _) (Nat.zero_mul base)).trans ih

theorem padded_ne_nil (base width n : Nat) : padded base width n ≠ [] := by
  simp [padded]

theorem read?_of_ne_nil {digits : List Char} (h : digits ≠ []) :
    read? base digits = readFrom base 0 digits := by
  cases digits with
  | nil => exact absurd rfl h
  | cons c digits => rfl

theorem readFrom_padded (hlow : 1 < base) (hbase : base ≤ 10) (width n : Nat) :
    readFrom base 0 (padded base width n) = some n := by
  rw [padded, readFrom_zeros hlow hbase, readFrom_toDigits hlow hbase]

theorem read?_padded (hlow : 1 < base) (hbase : base ≤ 10) (width n : Nat) :
    read? base (padded base width n) = some n :=
  (read?_of_ne_nil (padded_ne_nil base width n)).trans (readFrom_padded hlow hbase width n)

theorem isDigit_of_mem_padded (hlow : 1 < base) (hbase : base ≤ 10) {width n : Nat} {c : Char}
    (h : c ∈ padded base width n) : c.isDigit = true := by
  rcases List.mem_append.mp h with hzero | hdigit
  · rw [List.eq_of_mem_replicate hzero]
    rfl
  · exact Nat.isDigit_of_mem_toDigits (by omega) hbase hdigit

theorem le_length_padded (base width n : Nat) : width ≤ (padded base width n).length := by
  rw [padded, List.length_append, List.length_replicate]
  omega

theorem length_padded {width n : Nat} (hdigits : (Nat.toDigits base n).length ≤ width) :
    (padded base width n).length = width := by
  rw [padded, List.length_append, List.length_replicate]
  omega

/-! ### Runs of digits and their values -/

/-- A run of digits writes a number: each further digit is worth one, and what stands before it
`base` times as much. -/
inductive Writes (base : Nat) : List Char → Nat → Prop
  | digit {d : Nat} (lt : d < base) : Writes base [Nat.digitChar d] d
  | concat {digits : List Char} {n d : Nat} (h : Writes base digits n) (lt : d < base) :
      Writes base (digits ++ [Nat.digitChar d]) (n * base + d)

theorem digit?_eq_some_iff (hbase : base ≤ 10) {c : Char} {d : Nat} :
    digit? base c = some d ↔ d < base ∧ c = Nat.digitChar d := by
  constructor
  · intro h
    obtain ⟨hvalue, hlt⟩ := Option.filter_eq_some_iff.mp h
    have hd : d < base := of_decide_eq_true hlt
    refine ⟨hd, ?_⟩
    -- letters are worth ten at least
    have hdecimal : c.toNat = d + 48 := by
      split at hvalue
      · next hrange =>
          have hlow : 48 ≤ c.toNat := hrange.1
          have heq := Option.some.inj hvalue
          omega
      · split at hvalue
        · next hrange =>
            have hlow : 97 ≤ c.toNat := hrange.1
            have heq := Option.some.inj hvalue
            omega
        · split at hvalue
          · next hrange =>
              have hlow : 65 ≤ c.toNat := hrange.1
              have heq := Option.some.inj hvalue
              omega
          · cases hvalue
    have hchar : c = Char.ofNat (d + 48) := by rw [← hdecimal, Char.ofNat_toNat]
    have hten : ∀ d : Fin 10, Char.ofNat (d.val + 48) = Nat.digitChar d.val := by decide
    rw [hchar]
    exact hten ⟨d, by omega⟩
  · rintro ⟨hlt, rfl⟩
    exact digit?_digitChar hlt hbase

theorem Writes.ne_nil {digits : List Char} {n : Nat} (h : Writes base digits n) : digits ≠ [] := by
  cases h <;> simp

theorem Writes.isDigit (hbase : base ≤ 10) {digits : List Char} {n : Nat}
    (h : Writes base digits n) {c : Char} (hc : c ∈ digits) : c.isDigit = true := by
  have hten : ∀ d : Fin 10, (Nat.digitChar d.val).isDigit = true := by decide
  induction h with
  | digit lt =>
      rw [List.mem_singleton.mp hc]
      exact hten ⟨_, by omega⟩
  | concat h lt ih =>
      rcases List.mem_append.mp hc with hc | hc
      · exact ih hc
      · rw [List.mem_singleton.mp hc]
        exact hten ⟨_, by omega⟩

theorem readFrom_concat (value : Nat) (digits : List Char) (c : Char) :
    readFrom base value (digits ++ [c]) =
      (readFrom base value digits).bind fun n => (digit? base c).map fun d => n * base + d := by
  rw [readFrom_append]
  congr 1
  funext n
  rw [readFrom]
  cases digit? base c <;> rfl

theorem Writes.readFrom (hbase : base ≤ 10) {digits : List Char} {n : Nat}
    (h : Writes base digits n) : readFrom base 0 digits = some n := by
  induction h with
  | digit lt =>
      rw [Numeral.readFrom, digit?_digitChar lt hbase]
      simp [Numeral.readFrom]
  | concat h lt ih =>
      rw [readFrom_concat, ih, digit?_digitChar lt hbase]
      rfl

/-- Reading accepts exactly what writes a number. -/
theorem read?_eq_some_iff (hbase : base ≤ 10) {digits : List Char} {n : Nat} :
    read? base digits = some n ↔ Writes base digits n := by
  constructor
  · intro h
    induction digits using List.reverseRecOn generalizing n with
    | nil => cases h
    | append_singleton digits c ih =>
        rw [read?_of_ne_nil (by simp), readFrom_concat, Option.bind_eq_some_iff] at h
        obtain ⟨front, hfront, h⟩ := h
        obtain ⟨d, hd, rfl⟩ := Option.map_eq_some_iff.mp h
        obtain ⟨hlt, rfl⟩ := (digit?_eq_some_iff hbase).mp hd
        by_cases hempty : digits = []
        · subst hempty
          cases hfront
          simpa using Writes.digit hlt
        · exact .concat (ih ((read?_of_ne_nil hempty).trans hfront)) hlt
  · exact fun h => (read?_of_ne_nil h.ne_nil).trans (h.readFrom hbase)

end Numeral

/-! ### Blanks around a text -/

namespace Text

/-- A text is another one between blanks. -/
def Surrounded (text core : List Char) : Prop :=
  ∃ before after, text = before ++ core ++ after ∧ (∀ c ∈ before, isBlank c = true) ∧
    ∀ c ∈ after, isBlank c = true

theorem dropWhile_isBlank_append {blanks text : List Char} (hblanks : ∀ c ∈ blanks, isBlank c = true)
    (htext : ∀ c, text.head? = some c → isBlank c = false) :
    (blanks ++ text).dropWhile isBlank = text := by
  rw [List.dropWhile_append_of_pos hblanks]
  cases text with
  | nil => rfl
  | cons c text => rw [List.dropWhile_cons, htext c rfl, if_neg Bool.false_ne_true]

theorem trim_of_surrounded {text core : List Char} (h : Surrounded text core)
    (hfirst : ∀ c, core.head? = some c → isBlank c = false)
    (hlast : ∀ c, core.getLast? = some c → isBlank c = false) : trim text = core := by
  obtain ⟨before, after, rfl, hbefore, hafter⟩ := h
  by_cases hempty : core = []
  · subst hempty
    have hall : ∀ c ∈ before ++ [] ++ after, isBlank c = true := by
      simpa [or_imp, forall_and] using ⟨hbefore, hafter⟩
    rw [trim, List.dropWhile_eq_nil_iff.mpr hall]
    rfl
  · have hhead : (core ++ after).head? = core.head? := List.head?_append_of_ne_nil core hempty
    have hfront : (before ++ core ++ after).dropWhile isBlank = core ++ after := by
      rw [List.append_assoc]
      exact dropWhile_isBlank_append hbefore fun c hc => hfirst c (hhead ▸ hc)
    have hback : (after.reverse ++ core.reverse).dropWhile isBlank = core.reverse := by
      refine dropWhile_isBlank_append (fun c hc => hafter c (List.mem_reverse.mp hc)) fun c hc => ?_
      exact hlast c (List.head?_reverse ▸ hc)
    rw [trim, hfront, List.reverse_append, hback, List.reverse_reverse]

theorem surrounded_trim (text : List Char) : Surrounded text (trim text) := by
  have hsplit : ∀ text : List Char, ∃ blanks, text = blanks ++ text.dropWhile isBlank ∧
      ∀ c ∈ blanks, isBlank c = true := fun text =>
    ⟨text.takeWhile isBlank, List.takeWhile_append_dropWhile.symm, fun _ => List.mem_takeWhile_imp⟩
  obtain ⟨before, hbefore, hblank⟩ := hsplit text
  obtain ⟨after, hafter, hblank'⟩ := hsplit (text.dropWhile isBlank).reverse
  refine ⟨before, after.reverse, ?_, hblank, fun c hc => hblank' c (List.mem_reverse.mp hc)⟩
  rw [trim, List.append_assoc, ← List.reverse_append, ← hafter, List.reverse_reverse, ← hbefore]

theorem trim_of_surrounded_plain {text core : List Char} (h : Surrounded text core)
    (hplain : ∀ c ∈ core, isBlank c = false) : trim text = core :=
  trim_of_surrounded h (fun c hc => hplain c (List.mem_of_head? hc))
    fun c hc => hplain c (List.mem_of_getLast? hc)

theorem trim_eq_self {text : List Char} (h : ∀ c ∈ text, isBlank c = false) : trim text = text :=
  trim_of_surrounded_plain ⟨[], [], by simp, by simp, by simp⟩ h

end Text

theorem Text.isBlank_of_isDigit {c : Char} (h : c.isDigit = true) : isBlank c = false := by
  have hrange : 48 ≤ c.toNat ∧ c.toNat ≤ 57 := by
    simpa [Char.isDigit, UInt32.le_iff_toNat_le] using h
  simp [isBlank]
  omega

/-! ### Signed decimals -/

namespace Numeral

theorem signed_of_isDigit {text : List Char} (h : ∀ c, text.head? = some c → c.isDigit = true) :
    signed text = (false, text) := by
  unfold signed
  split
  · exact absurd (h '-' rfl) (by decide)
  · exact absurd (h '+' rfl) (by decide)
  · rfl

theorem int64?_eq_none {text : List Char} (hfirst : ∀ c, text.head? = some c → c.isDigit = true)
    {c : Char} (hc : c ∈ text) (hother : c.isDigit = false) : int64? text = none := by
  have hread : read? 10 text = none := by
    rw [Option.eq_none_iff_forall_ne_some]
    intro n hn
    have hdigit := ((read?_eq_some_iff (by decide)).mp hn).isDigit (by decide) hc
    exact absurd hdigit (by simp [hother])
  simp only [int64?, signed_of_isDigit hfirst, hread]

theorem toList_toString_ofNat (n : Nat) :
    (toString (Int.ofNat n)).toList = Nat.toDigits 10 n :=
  Nat.toList_repr

theorem toList_toString_negSucc (n : Nat) :
    (toString (Int.negSucc n)).toList = '-' :: Nat.toDigits 10 (n + 1) := by
  rw [Int.toString_eq_repr, Int.repr, String.toList_append, Nat.toList_repr]
  rfl

theorem isDigit_of_mem_toDigits {n : Nat} {c : Char} (h : c ∈ Nat.toDigits 10 n) :
    c.isDigit = true :=
  Nat.isDigit_of_mem_toDigits (by decide) (by decide) h

theorem isBlank_of_mem_toString {n : Int} {c : Char} (h : c ∈ (toString n).toList) :
    Text.isBlank c = false := by
  cases n with
  | ofNat n =>
      rw [toList_toString_ofNat] at h
      exact Text.isBlank_of_isDigit (isDigit_of_mem_toDigits h)
  | negSucc n =>
      rw [toList_toString_negSucc] at h
      rcases List.mem_cons.mp h with rfl | h
      · rfl
      · exact Text.isBlank_of_isDigit (isDigit_of_mem_toDigits h)

theorem int64?_toString {n : Int} (hlow : -0x8000000000000000 ≤ n)
    (hhigh : n < 0x8000000000000000) : int64? (toString n).toList = some n := by
  have hread : ∀ n : Nat, read? 10 (Nat.toDigits 10 n) = some n := fun n =>
    (read?_of_ne_nil Nat.toDigits_ne_nil).trans (readFrom_toDigits (by decide) (by decide) n)
  cases n with
  | ofNat n =>
      have hsigned : signed (Nat.toDigits 10 n) = (false, Nat.toDigits 10 n) :=
        signed_of_isDigit fun c hc => isDigit_of_mem_toDigits (List.mem_of_head? hc)
      simp only [toList_toString_ofNat, int64?, hsigned, hread]
      exact if_pos ⟨hlow, hhigh⟩
  | negSucc n =>
      simp only [toList_toString_negSucc, int64?, signed, hread]
      exact if_pos ⟨hlow, hhigh⟩

end Numeral

/-! ### The text of a mode -/

namespace Mode

theorem withoutMark_of_isDigit {text : List Char} (h : ∀ c ∈ text, c.isDigit = true) :
    withoutMark text = text := by
  unfold withoutMark
  split
  · exact absurd (h 'o' (by simp)) (by decide)
  · rfl

theorem octal?_of_isDigit {text : List Char} (h : ∀ c ∈ text, c.isDigit = true) :
    octal? text = Numeral.read? 8 text := by
  unfold octal?
  split
  · exact absurd (h '+' (by simp)) (by decide)
  · rfl

theorem parse_text (mode : Mode) : parse mode.text = .ok mode := by
  have hdigits : ∀ c ∈ Numeral.padded 8 4 mode.bits, c.isDigit = true :=
    fun c hc => Numeral.isDigit_of_mem_padded (by decide) (by decide) hc
  have hfour : (Nat.toDigits 8 mode.bits).length ≤ 4 :=
    (Nat.length_toDigits_le_iff (by decide) (by decide)).mpr (Nat.lt_succ_of_le mode.bits_le)
  have hlength : (Numeral.padded 8 4 mode.bits).length = 4 := Numeral.length_padded hfour
  have htrim : Text.trim mode.text.toList = Numeral.padded 8 4 mode.bits := by
    rw [text, String.toList_ofList]
    exact Text.trim_eq_self fun c hc => Text.isBlank_of_isDigit (hdigits c hc)
  have hbits : ofBits? mode.bits = some mode := dif_pos mode.bits_le
  have hparse : parse? mode.text = some mode := by
    rw [parse?, htrim, withoutMark_of_isDigit hdigits, hlength, if_neg (by decide),
      octal?_of_isDigit hdigits, Numeral.read?_padded (by decide) (by decide), Option.bind_some,
      hbits]
  rw [parse, hparse]

end Mode

end ArchivePlan
