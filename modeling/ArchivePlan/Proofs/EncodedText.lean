import ArchivePlan.Text.Utf8
import Mathlib.Data.List.Basic

/-! # Text and its bytes

Bytes are read as a text if and only if they are the bytes of that text (`decode?_eq_some_iff`), so
no two names are read as the same text.  One half reads a character back from its bytes
(`front_encodeChar`), the other finds the bytes of the character that was read
(`eq_encodeChar_of_front`).

The bytes of texts are in the order of the texts (`ofString_lt`): a character that comes first has
bytes that come first, however many they are. -/

namespace ArchivePlan.Utf8

/-! ### From bytes to a character -/

theorem tail?_eq_some {low high x : Nat} {b? : Option UInt8} (h : tail? low high b? = some x) :
    ∃ b, b? = some b ∧ low ≤ b.toNat ∧ b.toNat ≤ high ∧ b.toNat % 64 = x := by
  cases b? with
  | none => cases h
  | some b =>
      unfold tail? at h
      dsimp only at h
      split at h
      · next hrange => exact ⟨b, rfl, hrange.1, hrange.2, Option.some.inj h⟩
      · cases h

theorem toNat_ofNat_of_valid {n : Nat} (h : n < 0xD800 ∨ 0xDFFF < n ∧ n < 0x110000) :
    (Char.ofNat n).val.toNat = n := by
  have hvalid : n.isValidChar := h
  unfold Char.ofNat
  rw [dif_pos hvalid]
  rfl

theorem ofNat_toNat_eq (b : UInt8) {n : Nat} (h : n = b.toNat) : UInt8.ofNat n = b := by
  rw [h, UInt8.ofNat_toNat]

theorem eq_encodeChar_of_twoBytes {lead more : Nat} {rest : Bytes} {c : Char} {b : UInt8}
    (hlead : b.toNat = lead) (hrange : 0xC2 ≤ lead ∧ lead < 0xE0)
    (h : twoBytes lead rest = .char c more) : b :: rest.take more = String.utf8EncodeChar c := by
  unfold twoBytes at h
  split at h
  · next x hx =>
      obtain ⟨b₁, hb₁, hlow₁, hhigh₁, rfl⟩ := tail?_eq_some hx
      cases h
      cases rest with
      | nil => cases hb₁
      | cons b' rest =>
          obtain rfl : b' = b₁ := Option.some.inj hb₁
          have hc := toNat_ofNat_of_valid (n := lead % 32 * 64 + b'.toNat % 64) (by omega)
          rw [String.utf8EncodeChar, hc, if_neg (by omega), if_pos (by omega),
            ofNat_toNat_eq b (by omega), ofNat_toNat_eq b' (by omega)]
          rfl
  · cases h

theorem eq_encodeChar_of_threeBytes {lead low high more : Nat} {rest : Bytes} {c : Char} {b : UInt8}
    (hlead : b.toNat = lead)
    (hrange : lead = 0xE0 ∧ low = 0xA0 ∧ high = 0xBF ∨ lead = 0xED ∧ low = 0x80 ∧ high = 0x9F ∨
      (0xE1 ≤ lead ∧ lead < 0xF0 ∧ lead ≠ 0xED) ∧ low = 0x80 ∧ high = 0xBF)
    (h : threeBytes lead low high rest = .char c more) :
    b :: rest.take more = String.utf8EncodeChar c := by
  unfold threeBytes at h
  split at h
  · cases h
  · next x hx =>
      split at h
      · cases h
      · next y hy =>
          obtain ⟨b₁, hb₁, hlow₁, hhigh₁, rfl⟩ := tail?_eq_some hx
          obtain ⟨b₂, hb₂, hlow₂, hhigh₂, rfl⟩ := tail?_eq_some hy
          cases h
          match rest, hb₁, hb₂ with
          | b' :: b'' :: rest, hb₁, hb₂ =>
              obtain rfl : b' = b₁ := Option.some.inj hb₁
              obtain rfl : b'' = b₂ := Option.some.inj hb₂
              have hc := toNat_ofNat_of_valid
                (n := lead % 16 * 4096 + b'.toNat % 64 * 64 + b''.toNat % 64) (by omega)
              rw [String.utf8EncodeChar, hc, if_neg (by omega), if_neg (by omega),
                if_pos (by omega), ofNat_toNat_eq b (by omega), ofNat_toNat_eq b' (by omega),
                ofNat_toNat_eq b'' (by omega)]
              rfl

theorem eq_encodeChar_of_fourBytes {lead low high more : Nat} {rest : Bytes} {c : Char} {b : UInt8}
    (hlead : b.toNat = lead)
    (hrange : lead = 0xF0 ∧ low = 0x90 ∧ high = 0xBF ∨
      (0xF1 ≤ lead ∧ lead < 0xF4) ∧ low = 0x80 ∧ high = 0xBF ∨
      lead = 0xF4 ∧ low = 0x80 ∧ high = 0x8F)
    (h : fourBytes lead low high rest = .char c more) :
    b :: rest.take more = String.utf8EncodeChar c := by
  unfold fourBytes at h
  split at h
  · cases h
  · next x hx =>
      split at h
      · cases h
      · next y hy =>
          split at h
          · cases h
          · next z hz =>
              obtain ⟨b₁, hb₁, hlow₁, hhigh₁, rfl⟩ := tail?_eq_some hx
              obtain ⟨b₂, hb₂, hlow₂, hhigh₂, rfl⟩ := tail?_eq_some hy
              obtain ⟨b₃, hb₃, hlow₃, hhigh₃, rfl⟩ := tail?_eq_some hz
              cases h
              match rest, hb₁, hb₂, hb₃ with
              | b' :: b'' :: b''' :: rest, hb₁, hb₂, hb₃ =>
                  obtain rfl : b' = b₁ := Option.some.inj hb₁
                  obtain rfl : b'' = b₂ := Option.some.inj hb₂
                  obtain rfl : b''' = b₃ := Option.some.inj hb₃
                  have hc := toNat_ofNat_of_valid (n := lead % 8 * 262144 +
                    b'.toNat % 64 * 4096 + b''.toNat % 64 * 64 + b'''.toNat % 64) (by omega)
                  rw [String.utf8EncodeChar, hc, if_neg (by omega), if_neg (by omega),
                    if_neg (by omega), ofNat_toNat_eq b (by omega), ofNat_toNat_eq b' (by omega),
                    ofNat_toNat_eq b'' (by omega), ofNat_toNat_eq b''' (by omega)]
                  rfl

theorem eq_encodeChar_of_front {b : UInt8} {rest : Bytes} {c : Char} {more : Nat}
    (h : front b rest = .char c more) : b :: rest.take more = String.utf8EncodeChar c := by
  unfold front at h
  dsimp only at h
  split at h
  · next hascii =>
      cases h
      have hc := toNat_ofNat_of_valid (n := b.toNat) (by omega)
      rw [String.utf8EncodeChar, hc, if_pos (by omega), UInt8.ofNat_toNat]
      rfl
  · split at h
    · cases h
    · split at h
      · exact eq_encodeChar_of_twoBytes rfl (by omega) h
      · split at h
        · exact eq_encodeChar_of_threeBytes rfl (by omega) h
        · split at h
          · exact eq_encodeChar_of_threeBytes rfl (by omega) h
          · split at h
            · exact eq_encodeChar_of_threeBytes rfl (by omega) h
            · split at h
              · exact eq_encodeChar_of_fourBytes rfl (by omega) h
              · split at h
                · exact eq_encodeChar_of_fourBytes rfl (by omega) h
                · split at h
                  · exact eq_encodeChar_of_fourBytes rfl (by omega) h
                  · cases h

/-! ### From a character to bytes -/

theorem tail?_some {low high : Nat} {b : UInt8} (h : low ≤ b.toNat ∧ b.toNat ≤ high) :
    tail? low high (some b) = some (b.toNat % 64) :=
  if_pos h

theorem front_twoBytes {b b₁ : UInt8} (hlead : 0xC2 ≤ b.toNat ∧ b.toNat < 0xE0)
    (h₁ : 0x80 ≤ b₁.toNat ∧ b₁.toNat ≤ 0xBF) (rest : Bytes) :
    front b (b₁ :: rest) = .char (Char.ofNat (b.toNat % 32 * 64 + b₁.toNat % 64)) 1 := by
  unfold front twoBytes
  dsimp only [List.getElem?_cons_zero]
  rw [if_neg (by omega), if_neg (by omega), if_pos hlead.2, tail?_some h₁]

theorem front_threeBytes {b b₁ b₂ : UInt8} (hlead : 0xE0 ≤ b.toNat ∧ b.toNat < 0xF0)
    (h₁ : (if b.toNat = 0xE0 then 0xA0 else 0x80) ≤ b₁.toNat ∧
      b₁.toNat ≤ if b.toNat = 0xED then 0x9F else 0xBF)
    (h₂ : 0x80 ≤ b₂.toNat ∧ b₂.toNat ≤ 0xBF) (rest : Bytes) :
    front b (b₁ :: b₂ :: rest) =
      .char (Char.ofNat (b.toNat % 16 * 4096 + b₁.toNat % 64 * 64 + b₂.toNat % 64)) 2 := by
  have hread : ∀ low high, low ≤ b₁.toNat ∧ b₁.toNat ≤ high →
      threeBytes b.toNat low high (b₁ :: b₂ :: rest) =
        .char (Char.ofNat (b.toNat % 16 * 4096 + b₁.toNat % 64 * 64 + b₂.toNat % 64)) 2 := by
    intro low high hrange
    unfold threeBytes
    dsimp only [List.getElem?_cons_zero, List.getElem?_cons_succ]
    rw [tail?_some hrange, tail?_some h₂]
  unfold front
  dsimp only
  rw [if_neg (by omega), if_neg (by omega), if_neg (by omega)]
  split_ifs at h₁ ⊢ <;> first | omega | exact hread _ _ h₁

theorem front_fourBytes {b b₁ b₂ b₃ : UInt8} (hlead : 0xF0 ≤ b.toNat ∧ b.toNat ≤ 0xF4)
    (h₁ : (if b.toNat = 0xF0 then 0x90 else 0x80) ≤ b₁.toNat ∧
      b₁.toNat ≤ if b.toNat = 0xF4 then 0x8F else 0xBF)
    (h₂ : 0x80 ≤ b₂.toNat ∧ b₂.toNat ≤ 0xBF) (h₃ : 0x80 ≤ b₃.toNat ∧ b₃.toNat ≤ 0xBF)
    (rest : Bytes) :
    front b (b₁ :: b₂ :: b₃ :: rest) =
      .char (Char.ofNat (b.toNat % 8 * 262144 + b₁.toNat % 64 * 4096 + b₂.toNat % 64 * 64 +
        b₃.toNat % 64)) 3 := by
  have hread : ∀ low high, low ≤ b₁.toNat ∧ b₁.toNat ≤ high →
      fourBytes b.toNat low high (b₁ :: b₂ :: b₃ :: rest) =
        .char (Char.ofNat (b.toNat % 8 * 262144 + b₁.toNat % 64 * 4096 + b₂.toNat % 64 * 64 +
          b₃.toNat % 64)) 3 := by
    intro low high hrange
    unfold fourBytes
    dsimp only [List.getElem?_cons_zero, List.getElem?_cons_succ]
    rw [tail?_some hrange, tail?_some h₂, tail?_some h₃]
  unfold front
  dsimp only
  rw [if_neg (by omega), if_neg (by omega), if_neg (by omega), if_neg (by omega),
    if_neg (by omega), if_neg (by omega)]
  split_ifs at h₁ ⊢ <;> first | omega | exact hread _ _ h₁

/-- The bytes that encode a character are read as this character, whatever stands behind them. -/
theorem front_encodeChar (c : Char) (behind : Bytes) :
    ∃ b more, String.utf8EncodeChar c = b :: more ∧
      front b (more ++ behind) = .char c more.length := by
  have hvalid : c.val.toNat < 0xD800 ∨ 0xDFFF < c.val.toNat ∧ c.val.toNat < 0x110000 := c.valid
  have hc : c = Char.ofNat c.val.toNat := (Char.ofNat_toNat c).symm
  have hbyte : ∀ m < 256, (UInt8.ofNat m).toNat = m := fun m hm => Nat.mod_eq_of_lt hm
  unfold String.utf8EncodeChar
  generalize c.val.toNat = n at hc hvalid
  subst hc
  dsimp only
  split_ifs <;> refine ⟨_, _, rfl, ?_⟩
  · have hlead := hbyte n (by omega)
    unfold front
    dsimp only
    rw [hlead, if_pos (by omega)]
    rfl
  · have hlead := hbyte (n / 64 % 32 + 192) (by omega)
    have h₁ := hbyte (n % 64 + 128) (by omega)
    refine (front_twoBytes (by omega) (by omega) behind).trans ?_
    rw [hlead, h₁]
    exact congrArg (Front.char · 1) (congrArg Char.ofNat (by omega))
  · have hlead := hbyte (n / 4096 % 16 + 224) (by omega)
    have h₁ := hbyte (n / 64 % 64 + 128) (by omega)
    have h₂ := hbyte (n % 64 + 128) (by omega)
    refine (front_threeBytes (by omega) ?_ (by omega) behind).trans ?_
    · rw [hlead, h₁]
      split_ifs <;> omega
    · rw [hlead, h₁, h₂]
      exact congrArg (Front.char · 2) (congrArg Char.ofNat (by omega))
  · have hlead := hbyte (n / 262144 % 8 + 240) (by omega)
    have h₁ := hbyte (n / 4096 % 64 + 128) (by omega)
    have h₂ := hbyte (n / 64 % 64 + 128) (by omega)
    have h₃ := hbyte (n % 64 + 128) (by omega)
    refine (front_fourBytes (by omega) ?_ (by omega) (by omega) behind).trans ?_
    · rw [hlead, h₁]
      split_ifs <;> omega
    · rw [hlead, h₁, h₂, h₃]
      exact congrArg (Front.char · 3) (congrArg Char.ofNat (by omega))

/-! ### Bytes of a text -/

theorem read?_skip (n : Nat) (bytes : Bytes) : read? n bytes = read? 0 (bytes.drop n) := by
  induction bytes generalizing n with
  | nil => simp [read?]
  | cons b rest ih =>
      cases n with
      | zero => rfl
      | succ n => exact ih n

theorem encode_of_read? {bytes : Bytes} {text : List Char} (h : read? 0 bytes = some text) :
    encode text = bytes := by
  induction hn : bytes.length using Nat.strongRecOn generalizing bytes text with
  | _ n ih =>
      cases bytes with
      | nil =>
          cases h
          rfl
      | cons b rest =>
          rw [read?] at h
          cases hfront : front b rest with
          | broken more =>
              rw [hfront] at h
              cases h
          | char c more =>
              rw [hfront] at h
              dsimp only at h
              rw [read?_skip] at h
              obtain ⟨text, htext, rfl⟩ := Option.map_eq_some_iff.mp h
              have hlen : (rest.drop more).length < n := by
                rw [List.length_drop, ← hn, List.length_cons]
                omega
              have hrest : text.flatMap String.utf8EncodeChar = rest.drop more :=
                ih _ hlen htext rfl
              rw [encode, List.flatMap_cons, ← eq_encodeChar_of_front hfront, hrest,
                List.cons_append, List.take_append_drop]

theorem read?_encode (text : List Char) : read? 0 (encode text) = some text := by
  induction text with
  | nil => rfl
  | cons c text ih =>
      obtain ⟨b, more, henc, hfront⟩ := front_encodeChar c (encode text)
      show read? 0 (String.utf8EncodeChar c ++ encode text) = _
      rw [henc, List.cons_append, read?, hfront]
      dsimp only
      rw [read?_skip, List.drop_left, ih]
      rfl

/-- **Bytes are read as a text if and only if they are the bytes of that text.** -/
theorem decode?_eq_some_iff {bytes : Bytes} {text : String} :
    decode? bytes = some text ↔ ofString text = bytes := by
  constructor
  · intro h
    obtain ⟨chars, hchars, rfl⟩ := Option.map_eq_some_iff.mp h
    rw [ofString, String.toList_ofList, encode_of_read? hchars]
  · rintro rfl
    unfold decode? ofString
    rw [read?_encode]
    exact congrArg some String.ofList_toList

/-- Bytes that are the bytes of a text. -/
def IsText (bytes : Bytes) : Prop :=
  ∃ text, ofString text = bytes

theorem decode?_eq_none_iff {bytes : Bytes} : decode? bytes = none ↔ ¬IsText bytes := by
  rw [Option.eq_none_iff_forall_ne_some]
  unfold IsText
  simp only [ne_eq, decode?_eq_some_iff, not_exists]

theorem decode?_ofString (text : String) : decode? (ofString text) = some text :=
  decode?_eq_some_iff.mpr rfl

theorem ofString_inj {s t : String} : ofString s = ofString t ↔ s = t := by
  refine ⟨fun h => ?_, congrArg ofString⟩
  have hs := decode?_ofString s
  rw [h, decode?_ofString] at hs
  exact (Option.some.inj hs).symm

/-! ### Order -/

theorem encodeChar_append_lt {c d : Char} (h : c < d) (behind behind' : Bytes) :
    String.utf8EncodeChar c ++ behind < String.utf8EncodeChar d ++ behind' := by
  have hcd : c.val.toNat < d.val.toNat := h
  have hd : d.val.toNat < 0x110000 := by
    have hvalid := d.valid
    unfold UInt32.isValidChar Nat.isValidChar at hvalid
    omega
  -- the first of the base 64 digits in which the numbers differ
  have hdigit : c.val.toNat / 262144 < d.val.toNat / 262144 ∨
      c.val.toNat / 262144 = d.val.toNat / 262144 ∧ (c.val.toNat / 4096 < d.val.toNat / 4096 ∨
        c.val.toNat / 4096 = d.val.toNat / 4096 ∧ (c.val.toNat / 64 < d.val.toNat / 64 ∨
          c.val.toNat / 64 = d.val.toNat / 64)) := by omega
  unfold String.utf8EncodeChar
  dsimp only
  split_ifs <;> simp (disch := omega) only [List.cons_append, List.nil_append,
    List.cons_lt_cons_iff, UInt8.lt_iff_toNat_lt, ← UInt8.toNat_inj, UInt8.toNat_ofNat',
    Nat.mod_eq_of_lt] <;> omega

theorem encode_lt {s t : List Char} (h : s < t) : encode s < encode t := by
  induction s generalizing t with
  | nil =>
      cases t with
      | nil => exact absurd h (List.lt_irrefl [])
      | cons d t =>
          have hpos : 0 < (String.utf8EncodeChar d ++ encode t).length := by
            rw [List.length_append, String.length_utf8EncodeChar]
            have := d.utf8Size_pos
            omega
          obtain ⟨b, rest, hcons⟩ := List.exists_cons_of_length_pos hpos
          show [] < String.utf8EncodeChar d ++ encode t
          rw [hcons]
          exact List.nil_lt_cons b rest
  | cons c s ih =>
      cases t with
      | nil => cases h
      | cons d t =>
          rcases List.cons_lt_cons_iff.mp h with hcd | ⟨rfl, hst⟩
          · exact encodeChar_append_lt hcd _ _
          · exact List.append_left_lt (ih hst)

/-- **The bytes of texts are in the order of the texts.** -/
theorem ofString_lt {s t : String} (h : s < t) : ofString s < ofString t :=
  encode_lt h

end ArchivePlan.Utf8
