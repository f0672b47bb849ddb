import Interpolation.Proofs.Token.Steps

/-!
# Literal text, byte by byte

Where literal text ends can be seen in the bytes of a template, without decoding them: braces and
the marks of delimiters are single bytes, and no byte of a longer character is equal to one of them.
So a pass over the bytes (`Scanner.literalBytes`) never stops inside a character, and it stops where
`Scanner.literalWidth` does (`Scanner.literalBytes_utf8`).
-/

namespace Interpolation

namespace Text

/-- The bytes of a text in UTF-8. -/
def utf8 (s : Text) : List UInt8 := s.flatMap String.utf8EncodeChar

theorem utf8_cons (c : Char) (s : Text) : utf8 (c :: s) = String.utf8EncodeChar c ++ utf8 s :=
  List.flatMap_cons

/-- The size of a text counts these bytes, so offsets are positions among them. -/
theorem length_utf8 (s : Text) : s.utf8.length = byteSize s := by
  induction s with
  | nil => rfl
  | cons c s ih =>
    rw [utf8_cons, List.length_append, String.length_utf8EncodeChar, ih, byteSize_cons]

/-- A character of ASCII is a single byte, and the bytes of all other characters are greater. -/
theorem utf8EncodeChar_cases (c : Char) :
    (c.toNat < 128 ∧ String.utf8EncodeChar c = [c.toUInt8]) ∨
      (128 ≤ c.toNat ∧ ∀ b ∈ String.utf8EncodeChar c, 128 ≤ b.toNat) := by
  rw [String.utf8EncodeChar]
  change (c.toNat < 128 ∧ (if c.toNat ≤ 127 then _ else _) = _) ∨
    (128 ≤ c.toNat ∧ ∀ b ∈ if c.toNat ≤ 127 then _ else _, _)
  by_cases hascii : c.toNat ≤ 127
  · rw [if_pos hascii]
    exact .inl ⟨Nat.lt_succ_of_le hascii, rfl⟩
  · rw [if_neg hascii]
    refine .inr ⟨Nat.lt_of_not_le hascii, fun b hb ↦ ?_⟩
    split at hb
    · simp only [List.mem_cons, List.not_mem_nil, or_false] at hb
      rcases hb with rfl | rfl <;> rw [UInt8.toNat_ofNat'] <;> omega
    · split at hb
      · simp only [List.mem_cons, List.not_mem_nil, or_false] at hb
        rcases hb with rfl | rfl | rfl <;> rw [UInt8.toNat_ofNat'] <;> omega
      · simp only [List.mem_cons, List.not_mem_nil, or_false] at hb
        rcases hb with rfl | rfl | rfl | rfl <;> rw [UInt8.toNat_ofNat'] <;> omega

theorem toNat_toUInt8 {c : Char} (h : c.toNat < 128) : c.toUInt8.toNat = c.toNat :=
  Nat.mod_eq_of_lt (Nat.lt_trans h (by decide))

theorem toUInt8_eq_iff {c a : Char} (hc : c.toNat < 128) (ha : a.toNat < 128) :
    c.toUInt8 = a.toUInt8 ↔ c = a := by
  constructor
  · intro h
    have hnat := congrArg UInt8.toNat h
    rw [toNat_toUInt8 hc, toNat_toUInt8 ha] at hnat
    exact Char.ext (UInt32.toNat_inj.mp hnat)
  · rintro rfl
    rfl

theorem head?_utf8_eq_some_iff {a : Char} (ha : a.toNat < 128) (s : Text) :
    s.utf8.head? = some a.toUInt8 ↔ s.head? = some a := by
  cases s with
  | nil => simp [utf8]
  | cons c s =>
    rw [utf8_cons, List.head?_cons, Option.some.injEq]
    rcases utf8EncodeChar_cases c with ⟨hc, hbytes⟩ | ⟨hc, hbytes⟩
    · rw [hbytes, List.singleton_append, List.head?_cons, Option.some.injEq, toUInt8_eq_iff hc ha]
    · obtain ⟨b, bs, hcons⟩ := List.exists_cons_of_ne_nil (String.utf8EncodeChar_ne_nil (c := c))
      have hb := hbytes b (hcons ▸ List.mem_cons_self)
      rw [hcons, List.cons_append, List.head?_cons, Option.some.injEq]
      constructor
      · rintro rfl
        rw [toNat_toUInt8 ha] at hb
        omega
      · rintro rfl
        omega

end Text

namespace Scanner

/-- Whether literal text ends before the given bytes. -/
def endsLiteralBytes : List UInt8 → Bool
  | [] => false
  | b :: bs =>
    b = '{'.toUInt8 || b = '}'.toUInt8 ||
      ((b = '#'.toUInt8 || b = '$'.toUInt8) && bs.head? = some '{'.toUInt8)

/-- The number of bytes of literal text at the start of some bytes, added to `n`. -/
def literalBytes (n : Nat) : List UInt8 → Nat
  | [] => n
  | b :: bs => if endsLiteralBytes (b :: bs) then n else literalBytes (n + 1) bs

theorem endsLiteral_cons (c : Char) (s : Text) :
    endsLiteral (c :: s) =
      (c = '{' || c = '}' || ((c = '#' || c = '$') && s.head? = some '{')) := by
  have hdelimiter : (delimiter? (c :: s)).isSome =
      ((c = '#' || c = '$') && s.head? = some '{') := by
    unfold delimiter?
    split
    · rename_i heq
      obtain ⟨rfl, rfl⟩ := List.cons.inj heq
      grind [Delimiter.ofMark?]
    · rename_i hne
      have hhead : s.head? ≠ some '{' := by
        intro h
        obtain ⟨t, rfl⟩ := List.head?_eq_some_iff.mp h
        exact hne c t rfl
      simp [hhead]
  rw [endsLiteral, hdelimiter]
  grind

theorem endsLiteralBytes_cons {c : Char} (hc : c.toNat < 128) (s : Text) :
    endsLiteralBytes (c.toUInt8 :: s.utf8) = endsLiteral (c :: s) := by
  have hbyte : ∀ a : Char, a.toNat < 128 → (c.toUInt8 = a.toUInt8 ↔ c = a) :=
    fun _ ↦ Text.toUInt8_eq_iff hc
  have hbehind : s.utf8.head? = some '{'.toUInt8 ↔ s.head? = some '{' :=
    Text.head?_utf8_eq_some_iff (by decide) s
  simp only [endsLiteralBytes, endsLiteral_cons, hbehind, hbyte '{' (by decide),
    hbyte '}' (by decide), hbyte '#' (by decide), hbyte '$' (by decide)]

theorem literalBytes_append {bs : List UInt8} (h : ∀ b ∈ bs, 128 ≤ b.toNat) (n : Nat)
    (rest : List UInt8) : literalBytes n (bs ++ rest) = literalBytes (n + bs.length) rest := by
  induction bs generalizing n with
  | nil => rfl
  | cons b bs ih =>
    obtain ⟨hb, hbs⟩ := List.forall_mem_cons.mp h
    have hne : ∀ a : Char, a.toNat < 128 → b ≠ a.toUInt8 := by
      rintro a ha rfl
      rw [Text.toNat_toUInt8 ha] at hb
      omega
    have hends : endsLiteralBytes (b :: (bs ++ rest)) = false := by
      simp [endsLiteralBytes, hne]
    rw [List.cons_append, literalBytes, hends, if_neg Bool.false_ne_true, ih hbs, List.length_cons,
      Nat.add_assoc, Nat.add_comm 1]

theorem literalBytes_cons (n : Nat) (c : Char) (s : Text) :
    literalBytes n (Text.utf8 (c :: s)) =
      if endsLiteral (c :: s) then n else literalBytes (n + c.utf8Size) s.utf8 := by
  rw [Text.utf8_cons, ← String.length_utf8EncodeChar]
  rcases Text.utf8EncodeChar_cases c with ⟨hc, hbytes⟩ | ⟨hc, hbytes⟩
  · rw [hbytes, List.singleton_append, literalBytes, endsLiteralBytes_cons hc]
    rfl
  · have hends : endsLiteral (c :: s) = false := by
      have hne : ∀ a : Char, a.toNat < 128 → c ≠ a := by
        rintro a ha rfl
        omega
      simp [endsLiteral_cons, hne]
    rw [literalBytes_append hbytes, hends, if_neg Bool.false_ne_true]

theorem literalWidth_eq_add (width : Nat) (s : Text) :
    literalWidth width s = width + literalWidth 0 s := by
  induction s generalizing width with
  | nil => rfl
  | cons c s ih =>
    rw [literalWidth, literalWidth]
    split
    · rfl
    · rw [ih (width + 1), ih (0 + 1)]
      omega

/-- **The pass over the bytes takes the literal text and nothing else.** -/
theorem literalBytes_utf8 (n : Nat) (s : Text) :
    literalBytes n s.utf8 = n + Text.byteSize (s.take (literalWidth 0 s)) := by
  induction s generalizing n with
  | nil => rfl
  | cons c s ih =>
    rw [literalBytes_cons, literalWidth]
    split
    · rfl
    · rw [ih, literalWidth_eq_add (0 + 1), Nat.zero_add, Nat.add_comm 1, List.take_succ_cons,
        Text.byteSize_cons, Nat.add_assoc]

theorem Takes.byteSize_of_literal {s s' : Scanner} {t : Token} (h : Takes s t s')
    (ht : t.kind = .literal) : Text.byteSize t.text = literalBytes 0 s.rest.utf8 := by
  have htake : s.rest.take (literalWidth 0 s.rest) = t.text := by
    rw [← h.length_of_literal ht, h.rest_eq, List.take_left]
  rw [literalBytes_utf8, htake, Nat.zero_add]

end Scanner

end Interpolation
