import BomAssembly.Text.Split
import Mathlib.Data.Char
import Mathlib.Tactic.SplitIfs

/-!
# Text in the order of its bytes

Texts are compared character by character; a store that is kept in order compares the bytes of
their UTF-8 form. Both are the same order (`bytesOf_lt_iff`), and a text begins with another exactly
if its bytes begin with the bytes of the other (`startsWith_eq`).

All rests on one character: the bytes of the lesser of two are less whatever stands behind them
(`utf8EncodeChar_append_lt`). The first byte grows with the character and tells how many bytes
follow it. Where two characters have the same first byte, the bytes that follow are the digits of
their code points to the base 64, the most significant one first.
-/

namespace BomAssembly.Text.Utf8

/-! ## Digits -/

/-- A number without its last `k` digits to the base 64. -/
def top : Nat → Nat → Nat
  | 0, n => n
  | k + 1, n => top k (n / 64)

/-- The last `k` digits of a number to the base 64, each with the mark of a byte that follows. -/
def following : Nat → Nat → List UInt8
  | 0, _ => []
  | k + 1, n => following k (n / 64) ++ [UInt8.ofNat (n % 64 + 128)]

theorem ofNat_lt_ofNat {m n : Nat} (h : m < n) (hn : n < 256) : UInt8.ofNat m < UInt8.ofNat n := by
  have hm : m < 256 := Nat.lt_trans h hn
  rwa [UInt8.lt_iff_toNat_lt, UInt8.toNat_ofNat_of_lt' hm, UInt8.toNat_ofNat_of_lt' hn]

theorem top_mono {k m n : Nat} (h : m ≤ n) : top k m ≤ top k n := by
  induction k generalizing m n with
  | zero => exact h
  | succ k ih => exact ih (Nat.div_le_div_right h)

/-- Digits are ordered as the numbers are, if there is no other difference. -/
theorem following_append_lt {k m n : Nat} (htop : top k m = top k n) (h : m < n)
    (s t : List UInt8) : following k m ++ s < following k n ++ t := by
  induction k generalizing m n s t with
  | zero => exact absurd htop (Nat.ne_of_lt h)
  | succ k ih =>
      rw [following, following, List.append_assoc, List.append_assoc]
      rcases Nat.lt_or_ge (m / 64) (n / 64) with hhigh | hhigh
      · exact ih htop hhigh _ _
      · -- only the last digit differs
        have heq : m / 64 = n / 64 := by omega
        have hlast : m % 64 + 128 < n % 64 + 128 := by omega
        rw [heq]
        exact List.append_left_lt
          (List.cons_lt_cons_iff.mpr (.inl (ofNat_lt_ofNat hlast (by omega))))

/-! ## One character -/

/-- How many bytes follow the first one of a code point. -/
def followers (n : Nat) : Nat :=
  if n ≤ 0x7f then 0 else if n ≤ 0x7ff then 1 else if n ≤ 0xffff then 2 else 3

/-- The mark of a first byte that so many follow. -/
def mark : Nat → Nat
  | 0 => 0
  | 1 => 0xc0
  | 2 => 0xe0
  | _ => 0xf0

/-- The first byte of a code point. -/
def firstByte (n : Nat) : Nat := mark (followers n) + top (followers n) n

theorem codePoint_lt (c : Char) : c.toNat < 0x110000 := by
  rcases c.valid with h | ⟨-, h⟩
  · exact Nat.lt_trans h (by decide)
  · exact h

theorem firstByte_lt {n : Nat} (h : n < 0x110000) : firstByte n < 256 := by
  unfold firstByte followers
  split_ifs <;> simp only [mark, top] <;> omega

/-- More bytes follow a greater first byte. -/
theorem firstByte_lt_of_followers {m n : Nat} (h : m < n) (hne : followers m ≠ followers n)
    (hn : n < 0x110000) : firstByte m < firstByte n := by
  unfold followers at hne
  unfold firstByte followers
  split_ifs at hne ⊢ <;> simp only [mark, top] <;> omega

/-- The first byte grows with the code point, or leaves the difference to the digits. -/
theorem firstByte_lt_or {m n : Nat} (h : m < n) (hn : n < 0x110000) : firstByte m < firstByte n ∨
    followers m = followers n ∧ top (followers n) m = top (followers n) n := by
  by_cases hk : followers m = followers n
  · rcases Nat.lt_or_eq_of_le (top_mono (k := followers n) (Nat.le_of_lt h)) with htop | htop
    · rw [firstByte, firstByte, hk]
      exact .inl (Nat.add_lt_add_left htop _)
    · exact .inr ⟨hk, htop⟩
  · exact .inl (firstByte_lt_of_followers h hk hn)

/-- **The bytes of a character** are a marked first byte and digits that follow. -/
theorem utf8EncodeChar_eq (c : Char) : String.utf8EncodeChar c =
    UInt8.ofNat (firstByte c.toNat) :: following (followers c.toNat) c.toNat := by
  have hc : c.val.toNat < 0x110000 := codePoint_lt c
  unfold firstByte
  fun_cases String.utf8EncodeChar c with
  | case1 n h =>
      have hk : followers c.toNat = 0 := if_pos h
      have hfirst : n = 0 + n := by omega
      rw [hk, hfirst]
      rfl
  | case2 n h h' =>
      have hk : followers c.toNat = 1 := (if_neg h).trans (if_pos h')
      have hfirst : n / 64 % 0x20 + 0xc0 = 0xc0 + n / 64 := by omega
      rw [hk, hfirst]
      rfl
  | case3 n h h' h'' =>
      have hk : followers c.toNat = 2 :=
        (if_neg h).trans ((if_neg h').trans (if_pos h''))
      have hfirst : n / 4096 % 0x10 + 0xe0 = 0xe0 + n / 64 / 64 := by omega
      rw [hk, hfirst]
      rfl
  | case4 n h h' h'' =>
      have hk : followers c.toNat = 3 :=
        (if_neg h).trans ((if_neg h').trans (if_neg h''))
      have hfirst : n / 262144 % 0x08 + 0xf0 = 0xf0 + n / 64 / 64 / 64 := by omega
      have hsecond : n / 4096 = n / 64 / 64 := by omega
      rw [hk, hfirst, hsecond]
      rfl

/-- **The bytes of the lesser character are less, whatever stands behind them.** -/
theorem utf8EncodeChar_append_lt {c d : Char} (h : c < d) (s t : List UInt8) :
    String.utf8EncodeChar c ++ s < String.utf8EncodeChar d ++ t := by
  have hlt : c.toNat < d.toNat := h
  rw [utf8EncodeChar_eq, utf8EncodeChar_eq, List.cons_append, List.cons_append,
    List.cons_lt_cons_iff]
  rcases firstByte_lt_or hlt (codePoint_lt d) with hfirst | ⟨hfollowers, htop⟩
  · exact .inl (ofNat_lt_ofNat hfirst (firstByte_lt (codePoint_lt d)))
  · rw [firstByte, firstByte, hfollowers, htop]
    exact .inr ⟨rfl, following_append_lt htop hlt s t⟩

end BomAssembly.Text.Utf8

namespace BomAssembly.Text

/-! ## Whole texts -/

theorem append_lt_append_iff {l s t : List UInt8} : l ++ s < l ++ t ↔ s < t := by
  induction l with
  | nil => exact Iff.rfl
  | cons x l ih => simp [ih]

theorem flatMap_utf8EncodeChar_lt_iff {a b : List Char} :
    a.flatMap String.utf8EncodeChar < b.flatMap String.utf8EncodeChar ↔ a < b := by
  induction a generalizing b with
  | nil =>
      cases b with
      | nil => exact iff_of_false (List.lt_irrefl _) (List.lt_irrefl _)
      | cons d ds =>
          rw [List.flatMap_cons, Utf8.utf8EncodeChar_eq]
          exact iff_of_true (List.nil_lt_cons _ _) (List.nil_lt_cons _ _)
  | cons c cs ih =>
      cases b with
      | nil => exact iff_of_false (List.not_lt_nil _) (List.not_lt_nil _)
      | cons d ds =>
          rw [List.flatMap_cons, List.flatMap_cons, List.cons_lt_cons_iff]
          rcases lt_trichotomy c d with hlt | rfl | hlt
          · exact iff_of_true (Utf8.utf8EncodeChar_append_lt hlt _ _) (.inl hlt)
          · rw [append_lt_append_iff, ih, or_iff_right (lt_irrefl c), and_iff_right rfl]
          · refine iff_of_false (List.lt_asymm (Utf8.utf8EncodeChar_append_lt hlt _ _)) ?_
            rintro (h | ⟨rfl, -⟩)
            · exact lt_asymm h hlt
            · exact lt_irrefl c hlt

/-- The bytes of a text. -/
def bytesOf (s : String) : List UInt8 := s.toUTF8.data.toList

theorem bytesOf_eq (s : String) : bytesOf s = s.toList.flatMap String.utf8EncodeChar := by
  have h : s.toUTF8 = s.toList.utf8Encode := String.utf8Encode_toList.symm
  rw [bytesOf, h, List.utf8Encode]
  simp

/-- **Texts are ordered as their bytes are.** -/
theorem bytesOf_lt_iff {s t : String} : bytesOf s < bytesOf t ↔ s < t := by
  rw [bytesOf_eq, bytesOf_eq, flatMap_utf8EncodeChar_lt_iff, String.lt_iff]

/-- **A text begins with another exactly if its bytes do.** -/
theorem startsWith_eq (s start : String) :
    startsWith s start = (bytesOf start).isPrefixOf (bytesOf s) := by
  rw [Bool.eq_iff_iff, startsWith, List.isPrefixOf_iff_prefix, List.isPrefixOf_iff_prefix]
  constructor
  · rintro ⟨rest, hrest⟩
    rw [bytesOf_eq, bytesOf_eq, ← hrest, List.flatMap_append]
    exact List.prefix_append _ _
  · rintro ⟨rest, hrest⟩
    refine List.isPrefix_of_utf8Encode_append_eq_utf8Encode ⟨rest.toArray⟩ ?_
    rw [String.utf8Encode_toList, String.utf8Encode_toList]
    apply ByteArray.ext
    rw [ByteArray.data_append, ← Array.toList_inj, Array.toList_append]
    exact hrest

end BomAssembly.Text
