import BomAssembly.Text.Percent
import BomAssembly.Text.Split

/-!
# Percent encoding is lossless

Decoding undoes encoding, whatever characters are kept, as long as the percent sign itself is not.
The proof goes through bytes: an encoded text stands for the bytes of the text (`bytes_encode`), and
those bytes decode to it.

Two more facts make encoded texts fit between separators. Only plain characters, kept ones and the
percent sign occur in an encoded text (`not_mem_encode`), and pieces that are put together with a
separator that is kept may be encoded one by one (`encode_joined`).
-/

namespace BomAssembly.Text.Percent

variable {keep : Char → Bool}

/-! ## Digits and bytes -/

theorem hexValue?_hexDigit {n : Nat} (h : n < 16) : hexValue? (hexDigit n) = some n := by
  have key : ∀ m : Fin 16, hexValue? (hexDigit m) = some m.val := by decide
  exact key ⟨n, h⟩

theorem isPlain_hexDigit {n : Nat} (h : n < 16) : isPlain (hexDigit n) = true := by
  have key : ∀ m : Fin 16, isPlain (hexDigit m) = true := by decide
  exact key ⟨n, h⟩

theorem bytes_cons_of_ne {c : Char} (h : c ≠ '%') (rest : List Char) :
    bytes (c :: rest) = String.utf8EncodeChar c ++ bytes rest := by
  match rest with
  | [] => simp [bytes]
  | [d] => simp [bytes]
  | d :: e :: more => rw [bytes, if_neg h]

/-- An escape stands for its byte. -/
theorem bytes_escapeByte_append (b : UInt8) (rest : List Char) :
    bytes (escapeByte b ++ rest) = b :: bytes rest := by
  have hb : b.toNat < 256 := b.toNat_lt
  have hhigh : b.toNat / 16 < 16 := by omega
  have hlow : b.toNat % 16 < 16 := Nat.mod_lt _ (by decide)
  rw [escapeByte, List.cons_append, List.cons_append, List.cons_append, List.nil_append, bytes,
    if_pos rfl, hexValue?_hexDigit hhigh, hexValue?_hexDigit hlow]
  dsimp only
  rw [Nat.div_add_mod', UInt8.ofNat_toNat]

theorem bytes_escapes_append (bs : List UInt8) (rest : List Char) :
    bytes (bs.flatMap escapeByte ++ rest) = bs ++ bytes rest := by
  induction bs with
  | nil => rfl
  | cons b bs ih =>
      rw [List.flatMap_cons, List.append_assoc, bytes_escapeByte_append, ih, List.cons_append]

theorem bytes_encodeChar_append (hk : keep '%' = false) (c : Char) (rest : List Char) :
    bytes (encodeChar keep c ++ rest) = String.utf8EncodeChar c ++ bytes rest := by
  unfold encodeChar
  split
  · next hc =>
    have hne : c ≠ '%' := by
      intro he
      subst he
      rw [hk] at hc
      exact absurd hc (by decide)
    exact bytes_cons_of_ne hne rest
  · exact bytes_escapes_append _ rest

/-- **An encoded text stands for the bytes of the text.** -/
theorem bytes_encode (hk : keep '%' = false) (cs : List Char) :
    bytes (encode keep cs) = cs.flatMap String.utf8EncodeChar := by
  induction cs with
  | nil => rfl
  | cons c cs ih =>
      rw [encode, List.flatMap_cons, bytes_encodeChar_append hk, List.flatMap_cons]
      exact congrArg _ ih

/-! ## Decoding -/

theorem utf8Encode_eq (t : List Char) :
    t.utf8Encode = ByteArray.mk (t.flatMap String.utf8EncodeChar).toArray := by
  rw [List.utf8Encode]
  apply ByteArray.ext
  simp

/-- What decodes is the bytes of what comes out. -/
theorem bytes_of_decode? {cs t : List Char} (h : decode? cs = some t) :
    bytes cs = t.flatMap String.utf8EncodeChar := by
  obtain ⟨a, ha, rfl⟩ := Option.map_eq_some_iff.mp h
  have hsome : (ByteArray.mk (bytes cs).toArray).utf8Decode?.isSome := by rw [ha]; rfl
  have hget := ByteArray.utf8Encode_get_utf8Decode? (h := hsome)
  simp only [ha, Option.get_some, utf8Encode_eq] at hget
  exact (congrArg Array.toList (ByteArray.mk.inj hget)).symm

/-- **Decoding undoes encoding.** -/
theorem decode?_encode (hk : keep '%' = false) (cs : List Char) :
    decode? (encode keep cs) = some cs := by
  rw [decode?, bytes_encode hk, ← utf8Encode_eq, List.utf8Decode?_utf8Encode]
  rfl

theorem encode_injective (hk : keep '%' = false) {cs ds : List Char}
    (h : encode keep cs = encode keep ds) : cs = ds := by
  have hd := congrArg decode? h
  rw [decode?_encode hk, decode?_encode hk] at hd
  exact Option.some.inj hd

theorem bytes_ne_nil {cs : List Char} (h : cs ≠ []) : bytes cs ≠ [] := by
  have hne (c : Char) (bs : List UInt8) : String.utf8EncodeChar c ++ bs ≠ [] := by
    simp [String.utf8EncodeChar_ne_nil]
  match cs with
  | [] => exact absurd rfl h
  | [c] => simp [bytes, String.utf8EncodeChar_ne_nil]
  | [c, d] => exact hne c _
  | c :: d :: e :: rest =>
    rw [bytes]
    split
    · split
      · exact List.cons_ne_nil _ _
      · exact hne c _
    · exact hne c _

/-- Decoding does not make a text empty. -/
theorem ne_nil_of_decode? {cs t : List Char} (h : decode? cs = some t) (hne : cs ≠ []) :
    t ≠ [] := by
  intro ht
  subst ht
  exact bytes_ne_nil hne (bytes_of_decode? h)

/-! ## What an encoded text holds -/

theorem mem_escapeByte {b : UInt8} {x : Char} (h : x ∈ escapeByte b) :
    x = '%' ∨ isPlain x = true := by
  have hb : b.toNat < 256 := b.toNat_lt
  simp only [escapeByte, List.mem_cons, List.not_mem_nil, or_false] at h
  rcases h with h | h | h
  · exact .inl h
  · exact .inr (h ▸ isPlain_hexDigit (by omega))
  · exact .inr (h ▸ isPlain_hexDigit (Nat.mod_lt _ (by decide)))

/-- A character that is neither plain nor the percent sign comes from the text, and was kept. -/
theorem mem_of_mem_encode {cs : List Char} {x : Char} (h : x ∈ encode keep cs)
    (hx : x ≠ '%') (hp : isPlain x = false) : x ∈ cs ∧ keep x = true := by
  obtain ⟨c, hc, hxc⟩ := List.mem_flatMap.mp h
  unfold encodeChar at hxc
  split at hxc
  · next hkeep =>
    rw [List.mem_singleton] at hxc
    subst hxc
    rw [hp, Bool.false_or] at hkeep
    exact ⟨hc, hkeep⟩
  · obtain ⟨b, -, hb⟩ := List.mem_flatMap.mp hxc
    rcases mem_escapeByte hb with hb | hb
    · exact absurd hb hx
    · exact absurd hb (by rw [hp]; decide)

theorem not_mem_encode {cs : List Char} {x : Char} (hx : x ≠ '%') (hp : isPlain x = false)
    (hk : keep x = false) : x ∉ encode keep cs := by
  intro h
  exact absurd (mem_of_mem_encode h hx hp).2 (by rw [hk]; decide)

theorem encodeChar_ne_nil (c : Char) : encodeChar keep c ≠ [] := by
  unfold encodeChar
  split
  · exact List.cons_ne_nil _ _
  · intro h
    rw [List.flatMap_eq_nil_iff] at h
    obtain ⟨b, bs, hb⟩ := List.exists_cons_of_ne_nil (String.utf8EncodeChar_ne_nil (c := c))
    exact absurd (h b (hb ▸ List.mem_cons_self)) (List.cons_ne_nil _ _)

@[simp] theorem encode_nil : encode keep [] = [] := rfl

@[simp] theorem encode_eq_nil_iff {cs : List Char} : encode keep cs = [] ↔ cs = [] := by
  cases cs with
  | nil => simp
  | cons c cs => simp [encode, encodeChar_ne_nil]

/-! ## Encoding between separators -/

theorem encode_append (a b : List Char) : encode keep (a ++ b) = encode keep a ++ encode keep b :=
  List.flatMap_append

theorem encode_of_keep {c : Char} (h : keep c = true) : encode keep [c] = [c] := by
  simp [encode, encodeChar, h]

theorem encode_joined {sep : Char} (h : keep sep = true) (ps : List (List Char)) :
    encode keep (joined [sep] ps) = joined [sep] (ps.map (encode keep)) := by
  induction ps with
  | nil => rfl
  | cons p ps ih =>
      cases ps with
      | nil => rfl
      | cons q qs =>
          rw [joined_cons_cons, encode_append, encode_append, encode_of_keep h, ih]
          rfl

end BomAssembly.Text.Percent
