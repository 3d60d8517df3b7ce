import BomAssembly.Yaml.ScalarText
import BomAssembly.Yaml.Writer

/-!
# Plain scalars that were written

A plain scalar is read up to the end of its line, and over the end if the next line is indented deep
enough. What is written plainly never goes over: the next line starts with a token at a column of the
surroundings, or there is none (`Below`). Inside the line it is read as it stands, since nothing in it
looks like a comment or like the end of a key (`PlainText`).
-/

namespace BomAssembly.Yaml

/-! ## Characters that are written as they are -/

theorem printable_cases {c : Char} (h : isPrintable c = true) : c.toNat = 0x0A ∨
    (0x20 ≤ c.toNat ∧ c.toNat ≤ 0x7E) ∨ (0xA0 ≤ c.toNat ∧ c.toNat ≤ 0xFFFD ∧ c.toNat ≠ 0xFEFF) ∨
    0x10000 ≤ c.toNat := by
  simpa [isPrintable, and_assoc, or_assoc] using h

theorem isReadable_of_isPrintable {c : Char} (h : isPrintable c = true) : isReadable c = true := by
  have hcases := printable_cases h
  simp only [isReadable, Bool.or_eq_true, Bool.and_eq_true, beq_iff_eq, decide_eq_true_eq]
  omega

theorem ne_of_isPrintable {c d : Char} (h : isPrintable c = true) (hd : isPrintable d = false) :
    c ≠ d := by
  rintro rfl
  exact Bool.noConfusion (h.symm.trans hd)

/-- **Printable text is read as it stands**, line ends included. -/
theorem normalized_of_isPrintable {cs : List Char} (h : ∀ c ∈ cs, isPrintable c = true) :
    normalized cs = cs := by
  induction cs with
  | nil => rfl
  | cons c cs ih =>
      have hc := h c List.mem_cons_self
      have hreturn : c ≠ '\r' := ne_of_isPrintable hc (by decide)
      have hnext : c.toNat ≠ 0x85 := by
        have hcases := printable_cases hc
        omega
      have hsame : (if c = '\r' ∨ c.toNat = 0x85 then '\n' else c) = c :=
        if_neg (not_or.mpr ⟨hreturn, hnext⟩)
      rw [normalized, hsame, ih fun d hd => h d (List.mem_cons_of_mem _ hd)]
      exact fun rest heq => absurd heq hreturn

/-- A blank that is written is a space. -/
theorem isSpacing_of_isPrintable {c : Char} (h : isPrintable c = true) :
    isSpacing c = (c == ' ') := by
  have htab : (c == '\t') = false := beq_eq_false_iff_ne.mpr (ne_of_isPrintable h (by decide))
  rw [isSpacing, htab, Bool.or_false]

/-! ## What stands below -/

/-- A character that starts a key or an item. -/
def StartsToken (c : Char) : Prop := c = '-' ∨ c.isAlpha = true

/-- What stands on the lines below: nothing, or a token at a column. -/
inductive Below (m : Nat) : List Char → List Char → Prop where
  | nothing : Below m [] []
  | token {c : Char} (cs : List Char) (h : StartsToken c) : Below m (pad m ++ c :: cs) (c :: cs)

theorem StartsToken.bounds {c : Char} (h : StartsToken c) : 0x2D ≤ c.toNat ∧ c.toNat ≤ 0x7A ∧
    (c.toNat = 0x2D ∨ 0x41 ≤ c.toNat) := by
  rcases h with rfl | h
  · decide
  · have hletter : (65 ≤ c.toNat ∧ c.toNat ≤ 90) ∨ (97 ≤ c.toNat ∧ c.toNat ≤ 122) := by
      have hrange : (decide (65 ≤ c.val ∧ c.val ≤ 90) ||
          decide (97 ≤ c.val) && decide (c.val ≤ 122)) = true := h
      simp only [Bool.or_eq_true, Bool.and_eq_true, decide_eq_true_eq,
        UInt32.le_iff_toNat_le] at hrange
      exact hrange
    omega

theorem StartsToken.ne {c d : Char} (h : StartsToken c) (hd : ¬ StartsToken d) : c ≠ d := by
  rintro rfl
  exact hd h

theorem StartsToken.isBreak_eq {c : Char} (h : StartsToken c) : isBreak c = false := by
  have hbounds := h.bounds
  have hfeed : c ≠ '\n' := h.ne (by unfold StartsToken; decide)
  simp only [isBreak, Bool.or_eq_false_iff, beq_eq_false_iff_ne]
  exact ⟨⟨hfeed, by omega⟩, by omega⟩

theorem StartsToken.isSpacing_eq {c : Char} (h : StartsToken c) : isSpacing c = false := by
  have hspace : c ≠ ' ' := h.ne (by unfold StartsToken; decide)
  have htab : c ≠ '\t' := h.ne (by unfold StartsToken; decide)
  simp [isSpacing, hspace, htab]

/-! ## Inside the line -/

/-- What may stand behind a character of a plain text; `spaced` behind a space. -/
def PlainTail : Bool → List Char → Prop
  | spaced, [] => spaced = false
  | spaced, c :: cs => isBreak c = false ∧ c ≠ '\t' ∧ (c = '#' → spaced = false) ∧
      (c = ':' → cs ≠ [] ∧ endsWord cs = false) ∧ PlainTail (c == ' ') cs

theorem endsWord_append {cs : List Char} (hne : cs ≠ []) (rest : List Char) :
    endsWord (cs ++ rest) = endsWord cs := by
  cases cs with
  | nil => exact absurd rfl hne
  | cons c cs => rfl

theorem not_atDocumentMark {p : Position} (h : p.column ≠ 0) (cs : List Char) :
    atDocumentMark p cs = false := by
  have hcolumn : (p.column == 0) = false := beq_eq_false_iff_ne.mpr h
  simp [atDocumentMark, atMark, hcolumn]

/-- The gap of so many spaces on one line, last one first. -/
def spaces (blanks : List Char) : Gap := { blanks }

/-- **The characters of a line are taken one after another.** -/
theorem takePlain_tail {cs : List Char} {blanks : List Char}
    (h : PlainTail (!blanks.isEmpty) cs) (hne : cs ≠ []) (indent : Nat) (done rest : List Char)
    {p : Position} (hp : blanks ≠ [] → p.column ≠ 0) :
    takePlain false indent (spaces blanks) done (cs ++ rest) p =
      takePlain false indent .empty (cs.reverse ++ (blanks ++ done)) rest (p.right cs.length) := by
  induction cs generalizing blanks done p with
  | nil => exact absurd rfl hne
  | cons c cs ih =>
      obtain ⟨hbreak, htab, hcomment, hcolon, htail⟩ := h
      have hright : (p.right 1).column ≠ 0 := Nat.succ_ne_zero _
      have hmoved : (p.right 1).right cs.length = p.right (c :: cs).length := by
        simp [Position.right, Nat.add_comm, Nat.add_left_comm]
      rw [List.cons_append, takePlain, if_neg (by simp [hbreak])]
      by_cases hspace : c = ' '
      · -- a space is kept until the next word, and there is one
        subst hspace
        have hmore : cs ≠ [] := by
          rintro rfl
          exact Bool.noConfusion htail
        have hgap : (spaces blanks).blank ' ' = spaces (' ' :: blanks) := rfl
        rw [if_pos (by decide), if_neg (by simp [spaces]), hgap,
          ih (by simpa using htail) hmore _ fun _ => hright, hmoved]
        simp
      · have hplain : isSpacing c = false := by simp [isSpacing, hspace, htab]
        -- no line has ended since the last word, and what looks like a comment stands in a word
        have hends : endsPlainLine false indent (spaces blanks) p (c :: (cs ++ rest)) = false := by
          by_cases hblanks : blanks = []
          · simp [endsPlainLine, spaces, hblanks]
          · have hmark := not_atDocumentMark (hp hblanks) (c :: (cs ++ rest))
            have hhash : c ≠ '#' := fun heq => hblanks (by simpa using hcomment heq)
            simp [endsPlainLine, spaces, hmark, hhash]
        have hkey : (c == ':' && endsWord (cs ++ rest)) = false := by
          by_cases hc : c = ':'
          · obtain ⟨hmore, hword⟩ := hcolon hc
            simp [endsWord_append hmore, hword]
          · simp [hc]
        have hclose : (spaces blanks).close done = blanks ++ done := by
          simp [Gap.close, Gap.text, spaces]
        rw [if_neg (by simp [hplain]), if_neg (by simp [hends]), if_neg (by simp), if_neg (by
          rw [hkey]
          simp), hclose]
        have htail' : PlainTail (!([] : List Char).isEmpty) cs := by
          rw [beq_eq_false_iff_ne.mpr hspace] at htail
          exact htail
        by_cases hmore : cs = []
        · subst hmore
          rfl
        · refine (ih htail' hmore (c :: (blanks ++ done)) fun _ => hright).trans ?_
          rw [hmoved]
          simp

/-! ## The end of the line -/

theorem takePlain_pad {below R : List Char} {m indent : Nat} (hbelow : Below m below R)
    (hm : m < indent) (done : List Char) {g : Gap} (hbroken : g.broken = true) (line : Nat) :
    ∃ q, takePlain false indent g done below ⟨line, 0⟩ = some ⟨(done.reverse, true), R, q⟩ ∧
      (R ≠ [] → q.column = m) := by
  cases hbelow with
  | nothing => exact ⟨_, by rw [takePlain, hbroken], fun h => absurd rfl h⟩
  | @token c cs hc =>
      -- after the line end spaces count for nothing, up to the column of the token
      have hpad : ∀ (k : Nat) (p : Position), p.column + k = m →
          takePlain false indent g done (pad k ++ c :: cs) p =
            some ⟨(done.reverse, true), c :: cs, p.right k⟩ := by
        intro k
        induction k with
        | zero =>
            intro p hp
            have hcolumn : p.column < indent := by omega
            have hends : endsPlainLine false indent g p (c :: cs) = true := by
              simp [endsPlainLine, hbroken, hcolumn]
            show takePlain false indent g done (c :: cs) p = _
            rw [takePlain, if_neg (by simp [hc.isBreak_eq]), if_neg (by simp [hc.isSpacing_eq]),
              if_pos hends, hbroken]
            rfl
        | succ k ih =>
            intro p hp
            have hgap : g.blank ' ' = g := by rw [Gap.blank, if_pos hbroken]
            have hmoved : (p.right 1).right k = p.right (k + 1) := by
              simp [Position.right, Nat.add_comm, Nat.add_left_comm]
            show takePlain false indent g done (' ' :: (pad k ++ c :: cs)) p = _
            rw [takePlain, if_neg (by decide), if_pos (by decide), if_neg (by simp), hgap,
              ih (p.right 1) (by simp only [Position.right]; omega), hmoved]
      exact ⟨_, hpad m ⟨line, 0⟩ (Nat.zero_add m), fun _ => Nat.zero_add m⟩

/-- **A line end ends a plain scalar** that nothing deeper stands below. -/
theorem takePlain_lineEnd {below R : List Char} {m indent : Nat} (hbelow : Below m below R)
    (hm : m < indent) (done : List Char) (p : Position) :
    ∃ q, takePlain false indent .empty done ('\n' :: below) p =
      some ⟨(done.reverse, true), R, q⟩ ∧ (R ≠ [] → q.column = m) := by
  have hbroken : (Gap.empty.lineBreak '\n').broken = true := rfl
  have hpast : p.past '\n' = ⟨p.line + 1, 0⟩ := rfl
  rw [takePlain, if_pos (by decide), hpast]
  exact takePlain_pad hbelow hm done hbroken (p.line + 1)

/-! ## Texts that are written plainly -/

/-- A text that reads as itself when it is written plainly. -/
structure PlainText (cs : List Char) : Prop where
  ne : cs ≠ []
  tail : PlainTail false cs
  start : startsWithIndicator cs = false
  noBlank : cs.head? ≠ some ' '

section Text

variable {cs : List Char} (h : PlainText cs) (p : Position)

include h

theorem PlainText.take (indent : Nat) (rest : List Char) :
    takePlain false indent .empty [] (cs ++ rest) p =
      takePlain false indent .empty cs.reverse rest (p.right cs.length) := by
  have htail : PlainTail (!([] : List Char).isEmpty) cs := h.tail
  refine (takePlain_tail htail h.ne indent [] rest fun hne => absurd rfl hne).trans ?_
  rw [List.append_nil, List.append_nil]

/-- It is read to the colon behind it. -/
theorem PlainText.take_key (indent : Nat) {rest : List Char} (hrest : endsWord rest = true) :
    takePlain false indent .empty [] (cs ++ ':' :: rest) p =
      some ⟨(cs, false), ':' :: rest, p.right cs.length⟩ := by
  have hopen : endsPlainLine false indent .empty (p.right cs.length) (':' :: rest) = false := rfl
  rw [h.take p, takePlain, if_neg (by decide), if_neg (by decide), if_neg (by simp [hopen]),
    if_neg (by simp), if_pos (by simp [hrest]), List.reverse_reverse]
  rfl

/-- It is read to the end of its line. -/
theorem PlainText.take_line {below R : List Char} {m indent : Nat} (hbelow : Below m below R)
    (hm : m < indent) : ∃ q, takePlain false indent .empty [] (cs ++ '\n' :: below) p =
      some ⟨(cs, true), R, q⟩ ∧ (R ≠ [] → q.column = m) := by
  obtain ⟨q, hq, hcolumn⟩ := takePlain_lineEnd hbelow hm cs.reverse (p.right cs.length)
  rw [h.take p, hq, List.reverse_reverse]
  exact ⟨q, rfl, hcolumn⟩

/-- It is read to the end of the stream. -/
theorem PlainText.take_all (indent : Nat) : ∃ q, takePlain false indent .empty [] cs p =
    some ⟨(cs, false), [], q⟩ := by
  have htake := h.take p indent []
  rw [List.append_nil] at htake
  rw [htake, takePlain, List.reverse_reverse]
  exact ⟨_, rfl⟩

end Text

theorem plainTail_of_innerIndicator {a : Char} {cs : List Char}
    (h : hasInnerIndicator (a :: cs) = false)
    (hline : ∀ c ∈ cs, isPrintable c = true ∧ isBreak c = false)
    (hlast : (a :: cs).getLast? ≠ some ' ') : PlainTail (a == ' ') cs := by
  induction cs generalizing a with
  | nil => exact beq_eq_false_iff_ne.mpr fun ha => hlast (by rw [ha]; rfl)
  | cons b cs ih =>
      rw [hasInnerIndicator, Bool.or_eq_false_iff, Bool.or_eq_false_iff] at h
      obtain ⟨⟨hcolon, hcomment⟩, hmore⟩ := h
      obtain ⟨hprintable, hbreak⟩ := hline b List.mem_cons_self
      refine ⟨hbreak, ne_of_isPrintable hprintable (by decide), ?_, ?_,
        ih hmore (fun c hc => hline c (List.mem_cons_of_mem _ hc)) ?_⟩
      · rintro rfl
        have hspacing : isSpacing a = false := by
          simpa using (Bool.or_eq_false_iff.mp (by simpa using hcomment)).1
        simp only [isSpacing, Bool.or_eq_false_iff] at hspacing
        exact hspacing.1
      · rintro rfl
        have hword : endsWord cs = false := by simpa using hcolon
        refine ⟨?_, hword⟩
        rintro rfl
        exact Bool.noConfusion hword
      · rwa [List.getLast?_cons_cons] at hlast

/-- **What is written plainly** reads as a text, and as itself. -/
theorem plainText_of_styleOf {isKey : Bool} {s : String} (h : styleOf isKey s = .plain) :
    PlainText s.toList ∧ plainValue s = .text ∧ isPadded s.toList = false ∧
      ∀ c ∈ s.toList, isPrintable c = true := by
  unfold styleOf at h
  dsimp only at h
  split at h
  · split at h <;> exact absurd h (by decide)
  · split at h
    · split at h <;> exact absurd h (by decide)
    · next hvalue =>
      split at h
      · next hplain =>
        simp only [Bool.and_eq_true, Bool.not_eq_true', isWritable] at hplain
        obtain ⟨⟨⟨⟨⟨hprintable, -⟩, hloose⟩, hbreaks⟩, hstart⟩, hinner⟩ := hplain
        obtain ⟨htext, hpadded⟩ : plainValue s = .text ∧ isPadded s.toList = false := by
          simpa using hvalue
        have hne : s.toList ≠ [] := by
          intro hnil
          rw [String.toList_eq_nil_iff.mp hnil] at htext
          exact absurd htext (by decide)
        have hall : ∀ c ∈ s.toList, isPrintable c = true := List.all_eq_true.mp hprintable
        have hline : ∀ c ∈ s.toList, isBreak c = false := by
          intro c hc
          simpa using List.any_eq_false.mp hbreaks c hc
        refine ⟨?_, htext, hpadded, hall⟩
        obtain ⟨c, cs, hcs⟩ := List.exists_cons_of_ne_nil hne
        rw [hcs] at hstart hinner hall hline hloose ⊢
        rw [hasLooseEnds, Bool.or_eq_false_iff] at hloose
        have hhead : c ≠ ' ' := by
          rintro rfl
          exact Bool.noConfusion hloose.1
        have hlast : (c :: cs).getLast? ≠ some ' ' := by
          intro heq
          rw [heq] at hloose
          exact Bool.noConfusion hloose.2
        have htail := plainTail_of_innerIndicator hinner
          (fun d hd => ⟨hall d (List.mem_cons_of_mem _ hd), hline d (List.mem_cons_of_mem _ hd)⟩)
          hlast
        refine ⟨by simp, ⟨hline c List.mem_cons_self, ?_, fun _ => rfl, ?_, htail⟩, hstart, ?_⟩
        · exact ne_of_isPrintable (hall c List.mem_cons_self) (by decide)
        · -- a colon in front of a blank would have been taken for an indicator
          rintro rfl
          have hword : endsWord cs = false := by
            rw [startsWithIndicator, Bool.or_eq_false_iff, Bool.or_eq_false_iff,
              Bool.or_eq_false_iff] at hstart
            simpa using hstart.1.1.2
          refine ⟨?_, hword⟩
          rintro rfl
          exact Bool.noConfusion hword
        · simpa using hhead
      · split at h <;> exact absurd h (by decide)

end BomAssembly.Yaml
