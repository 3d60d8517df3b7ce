import BomAssembly.Proofs.Yaml.PlainScalar
import Mathlib.Data.List.Basic

/-!
# Blocks of lines that were written

A block scalar is read line by line: what was read so far, with the ends of its lines, is always the
text that was written so far (`BlockText.text_feed`). What happens to the breaks at the end is decided
by the mark, and `chompingOf` says which one is written: the one that keeps exactly the breaks that
the text ends with (`finish_feedAll`).
-/

namespace BomAssembly.Yaml

namespace BlockText

/-! ## The text so far -/

/-- Everything that was read, every break included. -/
def text (t : BlockText) : List Char := (t.emptyLines ++ t.lineEnd ++ t.done).reverse

/-- Inside a line no break is pending. -/
def Tidy (t : BlockText) : Prop := t.inLine = true → t.lineEnd = [] ∧ t.emptyLines = []

/-- One more character of the text, its indentation left out. -/
def feed (t : BlockText) (c : Char) : BlockText :=
  if isBreak c then
    if t.inLine then { t with lineEnd := [c], inLine := false }
    else { t with emptyLines := c :: t.emptyLines }
  else if t.inLine then { t with done := c :: t.done }
  else t.startLine false c

/-- More characters of the text. -/
def feedAll (t : BlockText) (cs : List Char) : BlockText := cs.foldl feed t

theorem startLine_unfolded (t : BlockText) (c : Char) :
    (t.startLine false c).done = c :: (t.emptyLines ++ t.lineEnd ++ t.done) := by
  simp [startLine]

theorem Tidy.feed {t : BlockText} (h : t.Tidy) (c : Char) : (t.feed c).Tidy := by
  intro hline
  unfold BlockText.feed at hline ⊢
  split at hline
  · split at hline
    · exact Bool.noConfusion hline
    · next hout => exact absurd hline hout
  · next hbreak =>
    rw [if_neg hbreak]
    split
    · next hin => exact h hin
    · exact ⟨rfl, rfl⟩

theorem text_feed {t : BlockText} (h : t.Tidy) (c : Char) : (t.feed c).text = t.text ++ [c] := by
  unfold feed
  split
  · split
    · next hin =>
      obtain ⟨hend, hempty⟩ := h hin
      simp [text, hend, hempty]
    · simp [text]
  · split
    · next hin =>
      obtain ⟨hend, hempty⟩ := h hin
      simp [text, hend, hempty]
    · rw [text, startLine_unfolded]
      simp [startLine, text]

theorem Tidy.feedAll {t : BlockText} (h : t.Tidy) (cs : List Char) : (t.feedAll cs).Tidy := by
  induction cs generalizing t with
  | nil => exact h
  | cons c cs ih => exact ih (h.feed c)

/-- **What was read is what was written.** -/
theorem text_feedAll {t : BlockText} (h : t.Tidy) (cs : List Char) :
    (t.feedAll cs).text = t.text ++ cs := by
  induction cs generalizing t with
  | nil => rw [List.append_nil]; rfl
  | cons c cs ih =>
      have hstep : (t.feedAll (c :: cs)).text = ((t.feed c).feedAll cs).text := rfl
      rw [hstep, ih (h.feed c), text_feed h, List.append_assoc, List.singleton_append]

theorem inLine_feed_of_not_break {c : Char} (h : isBreak c = false) (t : BlockText) :
    (t.feed c).inLine = true := by
  unfold feed
  rw [if_neg (by simp [h])]
  split
  · next hin => exact hin
  · rfl

theorem inLine_feed_of_break {c : Char} (h : isBreak c = true) (t : BlockText) :
    (t.feed c).inLine = false := by
  unfold feed
  rw [if_pos h]
  split
  · rfl
  · next hout => simpa using hout

theorem feedAll_concat (t : BlockText) (cs : List Char) (c : Char) :
    t.feedAll (cs ++ [c]) = (t.feedAll cs).feed c := by
  rw [feedAll, List.foldl_append]
  rfl

end BlockText

/-! ## The breaks at the end -/

/-- What has to happen to the breaks at the end, so that those of the text are kept. -/
def chompingOf (cs : List Char) : Chomping :=
  match cs.reverse with
  | [] => .strip
  | [c] => if isBreak c then .keep else .strip
  | c :: d :: _ => if isBreak c then (if isBreak d then .keep else .clip) else .strip

theorem chompingOf_strip {c : Char} (h : isBreak c = false) (cs : List Char) :
    chompingOf (cs ++ [c]) = .strip := by
  unfold chompingOf
  rw [List.reverse_append, List.reverse_singleton, List.singleton_append]
  cases hcs : cs.reverse with
  | nil => simp [h]
  | cons d ds => simp [h]

open BlockText in
/-- A text that ends inside a line is kept without the end of that line. -/
theorem finish_inLine {cs : List Char} (hin : (({} : BlockText).feedAll cs).inLine = true)
    (chomping : Chomping) : (({} : BlockText).feedAll cs).finish chomping = cs := by
  have htidy : ({} : BlockText).Tidy := fun h => Bool.noConfusion h
  obtain ⟨hend, hempty⟩ := htidy.feedAll cs hin
  have htext : (({} : BlockText).feedAll cs).text = cs := text_feedAll htidy cs
  rw [text, hend, hempty] at htext
  cases chomping <;> simpa [finish, hend, hempty] using htext

open BlockText in
/-- **The breaks at the end are kept, and no others**: the one that was put behind the last line is
not part of the text. -/
theorem finish_feedAll {cs : List Char} (hne : cs ≠ []) :
    (({} : BlockText).feedAll (endLine cs)).finish (chompingOf cs) = cs := by
  have htidy : ({} : BlockText).Tidy := fun h => Bool.noConfusion h
  have htext : ∀ ds, (({} : BlockText).feedAll ds).text = ds := text_feedAll htidy
  obtain ⟨init, c, rfl⟩ : ∃ init c, cs = init ++ [c] :=
    ⟨_, _, (List.dropLast_concat_getLast hne).symm⟩
  cases hbreak : isBreak c with
  | false =>
      -- one break was added, and is stripped
      have hended : endLine (init ++ [c]) = init ++ [c] ++ ['\n'] := by
        simp [endLine, hbreak]
      have hin : (({} : BlockText).feedAll (init ++ [c])).inLine = true := by
        rw [feedAll_concat]
        exact inLine_feed_of_not_break hbreak _
      obtain ⟨hend, hempty⟩ := htidy.feedAll _ hin
      have hdone := htext (init ++ [c])
      rw [text, hend, hempty] at hdone
      rw [chompingOf_strip hbreak, hended, feedAll_concat, feed, if_pos (by decide), if_pos hin]
      simpa [finish] using hdone
  | true =>
      have hended : endLine (init ++ [c]) = init ++ [c] := by
        simp [endLine, hbreak]
      have hdone := htext (init ++ [c])
      rw [hended]
      rcases List.eq_nil_or_concat init with rfl | ⟨more, d, rfl⟩
      · have hkeep : chompingOf ([] ++ [c]) = .keep := by simp [chompingOf, hbreak]
        rw [hkeep]
        exact hdone
      · rw [List.concat_eq_append] at hdone ⊢
        cases hbefore : isBreak d with
        | true =>
            have hkeep : chompingOf (more ++ [d] ++ [c]) = .keep := by
              simp [chompingOf, hbreak, hbefore]
            rw [hkeep]
            exact hdone
        | false =>
            -- a single break at the end, right behind a line
            have hclip : chompingOf (more ++ [d] ++ [c]) = .clip := by
              simp [chompingOf, hbreak, hbefore]
            have hin : (({} : BlockText).feedAll (more ++ [d])).inLine = true := by
              rw [feedAll_concat]
              exact inLine_feed_of_not_break hbefore _
            obtain ⟨-, hempty⟩ := htidy.feedAll _ hin
            rw [feedAll_concat, feed, if_pos hbreak, if_pos hin] at hdone ⊢
            rw [hclip]
            simpa [finish, text, hempty] using hdone

/-! ## Line by line -/

section Lines

variable (header : BlockHeader) {indent : Nat} {t : BlockText} (rest : List Char)

/-- The indentation of a line is passed over. -/
theorem takeLines_pad (hout : t.inLine = false) (k : Nat) {p : Position} (hp : p.column + k ≤ indent) :
    takeLines header indent t (pad k ++ rest) p = takeLines header indent t rest (p.right k) := by
  induction k generalizing p with
  | zero => rfl
  | succ k ih =>
      have hcolumn : p.column < indent := by omega
      have hmoved : (p.right 1).right k = p.right (k + 1) := by
        simp [Position.right, Nat.add_comm, Nat.add_left_comm]
      show takeLines header indent t (' ' :: (pad k ++ rest)) p = _
      rw [takeLines, if_neg (by simp [hout]), if_pos (by simp [hcolumn]),
        ih (by simp only [Position.right]; omega), hmoved]

/-- A character and what is written in front of it. -/
theorem blockLines_cons (indent : Nat) (t : BlockText) (c : Char) (cs : List Char) :
    blockLines indent (!t.inLine) (c :: cs) =
      (if t.inLine = false ∧ isBreak c = false then pad indent else []) ++
        c :: blockLines indent (!(t.feed c).inLine) cs := by
  rw [blockLines]
  cases hbreak : isBreak c with
  | true =>
      rw [if_pos rfl, BlockText.inLine_feed_of_break hbreak, if_neg (by simp)]
      rfl
  | false =>
      rw [if_neg (by decide), BlockText.inLine_feed_of_not_break hbreak]
      cases t.inLine <;> rfl

/-- A character is read as one more of the text; behind a break the next line begins. -/
theorem takeLines_char (hfolded : header.folded = false) {c : Char} (hc : isPrintable c = true)
    {p : Position} (hp : t.inLine = false → p.column = 0) :
    ∃ q : Position, ((t.feed c).inLine = false → q.column = 0) ∧ takeLines header indent t
      ((if t.inLine = false ∧ isBreak c = false then pad indent else []) ++ c :: rest) p =
        takeLines header indent (t.feed c) rest q := by
  cases hbreak : isBreak c with
  | true =>
      have hspace : (c == ' ') = false := by
        rw [beq_eq_false_iff_ne]
        rintro rfl
        exact absurd hbreak (by decide)
      have htab : (c == '\t') = false := beq_eq_false_iff_ne.mpr (ne_of_isPrintable hc (by decide))
      refine ⟨p.past c, fun _ => by rw [Position.past, if_pos hbreak], ?_⟩
      rw [if_neg (by simp), List.nil_append, takeLines, BlockText.feed, if_pos hbreak]
      cases hin : t.inLine with
      | true => simp [hbreak]
      | false => simp [hbreak, hspace, htab]
  | false =>
      have hnext := BlockText.inLine_feed_of_not_break hbreak t
      have hfeed : t.feed c = if t.inLine = true then { t with done := c :: t.done }
          else t.startLine false c := by
        rw [BlockText.feed, if_neg (by simp [hbreak])]
      cases hin : t.inLine with
      | true =>
          refine ⟨p.right 1, fun h => Bool.noConfusion (hnext.symm.trans h), ?_⟩
          rw [if_neg (by simp), List.nil_append, takeLines, if_pos hin, if_neg (by simp [hbreak]),
            hfeed, if_pos hin]
      | false =>
          have hcolumn : (p.right indent).column = indent := by
            simp [Position.right, hp hin]
          refine ⟨(p.right indent).right 1, fun h => Bool.noConfusion (hnext.symm.trans h), ?_⟩
          rw [if_pos (by simp), takeLines_pad header _ hin indent (by rw [hp hin]; omega), takeLines,
            if_neg (by simp [hin]), hcolumn, if_neg (by simp), if_neg (by simp),
            if_neg (by simp [hbreak]), if_pos rfl, hfolded, hfeed, if_neg (by simp [hin])]

/-- **The lines are read one after another.** -/
theorem takeLines_blockLines (indent : Nat) (t : BlockText) (rest : List Char)
    (hfolded : header.folded = false) {cs : List Char}
    (hprintable : ∀ c ∈ cs, isPrintable c = true) {p : Position}
    (hp : t.inLine = false → p.column = 0) :
    ∃ q : Position, ((t.feedAll cs).inLine = false → q.column = 0) ∧
      takeLines header indent t (blockLines indent (!t.inLine) cs ++ rest) p =
        takeLines header indent (t.feedAll cs) rest q := by
  induction cs generalizing t p with
  | nil => exact ⟨p, hp, rfl⟩
  | cons c cs ih =>
      have hmore := fun d hd => hprintable d (List.mem_cons_of_mem c hd)
      obtain ⟨q, hq, hchar⟩ := takeLines_char header
        (blockLines indent (!(t.feed c).inLine) cs ++ rest) hfolded (hprintable c List.mem_cons_self) hp
      obtain ⟨q', hq', htake⟩ := ih (t.feed c) hmore hq
      refine ⟨q', hq', ?_⟩
      rw [blockLines_cons, List.append_assoc, List.cons_append, hchar, htake]
      rfl

/-- **The lines end where something stands less deep**, or nothing stands at all. -/
theorem takeLines_below {below R : List Char} {m : Nat} (hbelow : Below m below R) (hm : m < indent)
    (hout : t.inLine = false) {p : Position} (hp : p.column = 0) :
    ∃ q, takeLines header indent t below p = some ⟨t.finish header.chomping, R, q⟩ ∧
      (R ≠ [] → q.column = m) := by
  cases hbelow with
  | nothing => exact ⟨p, rfl, fun h => absurd rfl h⟩
  | @token c cs hc =>
      have hcolumn : (p.right m).column = m := by simp [Position.right, hp]
      have hspace : (c == ' ') = false := by
        rw [beq_eq_false_iff_ne]
        exact hc.ne (by unfold StartsToken; decide)
      have htab : (c == '\t') = false := by
        rw [beq_eq_false_iff_ne]
        exact hc.ne (by unfold StartsToken; decide)
      refine ⟨p.right m, ?_, fun _ => hcolumn⟩
      rw [takeLines_pad header _ hout m (by omega), takeLines, if_neg (by simp [hout]),
        if_neg (by simp [hspace]), if_neg (by simp [htab]), if_neg (by simp [hc.isBreak_eq]),
        if_neg (by omega)]

end Lines

/-! ## The mark in front -/

/-- How deep the lines are said to stand; it is written where the first line does not show it. -/
def incrementOf (cs : List Char) : Option Nat :=
  if cs.head?.any fun c => c == ' ' || isBreak c then some 2 else none

/-- The mark that is written for a text. -/
def headerOf (cs : List Char) : BlockHeader := ⟨false, chompingOf cs, incrementOf cs⟩

theorem takeHeader_blockHints (cs rest : List Char) :
    takeHeader false (blockHints cs ++ '\n' :: rest) = some (headerOf cs, '\n' :: rest) := by
  have hlast : ∀ hint : List Char, hint = [] ∧ chompingOf cs = .clip ∨
      hint = ['-'] ∧ chompingOf cs = .strip ∨ hint = ['+'] ∧ chompingOf cs = .keep →
      takeHeader false ((if cs.head?.any fun c => c == ' ' || isBreak c then ['2'] else []) ++ hint ++
        '\n' :: rest) = some (headerOf cs, '\n' :: rest) := by
    intro hint hcases
    unfold headerOf incrementOf
    rcases hcases with ⟨rfl, hchomping⟩ | ⟨rfl, hchomping⟩ | ⟨rfl, hchomping⟩ <;>
    · rw [hchomping]
      split <;> rfl
  unfold blockHints
  dsimp only
  refine hlast _ ?_
  unfold chompingOf
  generalize cs.reverse = last
  rcases last with _ | ⟨c, _ | ⟨d, ds⟩⟩
  · exact .inr (.inl ⟨rfl, rfl⟩)
  · dsimp only
    cases isBreak c with
    | true => exact .inr (.inr ⟨rfl, rfl⟩)
    | false => exact .inr (.inl ⟨rfl, rfl⟩)
  · dsimp only
    cases isBreak c with
    | false => exact .inr (.inl ⟨rfl, rfl⟩)
    | true =>
        cases isBreak d with
        | true => exact .inr (.inr ⟨rfl, rfl⟩)
        | false => exact .inl ⟨rfl, rfl⟩

theorem skipComment_lineEnd (cs : List Char) (p : Position) :
    skipComment ('\n' :: cs) p = some (cs, ⟨p.line + 1, 0⟩) := by
  simp [skipComment, isSpacing, isBreak, Position.past, Position.right]

theorem takeLeading_pad {c : Char} (hspace : c ≠ ' ') (htab : c ≠ '\t') (hbreak : isBreak c = false)
    (k : Nat) (rest : List Char) (p : Position) :
    takeLeading [] 0 (pad k ++ c :: rest) p =
      some ⟨([], p.column + k), c :: rest, p.right k⟩ := by
  induction k generalizing p with
  | zero =>
      show takeLeading [] 0 (c :: rest) p = _
      rw [takeLeading, if_neg hspace, if_neg htab, if_neg (by simp [hbreak]), Nat.zero_max]
      rfl
  | succ k ih =>
      have hmoved : (p.right 1).right k = p.right (k + 1) := by
        simp [Position.right, Nat.add_comm, Nat.add_left_comm]
      have hcolumn : (p.right 1).column + k = p.column + (k + 1) := by
        simp only [Position.right]
        omega
      show takeLeading [] 0 (' ' :: (pad k ++ c :: rest)) p = _
      rw [takeLeading, if_pos rfl, ih, hmoved, hcolumn]

/-- Behind the hints come the lines: indented by so much, or by as much as the first one is. -/
theorem takeBlock_lineEnd (cs rest : List Char) (n : Nat) (p : Position) :
    takeBlock false (some n) (blockHints cs ++ '\n' :: rest) p =
      match incrementOf cs with
      | some k => takeLines (headerOf cs) (n + k) {} rest ⟨p.line + 1, 0⟩
      | none => (takeLeading [] 0 rest ⟨p.line + 1, 0⟩).bind fun lead =>
          takeLines (headerOf cs) (max lead.value.2 (n + 1)) { emptyLines := lead.value.1 } lead.rest
            lead.position := by
  rw [takeBlock, takeHeader_blockHints]
  dsimp only [Option.bind_eq_bind, Option.bind_some]
  rw [skipComment_lineEnd]
  rfl

/-- **The lines behind the mark are read at the indentation that they were written with**, which the
mark says or the first line shows. -/
theorem takeBlock_blockHints {cs ds : List Char} (hhead : cs.head? = ds.head?) (hne : ds ≠ [])
    (hprintable : ∀ c ∈ ds, isPrintable c = true) (n : Nat) (rest : List Char) (p : Position) :
    ∃ q : Position, q.column = 0 ∧
      takeBlock false (some n) (blockHints cs ++ '\n' :: (blockLines (n + 2) true ds ++ rest)) p =
        takeLines (headerOf cs) (n + 2) {} (blockLines (n + 2) true ds ++ rest) q := by
  obtain ⟨c, cs', rfl⟩ := List.exists_cons_of_ne_nil hne
  have hc := hprintable c List.mem_cons_self
  refine ⟨⟨p.line + 1, 0⟩, rfl, ?_⟩
  rw [takeBlock_lineEnd, incrementOf, hhead]
  by_cases hfirst : (c == ' ' || isBreak c) = true
  · have hincrement : (c :: cs').head?.any (fun c => c == ' ' || isBreak c) = true := hfirst
    rw [if_pos hincrement]
  · have hincrement : ¬ (c :: cs').head?.any (fun c => c == ' ' || isBreak c) = true := hfirst
    rw [if_neg hincrement]
    simp only [Bool.or_eq_true, beq_iff_eq, not_or] at hfirst
    obtain ⟨hspace, hbreak⟩ := hfirst
    have hbreak : isBreak c = false := by simpa using hbreak
    have htab : c ≠ '\t' := ne_of_isPrintable hc (by decide)
    have hlines : blockLines (n + 2) true (c :: cs') ++ rest =
        pad (n + 2) ++ c :: (blockLines (n + 2) false cs' ++ rest) := by
      rw [blockLines, if_neg (by simp [hbreak]), if_pos rfl, List.append_assoc, List.cons_append]
    have hleast : max (0 + (n + 2)) (n + 1) = n + 2 := by omega
    rw [hlines, takeLeading_pad hspace htab hbreak,
      takeLines_pad _ _ rfl (n + 2) (Nat.le_of_eq (Nat.zero_add _))]
    dsimp only [Option.bind_some]
    rw [hleast]

/-! ## Texts that are written as blocks -/

theorem blockLines_concat_feed (indent : Nat) (fresh : Bool) (cs : List Char) :
    blockLines indent fresh (cs ++ ['\n']) = blockLines indent fresh cs ++ ['\n'] := by
  induction cs generalizing fresh with
  | nil => rfl
  | cons c cs ih =>
      rw [List.cons_append, blockLines, blockLines]
      split
      · rw [ih, List.cons_append]
      · rw [ih, List.append_assoc, List.cons_append]

theorem getLast?_blockLines (indent : Nat) (fresh : Bool) (cs : List Char) :
    (blockLines indent fresh cs).getLast? = cs.getLast? := by
  induction cs generalizing fresh with
  | nil => rfl
  | cons c cs ih =>
      rw [blockLines, List.getLast?_cons]
      split
      · rw [List.getLast?_cons, ih]
      · rw [List.getLast?_append, List.getLast?_cons, ih]
        rfl

/-- The last line of a block is ended like any other. -/
theorem endLine_blockLines (indent : Nat) (front : List Char) {cs : List Char} (hne : cs ≠ []) :
    endLine (front ++ blockLines indent true cs) = front ++ blockLines indent true (endLine cs) := by
  have hlast : (front ++ blockLines indent true cs).getLast? = cs.getLast? := by
    have hsome : cs.getLast?.isSome = true := List.getLast?_isSome.mpr hne
    rw [List.getLast?_append, getLast?_blockLines, Option.or_of_isSome hsome]
  rw [endLine, endLine, hlast]
  split
  · rfl
  · rw [blockLines_concat_feed, List.append_assoc]

/-- What is written as a block has line feeds, and nothing that cannot be written as it is. -/
theorem block_of_styleOf {isKey : Bool} {s : String} (h : styleOf isKey s = .literal) :
    s.toList ≠ [] ∧ ∀ c ∈ s.toList, isPrintable c = true := by
  have hquoted : ∀ b : Bool, (if b = true then Style.singleQuoted else .doubleQuoted) ≠ .literal := by
    decide
  unfold styleOf at h
  dsimp only at h
  split at h
  · next hfeed =>
    have hfeed : '\n' ∈ s.toList := by simpa using hfeed
    split at h
    · next hwritable =>
      simp only [Bool.and_eq_true, isWritable] at hwritable
      exact ⟨List.ne_nil_of_mem hfeed, List.all_eq_true.mp hwritable.1.1.1⟩
    · exact absurd h (by decide)
  · split at h
    · exact absurd h (hquoted _)
    · split at h
      · exact absurd h (by decide)
      · exact absurd h (hquoted _)

/-- **A block is read as it was**, if nothing deeper stands below it. -/
theorem takeBlock_of_styleOf {isKey : Bool} {s : String} (h : styleOf isKey s = .literal)
    {below R : List Char} {m n : Nat} (hbelow : Below m below R) (hm : m ≤ n) (p : Position) :
    ∃ q, takeBlock false (some n)
        (blockHints s.toList ++ '\n' :: (blockLines (n + 2) true (endLine s.toList) ++ below)) p =
      some ⟨s.toList, R, q⟩ ∧ (R ≠ [] → q.column = m) := by
  obtain ⟨hne, hprintable⟩ := block_of_styleOf h
  have hhead : s.toList.head? = (endLine s.toList).head? := by
    unfold endLine
    split
    · rfl
    · rw [List.head?_append_of_ne_nil _ hne]
  have hended : endLine s.toList ≠ [] ∧ (∀ c ∈ endLine s.toList, isPrintable c = true) ∧
      (({} : BlockText).feedAll (endLine s.toList)).inLine = false := by
    obtain ⟨init, c, hlast⟩ : ∃ init c, s.toList = init ++ [c] :=
      ⟨_, _, (List.dropLast_concat_getLast hne).symm⟩
    unfold endLine
    split
    · next hbreak =>
      rw [hlast, List.getLast?_concat] at hbreak
      refine ⟨hne, hprintable, ?_⟩
      rw [hlast, BlockText.feedAll_concat]
      exact BlockText.inLine_feed_of_break hbreak _
    · refine ⟨by simp, ?_, ?_⟩
      · intro c hc
        rcases List.mem_append.mp hc with hc | hc
        · exact hprintable c hc
        · rw [List.mem_singleton.mp hc]
          decide
      · rw [BlockText.feedAll_concat]
        exact BlockText.inLine_feed_of_break (by decide) _
  obtain ⟨hne', hprintable', hout⟩ := hended
  obtain ⟨q, hq, hblock⟩ := takeBlock_blockHints hhead hne' hprintable' n below p
  obtain ⟨q', hq', hlines⟩ := takeLines_blockLines (headerOf s.toList) (n + 2) {} below
    rfl hprintable' fun _ => hq
  obtain ⟨q'', hbelow', hcolumn⟩ := takeLines_below (headerOf s.toList) hbelow
    (show m < n + 2 by omega) hout (hq' hout)
  refine ⟨q'', ?_, hcolumn⟩
  have hlines' : takeLines (headerOf s.toList) (n + 2) {}
      (blockLines (n + 2) true (endLine s.toList) ++ below) q = _ := hlines
  rw [hblock, hlines', hbelow']
  have hfinish := finish_feedAll hne
  show some (Taken.mk
    ((({} : BlockText).feedAll (endLine s.toList)).finish (chompingOf s.toList)) R q'') = _
  rw [hfinish]

/-- At the end of the stream a line is read up to there, whatever the mark says of breaks. -/
theorem takeBlock_all {cs ds : List Char} {c : Char} (hhead : cs.head? = (ds ++ [c]).head?)
    (hprintable : ∀ d ∈ ds ++ [c], isPrintable d = true) (hc : isBreak c = false) (n : Nat)
    (p : Position) : ∃ q, takeBlock false (some n)
      (blockHints cs ++ '\n' :: blockLines (n + 2) true (ds ++ [c])) p = some ⟨ds ++ [c], [], q⟩ := by
  obtain ⟨q, hq, hblock⟩ := takeBlock_blockHints hhead (by simp) hprintable n [] p
  obtain ⟨q', -, hlines⟩ := takeLines_blockLines (headerOf cs) (n + 2) {} [] rfl hprintable
    fun _ => hq
  have hin : (({} : BlockText).feedAll (ds ++ [c])).inLine = true := by
    rw [BlockText.feedAll_concat]
    exact BlockText.inLine_feed_of_not_break hc _
  have hlines' : takeLines (headerOf cs) (n + 2) {} (blockLines (n + 2) true (ds ++ [c]) ++ []) q = _ :=
    hlines
  refine ⟨q', ?_⟩
  rw [List.append_nil] at hblock hlines'
  rw [hblock, hlines']
  show some (Taken.mk ((({} : BlockText).feedAll (ds ++ [c])).finish (headerOf cs).chomping) [] q') = _
  rw [finish_inLine hin]

end BomAssembly.Yaml
