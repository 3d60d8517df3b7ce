import BomAssembly.Proofs.Text.Trimming
import BomAssembly.Proofs.Yaml.Layout

/-!
# Streams that were written

A document that was written is a stream of printable characters, and its tokens are those of its
value, with the line end behind it or without (`tokens?_render`, `tokens?_trimmed_render`).
-/

namespace BomAssembly.Yaml

/-! ## What is written is printable -/

/-- Printable characters only. -/
def Printable (cs : List Char) : Prop := ∀ c ∈ cs, isPrintable c = true

theorem printable_nil : Printable [] := fun _ hc => absurd hc List.not_mem_nil

theorem printable_cons {c : Char} {cs : List Char} :
    Printable (c :: cs) ↔ isPrintable c = true ∧ Printable cs := List.forall_mem_cons

theorem printable_append {cs ds : List Char} :
    Printable (cs ++ ds) ↔ Printable cs ∧ Printable ds := List.forall_mem_append

theorem printable_pad (n : Nat) : Printable (pad n) := by
  intro c hc
  rw [List.eq_of_mem_replicate hc]
  decide

theorem Printable.endLine {cs : List Char} (h : Printable cs) : Printable (endLine cs) := by
  unfold Yaml.endLine
  split
  · exact h
  · exact printable_append.mpr ⟨h, printable_cons.mpr ⟨by decide, printable_nil⟩⟩

theorem Printable.singleText {cs : List Char} (h : Printable cs) (indent : Nat) (broken : Bool) :
    Printable (singleText indent broken cs) := by
  have hpad : Printable (if broken = true then pad indent else []) := by
    split
    · exact printable_pad indent
    · exact printable_nil
  induction cs generalizing broken with
  | nil =>
      rw [Yaml.singleText]
      exact printable_append.mpr ⟨hpad, printable_cons.mpr ⟨by decide, printable_nil⟩⟩
  | cons c cs ih =>
      obtain ⟨hc, hcs⟩ := printable_cons.mp h
      have hself : Printable [c] := printable_cons.mpr ⟨hc, printable_nil⟩
      rw [Yaml.singleText]
      split
      · refine printable_append.mpr ⟨?_, printable_cons.mpr ⟨hc, ih hcs true ?_⟩⟩
        · split
          · exact hself
          · exact printable_nil
        · rw [if_pos rfl]
          exact printable_pad indent
      · refine printable_append.mpr ⟨printable_append.mpr ⟨hpad, ?_⟩, ih hcs false ?_⟩
        · split
          · exact printable_cons.mpr ⟨by decide, printable_cons.mpr ⟨by decide, printable_nil⟩⟩
          · exact hself
        · exact printable_nil

theorem printable_hexText (digits n : Nat) : Printable (hexText digits n) := by
  have hdigit : ∀ k : Fin 16, isPrintable (Text.Percent.hexDigit k) = true := by decide
  induction digits generalizing n with
  | zero => exact printable_nil
  | succ digits ih =>
      have hlt : n % 16 < 16 := Nat.mod_lt n (by decide)
      exact printable_append.mpr
        ⟨ih (n / 16), printable_cons.mpr ⟨hdigit ⟨n % 16, hlt⟩, printable_nil⟩⟩

theorem printable_doubleChar (c : Char) : Printable (doubleChar c) := by
  have hletter : ∀ l, escapeLetter? c.toNat = some l → isPrintable l = true := by
    intro l hl
    unfold escapeLetter? at hl
    split at hl
    all_goals cases hl
    all_goals decide
  unfold doubleChar
  split
  · next hself =>
    simp only [Bool.and_eq_true] at hself
    exact printable_cons.mpr ⟨hself.1.1.1, printable_nil⟩
  · refine printable_cons.mpr ⟨by decide, ?_⟩
    split
    · next l hl => exact printable_cons.mpr ⟨hletter l hl, printable_nil⟩
    · split
      · exact printable_cons.mpr ⟨by decide, printable_hexText _ _⟩
      · split
        · exact printable_cons.mpr ⟨by decide, printable_hexText _ _⟩
        · exact printable_cons.mpr ⟨by decide, printable_hexText _ _⟩

theorem Printable.blockLines {cs : List Char} (h : Printable cs) (indent : Nat) (fresh : Bool) :
    Printable (blockLines indent fresh cs) := by
  induction cs generalizing fresh with
  | nil => exact printable_nil
  | cons c cs ih =>
      obtain ⟨hc, hcs⟩ := printable_cons.mp h
      rw [Yaml.blockLines]
      split
      · exact printable_cons.mpr ⟨hc, ih hcs true⟩
      · refine printable_append.mpr ⟨?_, printable_cons.mpr ⟨hc, ih hcs false⟩⟩
        split
        · exact printable_pad indent
        · exact printable_nil

theorem printable_blockHints (cs : List Char) : Printable (blockHints cs) := by
  have hhint : ∀ c ∈ blockHints cs, c ∈ ['2', '+', '-'] := by
    unfold blockHints
    dsimp only
    generalize cs.reverse = last
    intro c hc
    rcases List.mem_append.mp hc with hc | hc
    · split at hc <;> simp_all
    · rcases last with _ | ⟨d, _ | ⟨e, ds⟩⟩
      · simp_all
      · dsimp only at hc
        split at hc <;> simp_all
      · dsimp only at hc
        split at hc
        · split at hc <;> simp_all
        · simp_all
  intro c hc
  have hall : ['2', '+', '-'].all isPrintable = true := by decide
  exact List.all_eq_true.mp hall c (hhint c hc)

/-- **A text is written with printable characters**, whatever it holds. -/
theorem printable_scalarText (isKey : Bool) (indent : Nat) (s : String) :
    Printable (scalarText isKey indent s) := by
  rw [scalarText]
  rcases styleOf_cases isKey s with h | h | h | h
  · rw [h]
    exact (plainText_of_styleOf h).2.2.2
  · rw [h]
    have hprintable : Printable s.toList := fun c hc => ((line_of_styleOf h).1 c hc).1
    exact printable_cons.mpr ⟨by decide, hprintable.singleText indent false⟩
  · rw [h]
    refine printable_append.mpr ⟨printable_cons.mpr ⟨by decide, ?_⟩,
      printable_cons.mpr ⟨by decide, printable_nil⟩⟩
    intro c hc
    obtain ⟨d, -, hd⟩ := List.mem_flatMap.mp hc
    exact printable_doubleChar d c hd
  · rw [h]
    have hprintable : Printable s.toList := (block_of_styleOf h).2
    exact printable_append.mpr ⟨printable_cons.mpr ⟨by decide, printable_blockHints _⟩,
      printable_cons.mpr ⟨by decide, hprintable.blockLines indent true⟩⟩

theorem printable_leaf {d : Data} (h : d.IsLeaf) (n : Nat) : Printable (d.inline n) := by
  cases h with
  | str s => exact printable_scalarText false (n + 2) s
  | nat i => exact (plainText_nat i).2
  | noItems => exact printable_cons.mpr ⟨by decide, printable_cons.mpr ⟨by decide, printable_nil⟩⟩

theorem KeyWord.printable {k : String} (h : KeyWord k) : Printable k.toList :=
  (plainText_of_styleOf h.style).2.2.2

theorem printable_valueText_leaf {d : Data} (h : d.IsLeaf) (n : Nat) : Printable (valueText n d) := by
  have hinline := printable_leaf h n
  cases h <;> exact printable_cons.mpr ⟨by decide, hinline.endLine⟩

mutual

theorem Data.printable (d : Data) (n : Nat) (h : d.Regular) : Printable (valueText n d) := by
  match d with
  | .str s => exact printable_valueText_leaf (.str s) n
  | .int i =>
      rw [Data.Regular] at h
      obtain ⟨i, rfl⟩ := Int.eq_ofNat_of_zero_le h.1
      exact printable_valueText_leaf (.nat i) n
  | .seq [] => exact printable_valueText_leaf .noItems n
  | .seq (d :: ds) =>
      rw [Data.Regular] at h
      exact printable_cons.mpr ⟨by decide, items_printable (d :: ds) n h⟩
  | .map [] =>
      rw [Data.Regular] at h
      exact absurd rfl h.1
  | .map (e :: es) =>
      rw [Data.Regular] at h
      exact printable_cons.mpr ⟨by decide, entries_printable (e :: es) (n + 2) h.2⟩

theorem items_printable (ds : List Data) (n : Nat) (h : RegularItems ds) :
    Printable (itemLines n ds) := by
  match ds with
  | [] =>
      rw [itemLines]
      exact printable_nil
  | .map [] :: ds => exact absurd rfl h.1.1
  | .map (e :: es) :: ds =>
      obtain ⟨⟨-, hentries⟩, hmore⟩ := h
      have hlines := entries_printable (e :: es) (n + 2) hentries
      rw [itemLines_cons]
      refine printable_append.mpr ⟨printable_pad n, printable_cons.mpr ⟨by decide,
        printable_cons.mpr ⟨by decide, printable_append.mpr ⟨?_, items_printable ds n hmore⟩⟩⟩⟩
      exact fun c hc => hlines c (List.mem_of_mem_drop hc)

theorem entries_printable (es : List (String × Data)) (n : Nat) (h : RegularEntries es) :
    Printable (entryLines n es) := by
  match es with
  | [] =>
      rw [entryLines]
      exact printable_nil
  | (key, d) :: es =>
      obtain ⟨hkey, -, hd, hmore⟩ := h
      rw [entryLines_cons hkey]
      exact printable_append.mpr ⟨printable_pad n, printable_append.mpr ⟨hkey.printable,
        printable_cons.mpr ⟨by decide, printable_append.mpr
          ⟨d.printable n hd, entries_printable es n hmore⟩⟩⟩⟩

end

/-! ## The tokens of a stream -/

namespace Lexer

/-- At the end of the stream everything that is open is closed. -/
theorem finish_eq {s : Lexer} (hpending : s.pending = none) (houter : s.outer = []) :
    ∃ t, s.finish = some t ∧
      t.tokens = .streamEnd :: (s.indents.map (fun _ => .blockEnd) ++ s.tokens) := by
  obtain ⟨rest, position, tokens, indents, keyAllowed, pending, outer⟩ := s
  dsimp only at hpending houter
  subst hpending houter
  have hall : (indents.takeWhile fun _ => true) = indents := by simp
  refine ⟨_, rfl, ?_⟩
  show Token.streamEnd :: ((indents.takeWhile fun _ => true).map (fun _ => .blockEnd) ++ tokens) = _
  rw [hall]

/-- What stands deeper than a column is closed first. -/
theorem map_openTo_closedTo (m : Nat) (indents : List Nat) (tokens : List Token) :
    (openTo m indents).map (fun _ => .blockEnd) ++ closedTo m indents tokens =
      indents.map (fun _ => Token.blockEnd) ++ tokens := by
  have hlength : (openTo m indents).length + (indents.takeWhile fun i => m < i).length =
      indents.length := by
    rw [Nat.add_comm, openTo, ← List.length_append, List.takeWhile_append_dropWhile]
  rw [closedTo, ← List.append_assoc, List.map_const', List.map_const', List.map_const',
    List.replicate_append_replicate, hlength]

end Lexer

/-- **The tokens of a stream of entries.** -/
theorem ReadsEntries.tokens? {read : List Token} {text : List Char} {m : Nat}
    (h : ReadsEntries 0 read text m []) (hprintable : Printable text) :
    Yaml.tokens? (String.ofList text) = some (.blockMapping :: read ++ [.blockEnd, .streamEnd]) := by
  obtain ⟨c, cs, htext, hc⟩ := h.start
  have hvisible : text = [] ∨ ∃ c cs, text = c :: cs ∧ Visible c := .inr ⟨c, cs, htext, hc.visible⟩
  have hstands : Lexer.Stands (.start text) 0 text :=
    Lexer.stands_here hvisible (fun _ => rfl) [] [] fun _ => rfl
  have hopen : Lexer.OpensMapping 0 [] [] [0] [.blockMapping] :=
    .fresh fun i hi => absurd hi (by simp)
  obtain ⟨s, hsteps, hhas⟩ := h.steps (.start text) [.blockMapping] [] hstands hopen
  have hend := hhas.stands.rest
  have hpending : s.toToken.pending = none := hhas.stands.pending
  have houter : s.toToken.outer = [] := hhas.stands.outer
  have hrun : Lexer.run text.length (.start text) = s.toToken.finish :=
    hsteps.run_eq hend (Lexer.dropStale_of_none hpending houter) (Nat.le_refl _)
  obtain ⟨t, hfinish, htokens⟩ := Lexer.finish_eq hpending houter
  have hclosed : s.toToken.indents.map (fun _ => Token.blockEnd) ++ s.toToken.tokens =
      .blockEnd :: (read.reverse ++ [.blockMapping]) := by
    have hopen := Lexer.map_openTo_closedTo 0 s.indents s.tokens
    rw [hhas.indents, hhas.tokens] at hopen
    exact hopen.symm
  have hreadable : text.all isReadable = true :=
    List.all_eq_true.mpr fun c hc => isReadable_of_isPrintable (hprintable c hc)
  rw [Yaml.tokens?, String.toList_ofList, if_pos hreadable, normalized_of_isPrintable hprintable, hrun,
    hfinish, Option.map_some, htokens, hclosed]
  simp

/-! ## Documents -/

theorem StartsToken.not_isBlank {c : Char} (h : StartsToken c) : Text.isBlank c = false := by
  have hbounds := h.bounds
  simp [Text.isBlank]
  omega

/-- Trimming a line takes its end. -/
theorem trim_line {c d : Char} {cs init : List Char} (hc : Text.isBlank c = false)
    (hlast : c :: cs = init ++ [d]) (hd : Text.isBlank d = false) :
    Text.trim (c :: cs ++ ['\n']) = c :: cs := by
  have hstart : Text.trimStart (c :: cs ++ ['\n']) = c :: cs ++ ['\n'] := by
    simp [Text.trimStart, hc]
  have hfeed : Text.isBlank '\n' = true := by decide
  rw [Text.trim, hstart, hlast, Text.trimEnd]
  simp [hfeed, hd]

/-- What is written last ends in something that is no blank. -/
theorem Data.KeepsEnd.getLast?_inline {d : Data} (hkeeps : d.KeepsEnd) (hd : d.IsLeaf) (n : Nat) :
    ∃ c, (d.inline n).getLast? = some c ∧ Text.isBlank c = false := by
  cases hd with
  | nat i =>
      obtain ⟨c, hlast⟩ : ∃ c, (toString (i : Int)).toList.getLast? = some c :=
        ⟨_, List.getLast?_eq_some_getLast (plainText_nat i).1.ne⟩
      obtain ⟨hlow, hhigh⟩ := digit_bounds (isDigit_of_mem_nat (List.mem_of_getLast? hlast))
      refine ⟨c, hlast, ?_⟩
      simp [Text.isBlank]
      omega
  | noItems => exact ⟨']', rfl, by decide⟩
  | str s =>
      have hinline : Data.inline n (.str s) = scalarText false (n + 2) s := rfl
      have hself : styleOf false s = .plain ∨ styleOf false s = .literal → s.toList ≠ [] →
          ∃ c, s.toList.getLast? = some c ∧ Text.isBlank c = false := by
        intro hstyle hne
        have hlast := List.getLast?_eq_some_getLast hne
        exact ⟨_, hlast, hkeeps hstyle _ hlast⟩
      rw [hinline, scalarText]
      rcases styleOf_cases false s with h | h | h | h
      · rw [h]
        exact hself (.inl h) (plainText_of_styleOf h).1.ne
      · rw [h]
        refine ⟨'\'', ?_, by decide⟩
        rw [List.getLast?_cons, getLast?_singleText]
        rfl
      · rw [h]
        exact ⟨'"', List.getLast?_concat .., by decide⟩
      · obtain ⟨hne, -⟩ := block_of_styleOf h
        obtain ⟨c, hlast, hc⟩ := hself (.inr h) hne
        rw [h]
        refine ⟨c, ?_, hc⟩
        rw [List.getLast?_append, List.getLast?_cons, getLast?_blockLines, hlast]
        rfl

section Render

variable {es : List (String × Data)} (hne : es ≠ []) (h : RegularEntries es)

include hne

theorem toList_render : (Data.map es).render = String.ofList (entryLines 0 es) := by
  obtain ⟨e, es, rfl⟩ := List.exists_cons_of_ne_nil hne
  rw [Data.render, Data.lines]

include h

/-- **A document is read as the tokens of its value.** -/
theorem tokens?_render :
    tokens? (Data.map es).render = some ((Data.map es).tokens ++ [.streamEnd]) := by
  obtain ⟨leaf, front, k, text, -, htext, hsettled⟩ := entries_settled es 0 hne h
  have hprintable := entries_printable es 0 h
  have hread := hsettled.reads_line Below.nothing (Nat.le_refl 0)
  rw [List.append_nil] at hread
  have hlines : entryLines 0 es = text := htext
  rw [hlines] at hprintable
  rw [toList_render hne, hlines, hread.tokens? hprintable, Data.tokens]
  simp

/-- **Its tokens are the same when it is trimmed**, unless what is written last ends in a blank that
nothing marks as its own. -/
theorem tokens?_trimmed_render (hkeeps : (Data.map es).last.KeepsEnd) :
    tokens? (Text.trimmed (Data.map es).render) = some ((Data.map es).tokens ++ [.streamEnd]) := by
  obtain ⟨leaf, front, k, text, hleaf, htext, hsettled⟩ := entries_settled es 0 hne h
  have hlast : (Data.map es).last = leaf := by rw [Data.last, hleaf]; rfl
  rw [hlast] at hkeeps
  have hread := hsettled.reads_all hkeeps
  have hprintable := entries_printable es 0 h
  have hlines : entryLines 0 es = front ++ ' ' :: endLine (leaf.inline k) := by
    rw [← hsettled.lines]
    exact htext
  -- the first and the last character are no blanks, so only the end of the last line is lost
  have htrim : Text.trim (entryLines 0 es) = front ++ ' ' :: leaf.inline k := by
    obtain ⟨c, cs, hstart, hc⟩ := hread.start
    obtain ⟨d, hend, hd⟩ := hkeeps.getLast?_inline hsettled.isLeaf k
    obtain ⟨init, hinline⟩ := List.getLast?_eq_some_iff.mp hend
    have hended : endLine (leaf.inline k) = leaf.inline k ++ ['\n'] := by
      refine endLine_of_last fun e he => not_isBreak_of_not_isBlank ?_
      rw [← Option.some.inj (hend.symm.trans he)]
      exact hd
    have hwhole : entryLines 0 es = c :: cs ++ ['\n'] := by
      rw [hlines, hended, ← hstart]
      simp
    have hbehind : c :: cs = (front ++ ' ' :: init) ++ [d] := by
      rw [← hstart, hinline]
      simp
    rw [hstart, hwhole]
    exact trim_line hc.not_isBlank hbehind hd
  have hprintable' : Printable (front ++ ' ' :: leaf.inline k) := by
    rw [← htrim]
    exact fun c hc => hprintable c (Text.mem_of_mem_trim hc)
  rw [toList_render hne, Text.trimmed, String.toList_ofList, htrim, hread.tokens? hprintable',
    Data.tokens]
  simp

end Render

end BomAssembly.Yaml
