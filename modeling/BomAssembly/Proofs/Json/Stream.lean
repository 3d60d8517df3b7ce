import BomAssembly.Proofs.Json.Escapes

/-!
# JSON texts as YAML streams

A JSON text is read as a stream of tokens: brackets, commas, names and scalars. A name is known to be
one if its colon is near (`Name.isNear`); it is a scalar like any other if not. There are no tokens at
all (`JsonText.tokens?_eq`) where a character cannot be read, where one is written as the two halves of
its number, as the lexer gets as far as the first of them and is stuck there (`Written.stuck`), and
where a tab stands outside the brackets at a place where a key could begin.
-/

namespace BomAssembly.Json

open Yaml (isReadable Spacing Lexer Token)
open Yaml.Lexer (PlainWord InWord EndsItem keyTokens nameTokens)

/-! ## Words -/

theorem inWord_of_all {cs : List Char} (h : (cs.all fun c => decide (InWord c)) = true) :
    ∀ c ∈ cs, InWord c := by
  simpa using h

theorem Digits.inWord (ds : Digits) : ∀ c ∈ ds.chars, InWord c := by
  intro c hc
  exact .inl (by simp [Char.isAlphanum, ds.digit c hc])

theorem Exponent.inWord (e : Exponent) : ∀ c ∈ e.text, InWord c := by
  have hmark : InWord e.mark := by
    rcases e.letter with h | h
    all_goals
      rw [h]
      exact .inl rfl
  have hsign : ∀ c ∈ signText e.sign, InWord c := by
    rcases e.sign with _ | _ | _ <;> exact inWord_of_all (by decide)
  exact List.forall_mem_cons.mpr ⟨hmark, List.forall_mem_append.mpr ⟨hsign, e.digits.inWord⟩⟩

theorem Literal.inWord (l : Literal) : ∀ c ∈ l.text, InWord c := by
  have hminus : ∀ c ∈ (if l.negative then ['-'] else []), InWord c := by
    split <;> exact inWord_of_all (by decide)
  have hfraction : ∀ c ∈ l.fractionText, InWord c := by
    unfold Literal.fractionText
    split
    · next ds _ => exact List.forall_mem_cons.mpr ⟨.inr (.inr (.inr rfl)), ds.inWord⟩
    · exact fun c hc => absurd hc List.not_mem_nil
  have hexponent : ∀ c ∈ l.exponentText, InWord c := by
    unfold Literal.exponentText
    split
    · next e _ => exact e.inWord
    · exact fun c hc => absurd hc List.not_mem_nil
  exact List.forall_mem_append.mpr ⟨hminus, List.forall_mem_append.mpr
    ⟨l.whole.inWord, List.forall_mem_append.mpr ⟨hfraction, hexponent⟩⟩⟩

theorem Literal.plainWord (l : Literal) : PlainWord l.text := by
  refine ⟨l.inWord, ?_⟩
  obtain ⟨d, ds, hwhole⟩ := List.exists_cons_of_ne_nil l.whole.nonempty
  have hd : d.isAlphanum = true := by
    have hdigit := l.whole.digit d (by rw [hwhole]; exact List.mem_cons_self)
    simp [Char.isAlphanum, hdigit]
  unfold Literal.text
  rw [hwhole]
  cases l.negative with
  | true => exact ⟨'-', _, rfl, .inr ⟨rfl, d, _, rfl, hd⟩⟩
  | false => exact ⟨d, _, rfl, .inl hd⟩

/-- **A word is read as a plain scalar.** -/
theorem Word.plainWord (w : Word) : PlainWord w.text := by
  have hletters : ∀ {c : Char} {cs : List Char}, (c :: cs).all Char.isAlphanum = true →
      PlainWord (c :: cs) := fun h =>
    ⟨fun d hd => .inl (List.all_eq_true.mp h d hd), _, _, rfl,
      .inl (List.all_eq_true.mp h _ List.mem_cons_self)⟩
  rcases w with _ | b | ⟨l, v, h⟩
  · exact hletters (by decide)
  · cases b <;> exact hletters (by decide)
  · exact l.plainWord

/-! ## The tokens of a value -/

/-- Whether the colon of a name is near enough for it to be known as one. -/
def Name.isNear (n : Name) : Bool := Lexer.isNear (signsText n.signs) n.between.chars

/-- The token of a comma in front of all but the first of several parts. -/
def commaTokens (first : Bool) : List Token := if first then [] else [.flowEntry]

mutual

/-- What is read. -/
def Written.tokens : Written → List Token
  | .string signs => [.scalar .doubleQuoted (signs.map Sign.char)]
  | .word w => [.scalar .plain w.text]
  | .array _ items => .flowSequence :: (items.tokens true ++ [.flowSequenceEnd])
  | .object _ members => .flowMapping :: (members.tokens true ++ [.flowMappingEnd])

/-- What is read of the items. -/
def WrittenItems.tokens (first : Bool) : WrittenItems → List Token
  | .nil => []
  | .cons _ item _ more => commaTokens first ++ (item.tokens ++ more.tokens false)

/-- What is read of the members. -/
def WrittenMembers.tokens (first : Bool) : WrittenMembers → List Token
  | .nil => []
  | .cons name value _ more => commaTokens first ++
    (nameTokens (signsText name.signs) name.between.chars (name.signs.map Sign.char) ++
      (value.tokens ++ more.tokens false))

end

mutual

/-- Whether a character is written as the two halves of its number. -/
def Written.hasPair : Written → Bool
  | .string signs => signs.any Sign.isPair
  | .word _ => false
  | .array _ items => items.hasPair
  | .object _ members => members.hasPair

/-- `Written.hasPair` for any of the items. -/
def WrittenItems.hasPair : WrittenItems → Bool
  | .nil => false
  | .cons _ item _ more => item.hasPair || more.hasPair

/-- `Written.hasPair` for any of the names and values. -/
def WrittenMembers.hasPair : WrittenMembers → Bool
  | .nil => false
  | .cons name value _ more => name.signs.any Sign.isPair || (value.hasPair || more.hasPair)

end

/-! ## Reading tokens -/

theorem Space.spacing (space : Space) : Spacing space.chars := by
  intro c hc
  have hblank := space.blank c hc
  simp only [isSpace, Bool.or_eq_true, beq_iff_eq] at hblank
  rcases hblank with ((h | h) | h) | h
  · exact .inl h
  · exact .inr (.inr (.inl h))
  · exact .inr (.inl h)
  · exact .inr (.inr (.inr h))

/-- No value begins with a line end. -/
theorem Written.head?_text (w : Written) (rest : List Char) : (w.text ++ rest).head? ≠ some '\n' := by
  cases w with
  | string | array | object => simp [Written.text]
  | word w =>
      obtain ⟨c, cs, hstart, -⟩ := w.plainWord.start
      have hc := (w.plainWord.chars c (by rw [hstart]; exact List.mem_cons_self)).kept.feed
      rw [Written.text, hstart]
      exact fun heq => hc (Option.some.inj heq)

/-- Behind an item comes a comma or the closing bracket. -/
theorem WrittenItems.next (items : WrittenItems) (rest : List Char) :
    ∃ e cs, items.text false ++ ']' :: rest = e :: cs ∧ EndsItem e := by
  cases items with
  | nil => exact ⟨']', rest, rfl, .inr (.inl rfl)⟩
  | cons => exact ⟨',', _, rfl, .inl rfl⟩

theorem WrittenMembers.next (members : WrittenMembers) (rest : List Char) :
    ∃ e cs, members.text false ++ '\x7d' :: rest = e :: cs ∧ EndsItem e := by
  cases members with
  | nil => exact ⟨'\x7d', rest, rfl, .inr (.inr rfl)⟩
  | cons => exact ⟨',', _, rfl, .inl rfl⟩

theorem spacing_append {space space' : List Char} (h : Spacing space) (h' : Spacing space') :
    Spacing (space ++ space') := List.forall_mem_append.mpr ⟨h, h'⟩

/-- The comma in front of a part, behind white space. -/
theorem reaches_comma (first : Bool) {n : Nat} {s : Lexer} {space rest : List Char}
    (hspace : Spacing space) (hs : s.Facing (n + 1) (space ++ (comma first ++ rest))) :
    ∃ (s' : Lexer) (space' : List Char), Spacing space' ∧
      s.Reaches s' (n + 1) (space' ++ rest) (commaTokens first) ∧
        ((first = true → s.keyAllowed = true) → s'.keyAllowed = true) := by
  cases first with
  | true => exact ⟨s, space, hspace, hs.refl, fun h => h rfl⟩
  | false =>
      have hnext : s.Facing (n + 1) (',' :: rest) := hs.skip hspace (by simp [comma])
      obtain ⟨s', hread, hallowed⟩ := hnext.reaches_comma
      exact ⟨s', [], fun c hc => absurd hc List.not_mem_nil, hread, fun _ => hallowed⟩

/-- In front of an item, behind the comma and the white space. -/
theorem WrittenItems.reaches_item (first : Bool) {before behind : Space} {item : Written}
    {more : WrittenItems} {n : Nat} {s : Lexer} {space cs : List Char} (hspace : Spacing space)
    (hs : s.Facing (n + 1)
      (space ++ ((WrittenItems.cons before item behind more).text first ++ ']' :: cs))) :
    ∃ s', s.Reaches s' (n + 1) (item.text ++ (behind.chars ++ (more.text false ++ ']' :: cs)))
      (commaTokens first) := by
  rw [WrittenItems.text] at hs
  simp only [List.append_assoc] at hs
  obtain ⟨s', space', hspace', hcomma, -⟩ := reaches_comma first hspace hs
  have hfacing := hcomma.facing
  rw [← List.append_assoc] at hfacing
  exact ⟨s', hcomma.steps,
    hfacing.skip (spacing_append hspace' before.spacing) (item.head?_text _), hcomma.tokens⟩

/-- In front of a name, behind the comma and the white space; the name may be a key. -/
theorem WrittenMembers.reaches_quote (first : Bool) {name : Name} {value : Written} {behind : Space}
    {more : WrittenMembers} {n : Nat} {s : Lexer} {space cs : List Char} (hspace : Spacing space)
    (hs : s.Facing (n + 1)
      (space ++ ((WrittenMembers.cons name value behind more).text first ++ '\x7d' :: cs)))
    (hallowed : first = true → s.keyAllowed = true) : ∃ s', s.Reaches s' (n + 1)
      ('"' :: (signsText name.signs ++ '"' :: (name.between.chars ++ ':' :: (name.behind.chars ++
        (value.text ++ (behind.chars ++ (more.text false ++ '\x7d' :: cs)))))))
      (commaTokens first) ∧ s'.keyAllowed = true := by
  rw [WrittenMembers.text, Name.text] at hs
  simp only [List.append_assoc, List.cons_append] at hs
  obtain ⟨s', space', hspace', hcomma, hallowed'⟩ := reaches_comma first hspace hs
  have hfacing := hcomma.facing
  rw [← List.append_assoc] at hfacing
  exact ⟨s', ⟨hcomma.steps, hfacing.skip (spacing_append hspace' name.before.spacing) (by simp),
    hcomma.tokens⟩, hallowed' hallowed⟩

/-- Nothing is white space, too. -/
theorem spacing_nil : Spacing [] := fun _ hc => absurd hc List.not_mem_nil

/-- The text of an array or an object, with what stands behind it. -/
theorem text_array (space : Space) (items : WrittenItems) (rest : List Char) :
    (Written.array space items).text ++ rest =
      '[' :: (space.chars ++ (items.text true ++ ']' :: rest)) := by
  simp [Written.text]

theorem text_object (space : Space) (members : WrittenMembers) (rest : List Char) :
    (Written.object space members).text ++ rest =
      '\x7b' :: (space.chars ++ (members.text true ++ '\x7d' :: rest)) := by
  simp [Written.text]

theorem text_string (signs : List Sign) (rest : List Char) :
    (Written.string signs).text ++ rest = '"' :: (signsText signs ++ '"' :: rest) := by
  simp [Written.text]

theorem Written.flat_items {space : Space} {items : WrittenItems}
    (h : ∀ c ∈ (Written.array space items).text, Flat c) : ∀ c ∈ items.text true, Flat c :=
  fun c hc => h c (by simp [Written.text, hc])

theorem Written.flat_members {space : Space} {members : WrittenMembers}
    (h : ∀ c ∈ (Written.object space members).text, Flat c) : ∀ c ∈ members.text true, Flat c :=
  fun c hc => h c (by simp [Written.text, hc])

theorem WrittenItems.flat_cons {before behind : Space} {item : Written} {more : WrittenItems}
    {first : Bool} (h : ∀ c ∈ (WrittenItems.cons before item behind more).text first, Flat c) :
    (∀ c ∈ item.text, Flat c) ∧ ∀ c ∈ more.text false, Flat c :=
  ⟨fun c hc => h c (by simp [WrittenItems.text, hc]), fun c hc => h c (by simp [WrittenItems.text, hc])⟩

theorem WrittenMembers.flat_cons {name : Name} {behind : Space} {value : Written}
    {more : WrittenMembers} {first : Bool}
    (h : ∀ c ∈ (WrittenMembers.cons name value behind more).text first, Flat c) :
    (∀ c ∈ signsText name.signs, Flat c) ∧ (∀ c ∈ value.text, Flat c) ∧
      ∀ c ∈ more.text false, Flat c :=
  ⟨fun c hc => h c (by simp [WrittenMembers.text, Name.text, hc]),
    fun c hc => h c (by simp [WrittenMembers.text, hc]),
    fun c hc => h c (by simp [WrittenMembers.text, hc])⟩

mutual

/-- **A value inside brackets is read as its tokens.** -/
theorem Written.reaches (w : Written) (h : w.hasPair = false) (hflat : ∀ c ∈ w.text, Flat c) {n : Nat}
    {s : Lexer} {behind : Space} {e : Char} {cs : List Char} (he : EndsItem e)
    (hs : s.Facing (n + 1) (w.text ++ (behind.chars ++ e :: cs))) :
    ∃ s', s.Reaches s' (n + 1) (e :: cs) w.tokens := by
  have hend : (e :: cs).head? ≠ some '\n' := by
    rcases he with rfl | rfl | rfl <;> simp
  match w with
  | .string signs =>
      rw [text_string] at hs
      have hflat' : ∀ c ∈ signsText signs, Flat c := fun c hc => hflat c (by simp [Written.text, hc])
      obtain ⟨s', hread⟩ := hs.reaches_quoted (quotedAs_signs h hflat')
      exact ⟨s', hread.steps, hread.facing.skip behind.spacing hend, hread.tokens⟩
  | .word w => exact hs.reaches_word w.plainWord behind.spacing he
  | .array space items =>
      rw [text_array] at hs
      have hflat' := Written.flat_items hflat
      obtain ⟨s₁, hopen, -⟩ := hs.reaches_open .sequence
      obtain ⟨s₂, hitems⟩ := items.reaches h true hflat' space.spacing hopen.facing
      obtain ⟨s₃, hclose, -⟩ := hitems.facing.reaches_close .sequence
      have hread := (hopen.trans hitems).trans hclose
      exact ⟨s₃, hread.steps, hread.facing.skip behind.spacing hend, hread.tokens⟩
  | .object space members =>
      rw [text_object] at hs
      have hflat' := Written.flat_members hflat
      obtain ⟨s₁, hopen, hallowed⟩ := hs.reaches_open .mapping
      obtain ⟨s₂, hmembers⟩ :=
        members.reaches h true hflat' space.spacing hopen.facing fun _ => hallowed
      obtain ⟨s₃, hclose, -⟩ := hmembers.facing.reaches_close .mapping
      have hread := (hopen.trans hmembers).trans hclose
      exact ⟨s₃, hread.steps, hread.facing.skip behind.spacing hend, hread.tokens⟩

theorem WrittenItems.reaches (items : WrittenItems) (h : items.hasPair = false) (first : Bool)
    (hflat : ∀ c ∈ items.text first, Flat c) {n : Nat} {s : Lexer} {space cs : List Char}
    (hspace : Spacing space) (hs : s.Facing (n + 1) (space ++ (items.text first ++ ']' :: cs))) :
    ∃ s', s.Reaches s' (n + 1) (']' :: cs) (items.tokens first) := by
  match items with
  | .nil =>
      rw [WrittenItems.text, List.nil_append] at hs
      exact ⟨s, (hs.skip hspace (by simp)).refl⟩
  | .cons before item behind more =>
      obtain ⟨hsingle, hrest⟩ := Bool.or_eq_false_iff.mp h
      obtain ⟨hitem, hmore⟩ := WrittenItems.flat_cons hflat
      obtain ⟨e, ds, hnext, he⟩ := more.next cs
      obtain ⟨s₁, hfirst⟩ := WrittenItems.reaches_item first hspace hs
      rw [hnext] at hfirst
      obtain ⟨s₂, hread⟩ := item.reaches hsingle hitem he hfirst.facing
      rw [← hnext] at hread
      obtain ⟨s₃, hread'⟩ := more.reaches hrest false hmore spacing_nil hread.facing
      exact ⟨s₃, hfirst.trans (hread.trans hread')⟩

theorem WrittenMembers.reaches (members : WrittenMembers) (h : members.hasPair = false) (first : Bool)
    (hflat : ∀ c ∈ members.text first, Flat c) {n : Nat} {s : Lexer} {space cs : List Char}
    (hspace : Spacing space) (hs : s.Facing (n + 1) (space ++ (members.text first ++ '\x7d' :: cs)))
    (hallowed : first = true → s.keyAllowed = true) :
    ∃ s', s.Reaches s' (n + 1) ('\x7d' :: cs) (members.tokens first) := by
  match members with
  | .nil =>
      rw [WrittenMembers.text, List.nil_append] at hs
      exact ⟨s, (hs.skip hspace (by simp)).refl⟩
  | .cons name value behind more =>
      obtain ⟨hname, h⟩ := Bool.or_eq_false_iff.mp h
      obtain ⟨hsingle, hrest⟩ := Bool.or_eq_false_iff.mp h
      obtain ⟨hsigns, hvalue, hmore⟩ := WrittenMembers.flat_cons hflat
      obtain ⟨e, ds, hnext, he⟩ := more.next cs
      obtain ⟨s₁, hfirst, hallowed'⟩ := WrittenMembers.reaches_quote first hspace hs hallowed
      obtain ⟨s₂, hread⟩ := hfirst.facing.reaches_name (quotedAs_signs hname hsigns)
        name.between.spacing hallowed'
      have hbehind := hread.facing.skip name.behind.spacing (value.head?_text _)
      rw [hnext] at hbehind
      obtain ⟨s₃, hread'⟩ := value.reaches hsingle hvalue he hbehind
      rw [← hnext] at hread'
      obtain ⟨s₄, hread''⟩ := more.reaches hrest false hmore spacing_nil hread'.facing fun hno =>
        Bool.noConfusion hno
      exact ⟨s₄, hfirst.trans (hread.trans (hread'.trans hread''))⟩

end

/-! ## Pairs -/

mutual

/-- **A value with a pair is not read.** -/
theorem Written.stuck (w : Written) (h : w.hasPair = true) (hflat : ∀ c ∈ w.text, Flat c) {n : Nat}
    {s : Lexer} {rest : List Char} (hs : s.Facing (n + 1) (w.text ++ rest)) : s.Stuck := by
  match w with
  | .string signs =>
      rw [text_string] at hs
      exact stuck_signs h (fun c hc => hflat c (by simp [Written.text, hc])) hs
  | .word w => exact Bool.noConfusion h
  | .array space items =>
      rw [text_array] at hs
      have hflat' := Written.flat_items hflat
      obtain ⟨s₁, hopen, -⟩ := hs.reaches_open .sequence
      exact hopen.stuck (items.stuck h true hflat' space.spacing hopen.facing)
  | .object space members =>
      rw [text_object] at hs
      have hflat' := Written.flat_members hflat
      obtain ⟨s₁, hopen, hallowed⟩ := hs.reaches_open .mapping
      exact hopen.stuck (members.stuck h true hflat' space.spacing hopen.facing fun _ => hallowed)

theorem WrittenItems.stuck (items : WrittenItems) (h : items.hasPair = true) (first : Bool)
    (hflat : ∀ c ∈ items.text first, Flat c) {n : Nat} {s : Lexer} {space cs : List Char}
    (hspace : Spacing space) (hs : s.Facing (n + 1) (space ++ (items.text first ++ ']' :: cs))) :
    s.Stuck := by
  match items with
  | .nil => exact Bool.noConfusion h
  | .cons before item behind more =>
      obtain ⟨hitem, hmore⟩ := WrittenItems.flat_cons hflat
      obtain ⟨e, ds, hnext, he⟩ := more.next cs
      obtain ⟨s₁, hfirst⟩ := WrittenItems.reaches_item first hspace hs
      rw [hnext] at hfirst
      cases hsingle : item.hasPair with
      | false =>
          have hrest : more.hasPair = true := by simpa [WrittenItems.hasPair, hsingle] using h
          obtain ⟨s₂, hread⟩ := item.reaches hsingle hitem he hfirst.facing
          rw [← hnext] at hread
          exact hfirst.stuck (hread.stuck (more.stuck hrest false hmore spacing_nil hread.facing))
      | true => exact hfirst.stuck (item.stuck hsingle hitem hfirst.facing)

theorem WrittenMembers.stuck (members : WrittenMembers) (h : members.hasPair = true) (first : Bool)
    (hflat : ∀ c ∈ members.text first, Flat c) {n : Nat} {s : Lexer} {space cs : List Char}
    (hspace : Spacing space) (hs : s.Facing (n + 1) (space ++ (members.text first ++ '\x7d' :: cs)))
    (hallowed : first = true → s.keyAllowed = true) : s.Stuck := by
  match members with
  | .nil => exact Bool.noConfusion h
  | .cons name value behind more =>
      obtain ⟨hsigns, hvalue, hmore⟩ := WrittenMembers.flat_cons hflat
      obtain ⟨e, ds, hnext, he⟩ := more.next cs
      obtain ⟨s₁, hfirst, hallowed'⟩ := WrittenMembers.reaches_quote first hspace hs hallowed
      cases hname : name.signs.any Sign.isPair with
      | false =>
          obtain ⟨s₂, hread⟩ := hfirst.facing.reaches_name (quotedAs_signs hname hsigns)
            name.between.spacing hallowed'
          have hbehind := hread.facing.skip name.behind.spacing (value.head?_text _)
          rw [hnext] at hbehind
          refine hfirst.stuck (hread.stuck ?_)
          cases hsingle : value.hasPair with
          | false =>
              have hrest : more.hasPair = true := by
                simpa [WrittenMembers.hasPair, hname, hsingle] using h
              obtain ⟨s₃, hread'⟩ := value.reaches hsingle hvalue he hbehind
              rw [← hnext] at hread'
              exact hread'.stuck (more.stuck hrest false hmore spacing_nil hread'.facing fun hno =>
                Bool.noConfusion hno)
          | true => exact value.stuck hsingle hvalue hbehind
      | true => exact hfirst.stuck (stuck_signs hname hsigns hfirst.facing)

end

/-! ## The stream -/

/-- Whether a value has brackets around it. -/
def Written.isCollection : Written → Bool
  | .array .. => true
  | .object .. => true
  | _ => false

/-- Whether a value is an object. -/
def Written.isObject : Written → Bool
  | .object .. => true
  | _ => false

section Collections

variable {w : Written} (h : w.isCollection = true) (hflat : ∀ c ∈ w.text, Flat c) {before : Space}
  (hbefore : '\t' ∉ before.chars) (rest : List Char)

include h hflat hbefore

/-- **A collection is read up to its last bracket**, behind which no key may begin on the line. -/
theorem Written.steps_last (hpair : w.hasPair = false) : ∃ s : Lexer,
    (Lexer.start (Yaml.normalized (before.chars ++ (w.text ++ rest)))).Steps s ∧ s.Inside 0 ∧
      s.tokens = w.tokens.reverse ∧ s.keyAllowed = false ∧ s.rest = Yaml.normalized rest := by
  cases w with
  | string | word => exact Bool.noConfusion h
  | array space items =>
      have hflat' := Written.flat_items hflat
      rw [text_array]
      obtain ⟨s₁, hfirst, hfacing, htokens, -⟩ := Lexer.steps_first before.spacing hbefore .sequence
        (space.chars ++ (items.text true ++ ']' :: rest))
      obtain ⟨s₂, hitems⟩ := items.reaches hpair true hflat' space.spacing hfacing
      obtain ⟨s₃, hclose, hallowed, hrest⟩ := hitems.facing.reaches_close .sequence
      refine ⟨s₃, hfirst.trans (hitems.steps.trans hclose.steps), hclose.facing.toInside, ?_, hallowed,
        hrest⟩
      rw [hclose.tokens, hitems.tokens, htokens, Written.tokens]
      simp
  | object space members =>
      have hflat' := Written.flat_members hflat
      rw [text_object]
      obtain ⟨s₁, hfirst, hfacing, htokens, hallowed⟩ :=
        Lexer.steps_first before.spacing hbefore .mapping
          (space.chars ++ (members.text true ++ '\x7d' :: rest))
      obtain ⟨s₂, hmembers⟩ := members.reaches hpair true hflat' space.spacing hfacing fun _ => hallowed
      obtain ⟨s₃, hclose, hallowed', hrest⟩ := hmembers.facing.reaches_close .mapping
      refine ⟨s₃, hfirst.trans (hmembers.steps.trans hclose.steps), hclose.facing.toInside, ?_,
        hallowed', hrest⟩
      rw [hclose.tokens, hmembers.tokens, htokens, Written.tokens]
      simp

/-- A collection with a pair is not read. -/
theorem Written.stuck_start (hpair : w.hasPair = true) :
    (Lexer.start (Yaml.normalized (before.chars ++ (w.text ++ rest)))).Stuck := by
  cases w with
  | string | word => exact Bool.noConfusion h
  | array space items =>
      have hflat' := Written.flat_items hflat
      rw [text_array]
      obtain ⟨s₁, hfirst, hfacing, -, -⟩ := Lexer.steps_first before.spacing hbefore .sequence
        (space.chars ++ (items.text true ++ ']' :: rest))
      exact (items.stuck hpair true hflat' space.spacing hfacing).of_steps hfirst
  | object space members =>
      have hflat' := Written.flat_members hflat
      rw [text_object]
      obtain ⟨s₁, hfirst, hfacing, -, hallowed⟩ := Lexer.steps_first before.spacing hbefore .mapping
        (space.chars ++ (members.text true ++ '\x7d' :: rest))
      exact (members.stuck hpair true hflat' space.spacing hfacing fun _ => hallowed).of_steps hfirst

end Collections

namespace JsonText

/-- What stands on the lines below the last bracket. -/
def below (t : JsonText) : List Char := t.behind.chars.dropWhile fun c => c == ' ' || c == '\t'

/-- Whether a text is a stream of tokens. -/
def isStream (t : JsonText) : Bool :=
  t.text.all isReadable && !t.value.hasPair && !t.before.chars.contains '\t' && !t.below.contains '\t'

section Streams

variable {t : JsonText}

/-- The white space behind the last bracket is that on its line and that on those below. -/
theorem exists_line (t : JsonText) : ∃ line : List Char, t.behind.chars = line ++ t.below ∧
    (∀ c ∈ line, c = ' ' ∨ c = '\t') ∧ Spacing t.below ∧
      ∀ c cs, t.below = c :: cs → c ≠ ' ' ∧ c ≠ '\t' := by
  refine ⟨t.behind.chars.takeWhile fun c => c == ' ' || c == '\t', ?_, fun c hc => ?_, fun c hc => ?_,
    fun c cs hcs => ?_⟩
  · exact List.takeWhile_append_dropWhile.symm
  · have hblank := List.all_eq_true.mp List.all_takeWhile c hc
    simpa using hblank
  · exact t.behind.spacing c ((List.dropWhile_sublist _).subset hc)
  · have hfirst := List.head?_dropWhile_not (fun c => c == ' ' || c == '\t') t.behind.chars
    rw [show t.behind.chars.dropWhile (fun c => c == ' ' || c == '\t') = c :: cs from hcs] at hfirst
    simpa using hfirst

/-- A tab in front of the first bracket. -/
theorem stuck_of_before (htab : '\t' ∈ t.before.chars) :
    (Lexer.start (Yaml.normalized t.text)).Stuck := by
  obtain ⟨front, more, hsplit, hfront⟩ := List.eq_append_cons_of_mem htab
  have hspacing : Spacing front := fun c hc => t.before.spacing c (by rw [hsplit]; simp [hc])
  have htext : t.text = front ++ '\t' :: (more ++ (t.value.text ++ t.behind.chars)) := by
    rw [JsonText.text, hsplit]
    simp
  rw [htext]
  exact Lexer.stuck_first hspacing hfront _

section Collections

variable (h : t.value.isCollection = true) (hflat : ∀ c ∈ t.text, Flat c)
  (hbefore : '\t' ∉ t.before.chars)

include h hflat hbefore

/-- A pair in a string. -/
theorem stuck_of_pair (hpair : t.value.hasPair = true) :
    (Lexer.start (Yaml.normalized t.text)).Stuck :=
  Written.stuck_start h (fun c hc => hflat c (by simp [JsonText.text, hc])) hbefore _ hpair

variable (hsingle : t.value.hasPair = false)

include hsingle

theorem steps_last : ∃ s : Lexer, (Lexer.start (Yaml.normalized t.text)).Steps s ∧ s.Inside 0 ∧
    s.tokens = t.value.tokens.reverse ∧ s.keyAllowed = false ∧
      s.rest = Yaml.normalized t.behind.chars :=
  Written.steps_last h (fun c hc => hflat c (by simp [JsonText.text, hc])) hbefore _ hsingle

/-- A tab on a line below the last bracket. -/
theorem stuck_of_below (htab : '\t' ∈ t.below) : (Lexer.start (Yaml.normalized t.text)).Stuck := by
  obtain ⟨s, hsteps, hinside, -, hallowed, hrest⟩ := steps_last h hflat hbefore hsingle
  obtain ⟨line, hbehind, hline, hspacing, hfirst⟩ := t.exists_line
  obtain ⟨front, more, hsplit, hfront⟩ := List.eq_append_cons_of_mem htab
  have hspacing' : Spacing front := fun c hc => hspacing c (by rw [hsplit]; simp [hc])
  have hbreak : ∃ c ∈ front, c ≠ ' ' ∧ c ≠ '\t' := by
    cases front with
    | nil => exact absurd rfl (hfirst '\t' more hsplit).2
    | cons c cs => exact ⟨c, List.mem_cons_self, hfirst c _ hsplit⟩
  rw [hbehind, hsplit] at hrest
  exact (hinside.stuck_last hallowed hline hspacing' hfront hbreak hrest).of_steps hsteps

/-- **A collection and its end.** -/
theorem run_eq (htab : '\t' ∉ t.below) :
    (Lexer.run t.text.length (.start (Yaml.normalized t.text))).map (fun s => s.tokens.reverse) =
      some (t.value.tokens ++ [.streamEnd]) := by
  obtain ⟨s, hsteps, hinside, htokens, hallowed, hrest⟩ := steps_last h hflat hbefore hsingle
  obtain ⟨line, hbehind, hline, hspacing, -⟩ := t.exists_line
  rw [hbehind] at hrest
  obtain ⟨last, u, hend, hfresh, hfinish, hlast⟩ :=
    hinside.finish_last hallowed hline hspacing htab hrest
  rw [hsteps.run_eq hend hfresh (Yaml.length_normalized_le _), hfinish, Option.map_some, hlast, htokens]
  simp

end Collections

/-- **The tokens of a JSON text.** -/
theorem tokens?_eq (h : t.value.isCollection = true) (hflat : ∀ c ∈ t.text, Flat c) :
    Yaml.tokens? (String.ofList t.text) =
      if t.isStream then some (t.value.tokens ++ [.streamEnd]) else none := by
  -- a text at which the lexer is stuck has no tokens
  have hstuck : (Lexer.start (Yaml.normalized t.text)).Stuck → t.isStream = false →
      (Lexer.run t.text.length (.start (Yaml.normalized t.text))).map (fun s => s.tokens.reverse) =
        if t.isStream then some (t.value.tokens ++ [.streamEnd]) else none := by
    intro hstuck hstream
    rw [hstuck.run_eq (Yaml.length_normalized_le t.text), hstream]
    rfl
  rw [Yaml.tokens?, String.toList_ofList]
  cases hreadable : t.text.all isReadable with
  | false => rw [if_neg (by decide), isStream, hreadable, if_neg (by simp)]
  | true =>
      rw [if_pos rfl]
      by_cases hbefore : '\t' ∈ t.before.chars
      · exact hstuck (stuck_of_before hbefore) (by simp [isStream, hbefore])
      cases hpair : t.value.hasPair with
      | true => exact hstuck (stuck_of_pair h hflat hbefore hpair) (by simp [isStream, hpair])
      | false =>
          by_cases hbelow : '\t' ∈ t.below
          · exact hstuck (stuck_of_below h hflat hbefore hpair hbelow) (by simp [isStream, hbelow])
          · have hstream : t.isStream = true := by
              simp [isStream, hreadable, hpair, hbefore, hbelow]
            rw [run_eq h hflat hbefore hpair hbelow, if_pos hstream]

end Streams

end JsonText

end BomAssembly.Json
