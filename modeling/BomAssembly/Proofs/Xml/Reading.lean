import BomAssembly.Proofs.Xml.Layout
import BomAssembly.Xml.Reader

/-!
# Reading what was written

A reader that stands in front of a written piece comes out behind it with the node of the piece in its
hands, whatever follows (`Leads`). It is so for each tag; a text is read up to the tag behind it, so a
line is read together with its element. From there it goes by the structure of the pieces, up to the
element that is the whole document (`readDocument_of_layered`).
-/

namespace BomAssembly.Xml

/-! ## The way of a reader -/

/-- How reading goes on from where it stands; after the first element it is over. -/
def goOn (fuel : Nat) (rest : List Char) : Progress → Option Node
  | .reading stack => readFrom fuel stack rest
  | .done root => some root

/-- Behind the text a reader stands at the given place, whatever follows. Each step of its way takes a
character of the text at least. -/
def Leads (text : List Char) (stack : List Open) (p : Progress) : Prop :=
  ∃ steps ≤ text.length, ∀ fuel rest,
    readFrom (fuel + steps) stack (text ++ rest) = goOn fuel rest p

theorem Leads.nil (stack : List Open) : Leads [] stack (.reading stack) :=
  ⟨0, Nat.le_refl 0, fun _ _ => rfl⟩

theorem Leads.trans {a b : List Char} {stack stack' : List Open} {p : Progress}
    (ha : Leads a stack (.reading stack')) (hb : Leads b stack' p) : Leads (a ++ b) stack p := by
  obtain ⟨j, hj, ha⟩ := ha
  obtain ⟨k, hk, hb⟩ := hb
  refine ⟨k + j, by rw [List.length_append]; omega, fun fuel rest => ?_⟩
  rw [← Nat.add_assoc, List.append_assoc, ha]
  exact hb fuel rest

/-- One piece of markup is one step. -/
theorem readFrom_markup {text rest : List Char} {m : Markup} {stack : List Open} {p : Progress}
    (hne : text ≠ []) (hcut : nextMarkup text = some (m, rest)) (hstep : step stack m = some p)
    (fuel : Nat) : readFrom (fuel + 1) stack text = goOn fuel rest p := by
  cases text with
  | nil => exact absurd rfl hne
  | cons c cs =>
      rw [readFrom, hcut]
      simp only [hstep]
      cases p <;> rfl

theorem leads_of_markup {tag : List Char} {m : Markup} {stack : List Open} {p : Progress}
    (hne : tag ≠ []) (hcut : ∀ rest, nextMarkup (tag ++ rest) = some (m, rest))
    (hstep : step stack m = some p) : Leads tag stack p := by
  refine ⟨1, List.length_pos_iff.mpr hne, fun fuel rest => ?_⟩
  exact readFrom_markup (List.append_ne_nil_of_left_ne_nil hne rest) (hcut rest) hstep fuel

/-! ## Texts -/

/-- A text reaches up to the next tag. -/
theorem nextMarkup_text {raw rest : List Char} (hne : raw ≠ []) (hfree : '<' ∉ raw) :
    nextMarkup (raw ++ '<' :: rest) = some (.text raw, '<' :: rest) := by
  have hall : ∀ c ∈ raw, decide (c ≠ '<') = true := by
    intro c hc
    exact decide_eq_true fun heq => hfree (heq ▸ hc)
  have htake : (raw ++ '<' :: rest).takeWhile (· ≠ '<') = raw := by
    rw [List.takeWhile_append_of_pos hall]
    simp
  have hdrop : (raw ++ '<' :: rest).dropWhile (· ≠ '<') = '<' :: rest := by
    rw [List.dropWhile_append_of_pos hall]
    simp
  cases raw with
  | nil => exact absurd rfl hne
  | cons c cs =>
      have hc : c ≠ '<' := fun heq => hfree (heq ▸ List.mem_cons_self)
      -- the other branches are marks of tags, and the text does not begin with a bracket
      unfold nextMarkup
      split
      case h_6 => rw [htake, hdrop]
      all_goals
        next heq => exact absurd (List.cons.inj heq).1 hc

/-- A text in front of a tag is one step more. -/
theorem Leads.behindText {raw text : List Char} {stack stack' : List Open} {p : Progress}
    (h : Leads ('<' :: text) stack' p) (hne : raw ≠ []) (hfree : '<' ∉ raw)
    (hstep : step stack (.text raw) = some (.reading stack')) :
    Leads (raw ++ '<' :: text) stack p := by
  obtain ⟨k, hk, h⟩ := h
  have hpos : 0 < raw.length := List.length_pos_iff.mpr hne
  refine ⟨k + 1, by rw [List.length_append]; omega, fun fuel rest => ?_⟩
  rw [← Nat.add_assoc, List.append_assoc, List.cons_append,
    readFrom_markup (List.append_ne_nil_of_left_ne_nil hne _) (nextMarkup_text hne hfree) hstep]
  exact h fuel rest

/-! ## The inside of a tag -/

/-- A text that a tag does not end in, read with no quote open and leaving none open. -/
def StaysInTag (text : List Char) : Prop :=
  ∀ rest, cutTag none (text ++ rest) = (cutTag none rest).map fun (a, b) => (text ++ a, b)

theorem staysInTag_nil : StaysInTag [] := fun rest => by simp

theorem StaysInTag.append {a b : List Char} (ha : StaysInTag a) (hb : StaysInTag b) :
    StaysInTag (a ++ b) := by
  intro rest
  rw [List.append_assoc, ha, hb, Option.map_map]
  simp [Function.comp_def]

theorem staysInTag_of_free {text : List Char} (hclose : '>' ∉ text) (hdouble : '"' ∉ text)
    (hsingle : '\'' ∉ text) : StaysInTag text := by
  intro rest
  induction text with
  | nil => simp
  | cons c cs ih =>
      rw [List.mem_cons, not_or] at hclose hdouble hsingle
      rw [List.cons_append, cutTag]
      simp [Ne.symm hclose.1, Ne.symm hdouble.1, Ne.symm hsingle.1,
        ih hclose.2 hdouble.2 hsingle.2, Function.comp_def]

/-- In quotes everything but the quote stays in the tag. -/
theorem cutTag_quoted {value : List Char} (hfree : '"' ∉ value) (rest : List Char) :
    cutTag (some '"') (value ++ '"' :: rest) =
      (cutTag none rest).map fun (a, b) => (value ++ '"' :: a, b) := by
  induction value with
  | nil => simp [cutTag]
  | cons c cs ih =>
      rw [List.mem_cons, not_or] at hfree
      rw [List.cons_append, cutTag]
      simp [Ne.symm hfree.1, ih hfree.2, Function.comp_def]

theorem staysInTag_quoted {value : List Char} (hfree : '"' ∉ value) :
    StaysInTag ('"' :: value ++ ['"']) := by
  intro rest
  rw [List.append_assoc, List.cons_append, List.singleton_append, cutTag]
  simp [cutTag_quoted hfree, Function.comp_def]

theorem StaysInTag.cutTag {text : List Char} (h : StaysInTag text) (rest : List Char) :
    cutTag none (text ++ '>' :: rest) = some (text, rest) := by
  rw [h, Xml.cutTag]
  simp

theorem IsTagName.staysInTag {name : List Char} (h : IsTagName name) : StaysInTag name :=
  staysInTag_of_free (h.free (by decide)) (h.free (by decide)) (h.free (by decide))

/-- No quote is left in the value of a written attribute. -/
theorem quote_not_mem_escapeAttribute (value : String) : '"' ∉ escapeAttribute value := by
  intro hmem
  obtain ⟨c, -, hc⟩ := List.mem_flatMap.mp hmem
  by_cases hq : c = '"'
  · rw [if_pos hq] at hc
    exact absurd hc (by decide)
  · rw [if_neg hq] at hc
    rcases mem_escapeChar hc with heq | href
    · exact hq heq.1.symm
    · exact absurd href (by decide)

/-- The attributes of a tag: nothing, or something between a space and a quote, and no tag ends in
them. -/
structure InTag (attributes : List Char) : Prop where
  stays : StaysInTag attributes
  apart : attributes = [] ∨ ∃ inside, attributes = ' ' :: inside ++ ['"']

theorem InTag.begins {attributes : List Char} (h : InTag attributes) :
    attributes = [] ∨ ∃ more, attributes = ' ' :: more := by
  rcases h.apart with hnone | ⟨inside, hsome⟩
  · exact .inl hnone
  · exact .inr ⟨inside ++ ['"'], hsome⟩

theorem Layered.inTag_attributesOf {ps : List Piece} (h : Layered ps) : InTag (attributesOf ps) := by
  induction h with
  | nil => exact ⟨staysInTag_nil, .inl rfl⟩
  | @inTag name value rest hname _ ih =>
      have hquoted := staysInTag_quoted (quote_not_mem_escapeAttribute value)
      have hspace : StaysInTag [' '] := staysInTag_of_free (by decide) (by decide) (by decide)
      have hequals : StaysInTag ['='] := staysInTag_of_free (by decide) (by decide) (by decide)
      have heq : attributesOf (.attribute name value :: rest) =
          [' '] ++ (name.toList ++ (['='] ++
            (('"' :: escapeAttribute value ++ ['"']) ++ attributesOf rest))) := by
        simp [attributesOf]
      refine ⟨heq ▸ hspace.append (hname.staysInTag.append
        (hequals.append (hquoted.append ih.stays))), .inr ?_⟩
      rcases ih.apart with hrest | ⟨inside, hrest⟩
      · exact ⟨name.toList ++ ['=', '"'] ++ escapeAttribute value, by simp [attributesOf, hrest]⟩
      · exact ⟨name.toList ++ ['=', '"'] ++ escapeAttribute value ++ ['"', ' '] ++ inside,
          by simp [attributesOf, hrest]⟩
  | leaf _ _ ih => exact ih
  | branch _ _ _ _ ih => exact ih

/-! ## Tags -/

section Tags

variable {name attributes : List Char} (hname : IsTagName name) (hattributes : InTag attributes)
include hname

theorem takeWhile_name (rest : List Char) (hrest : rest = [] ∨ ∃ more, rest = ' ' :: more) :
    (name ++ rest).takeWhile (fun c => !isSpace c) = name ∧
      (name ++ rest).dropWhile (fun c => !isSpace c) = rest := by
  have hall : ∀ c ∈ name, (!isSpace c) = true := by
    intro c hc
    rw [hname.not_isSpace c hc]
    rfl
  rw [List.takeWhile_append_of_pos hall, List.dropWhile_append_of_pos hall]
  have hspace : isSpace ' ' = true := rfl
  rcases hrest with rfl | ⟨more, rfl⟩
  · simp
  · simp [hspace]

/-- What stands behind the angle bracket of a start tag is no mark of another markup. -/
theorem nextMarkup_start (rest : List Char) :
    nextMarkup ('<' :: name ++ rest) =
      (cutTag none (name ++ rest)).map fun (inside, rest) => (startTag inside, rest) := by
  obtain ⟨c, cs, rfl, hstarts⟩ := hname.exists_cons
  have hno : ∀ mark, startsName mark = false → c ≠ mark := by
    intro mark hmark heq
    rw [← heq, hstarts] at hmark
    exact Bool.noConfusion hmark
  have hbang : c ≠ '!' := hno '!' (by decide)
  have hquestion : c ≠ '?' := hno '?' (by decide)
  have hslash : c ≠ '/' := hno '/' (by decide)
  simp [nextMarkup, hbang, hquestion, hslash]

include hattributes

theorem startTag_open : startTag (name ++ attributes) = .start name attributes false := by
  have hsplit := takeWhile_name hname attributes hattributes.begins
  -- a slash at the end would close the element: a name has none, and attributes end in a quote
  have hlast : (name ++ attributes).getLast? ≠ some '/' := by
    rcases hattributes.apart with rfl | ⟨inside, rfl⟩
    · rw [List.append_nil]
      exact fun h => hname.free (by decide) (List.mem_of_getLast? h)
    · rw [← List.append_assoc, List.getLast?_append]
      simp
  rw [startTag]
  simp only [hsplit.1, hsplit.2]

theorem startTag_closed : startTag (name ++ attributes ++ ['/']) = .start name attributes true := by
  have hsplit := takeWhile_name hname attributes hattributes.begins
  rw [startTag, List.getLast?_concat]
  simp only [List.dropLast_concat, hsplit.1, hsplit.2]

/-- A start tag opens its element. -/
theorem leads_open (stack : List Open) :
    Leads ('<' :: name ++ attributes ++ ['>']) stack
      (.reading (⟨name, attributes, []⟩ :: stack)) := by
  refine leads_of_markup (m := .start name attributes false) (by simp) (fun rest => ?_) rfl
  have hcut := (hname.staysInTag.append hattributes.stays).cutTag rest
  have hinside : name ++ (attributes ++ '>' :: rest) = name ++ attributes ++ '>' :: rest := by simp
  have htag : '<' :: name ++ attributes ++ ['>'] ++ rest =
      '<' :: name ++ (attributes ++ '>' :: rest) := by simp
  rw [htag, nextMarkup_start hname, hinside, hcut, Option.map_some]
  simp only [startTag_open hname hattributes]

/-- The tag of an element that is closed at once. -/
theorem leads_closed (stack : List Open) :
    Leads ('<' :: name ++ attributes ++ ['/', '>']) stack
      (hand (.element name attributes []) stack) := by
  refine leads_of_markup (m := .start name attributes true) (by simp) (fun rest => ?_) rfl
  have hslash : StaysInTag ['/'] := staysInTag_of_free (by decide) (by decide) (by decide)
  have hcut := ((hname.staysInTag.append hattributes.stays).append hslash).cutTag rest
  have hinside : name ++ (attributes ++ ['/'] ++ '>' :: rest) =
      name ++ attributes ++ ['/'] ++ '>' :: rest := by simp
  have htag : '<' :: name ++ attributes ++ ['/', '>'] ++ rest =
      '<' :: name ++ (attributes ++ ['/'] ++ '>' :: rest) := by simp
  rw [htag, nextMarkup_start hname, hinside, hcut, Option.map_some]
  simp only [startTag_closed hname hattributes]

omit hattributes in
/-- An end tag closes the element that is open. -/
theorem leads_finish (attributes : List Char) (held : List Node) (stack : List Open) :
    Leads ('<' :: '/' :: name ++ ['>']) (⟨name, attributes, held⟩ :: stack)
      (hand (.element name attributes held.reverse) stack) := by
  refine leads_of_markup (m := .finish name) (by simp) (fun rest => ?_) ?_
  · have hcut := hname.staysInTag.cutTag rest
    have hend : dropEndSpace name = name := by
      obtain ⟨c, cs, hrev⟩ := List.exists_cons_of_ne_nil (List.reverse_ne_nil_iff.mpr hname.1)
      have hc : isSpace c = false :=
        hname.not_isSpace c (List.mem_reverse.mp (hrev ▸ List.mem_cons_self))
      rw [dropEndSpace, hrev, List.dropWhile_cons_of_neg (by simp [hc]), ← hrev,
        List.reverse_reverse]
    simp [nextMarkup, hcut, hend]
  · simp [step, Open.close]

end Tags

/-! ## Elements -/

/-- What an element that holds a text is read with. -/
def textNodes (value : String) : List Node :=
  if escapeText value = [] then [] else [.text (escapeText value)]

/-- What stands between two tags, with the line of the second one. -/
def enclosed (depth : Nat) (nodes : List Node) : List Node :=
  if nodes = [] then [] else nodes ++ [.text (newLine depth)]

/-- The elements among pieces as they are read, each behind the start of its line. -/
def nodesOf (depth : Nat) : List Piece → List Node
  | [] => []
  | .leaf name value :: rest =>
    .text (newLine depth) :: .element name.toList [] (textNodes value) :: nodesOf depth rest
  | .branch name pieces :: rest =>
    .text (newLine depth) ::
      .element name.toList (attributesOf pieces) (enclosed depth (nodesOf (depth + 1) pieces)) ::
        nodesOf depth rest
  | _ :: rest => nodesOf depth rest

/-- An open element that holds some nodes more. -/
def Open.holding (o : Open) (nodes : List Node) : Open := { o with held := nodes.reverse ++ o.held }

@[simp] theorem Open.holding_nil (o : Open) : o.holding [] = o := rfl

@[simp] theorem Open.holding_holding (o : Open) (ns ms : List Node) :
    (o.holding ns).holding ms = o.holding (ns ++ ms) := by
  simp [Open.holding]

theorem newLine_ne_nil (depth : Nat) : newLine depth ≠ [] := List.cons_ne_nil _ _

theorem bracket_not_mem_newLine (depth : Nat) : '<' ∉ newLine depth := by
  simp [newLine]

/-- A text inside of an element is held by it. -/
theorem Leads.behindInnerText {raw text : List Char} {o : Open} {stack : List Open} {p : Progress}
    (h : Leads ('<' :: text) (o.holding [.text raw] :: stack) p) (hne : raw ≠ [])
    (hfree : '<' ∉ raw) : Leads (raw ++ '<' :: text) (o :: stack) p :=
  h.behindText hne hfree rfl

/-- An element with a text is read as it was written. -/
theorem leads_leaf {name : String} (hname : IsTagName name.toList) (value : String) (depth : Nat)
    (stack : List Open) :
    Leads (wrap name depth ⟨[], escapeText value, false⟩) stack
      (hand (.element name.toList [] (textNodes value)) stack) := by
  have hnone : InTag [] := ⟨staysInTag_nil, .inl rfl⟩
  by_cases hempty : escapeText value = []
  · have h := leads_closed hname hnone stack
    simpa [wrap, textNodes, hempty] using h
  · have hopen := leads_open hname hnone stack
    have hfinish := leads_finish hname [] [.text (escapeText value)] stack
    have htext := Leads.behindInnerText (o := ⟨name.toList, [], []⟩) hfinish hempty
      (bracket_not_mem_escapeText value)
    have h := hopen.trans htext
    simpa [wrap, textNodes, hempty] using h

theorem wrap_eq_cons (name : String) (depth : Nat) (w : Written) :
    ∃ text, wrap name depth w = '<' :: text := by
  rw [wrap]
  split
  · exact ⟨_, rfl⟩
  · exact ⟨_, rfl⟩

/-- An element on a line of its own is held behind the start of the line. -/
theorem leads_line {name : String} {w : Written} {node : Node} {depth : Nat}
    (h : ∀ stack, Leads (wrap name depth w) stack (hand node stack)) (o : Open)
    (stack : List Open) :
    Leads (newLine depth ++ wrap name depth w) (o :: stack)
      (.reading (o.holding [.text (newLine depth), node] :: stack)) := by
  obtain ⟨text, htext⟩ := wrap_eq_cons name depth w
  have helement := h (o.holding [.text (newLine depth)] :: stack)
  rw [htext] at helement ⊢
  exact helement.behindInnerText (newLine_ne_nil depth) (bracket_not_mem_newLine depth)

/-- Lines are written exactly where nodes are read. -/
theorem linesOf_eq_nil_iff {ps : List Piece} (h : Layered ps) (depth : Nat) :
    linesOf depth ps = [] ↔ nodesOf depth ps = [] := by
  induction h with
  | nil => simp [linesOf, nodesOf]
  | inTag _ _ ih => simpa [linesOf, nodesOf] using ih
  | leaf => simp [linesOf, nodesOf, newLine_ne_nil]
  | branch => simp [linesOf, nodesOf, newLine_ne_nil]

/-- An element around lines, given that these are read as they were written. -/
theorem leads_wrap {name : String} (hname : IsTagName name.toList) {ps : List Piece}
    (hps : Layered ps) {depth : Nat}
    (hlines : ∀ o stack, Leads (linesOf (depth + 1) ps) (o :: stack)
      (.reading (o.holding (nodesOf (depth + 1) ps) :: stack))) (stack : List Open) :
    Leads (wrap name depth ⟨attributesOf ps, linesOf (depth + 1) ps, true⟩) stack
      (hand (.element name.toList (attributesOf ps) (enclosed depth (nodesOf (depth + 1) ps)))
        stack) := by
  -- an element without lines is written as one tag
  by_cases hempty : linesOf (depth + 1) ps = []
  · have hnodes := (linesOf_eq_nil_iff hps (depth + 1)).mp hempty
    have h := leads_closed hname hps.inTag_attributesOf stack
    simpa [wrap, enclosed, hempty, hnodes] using h
  · have hnodes := mt (linesOf_eq_nil_iff hps (depth + 1)).mpr hempty
    let inner : Open := ⟨name.toList, attributesOf ps, []⟩
    have hopen := leads_open hname hps.inTag_attributesOf stack
    have hinside := hlines inner stack
    have hfinish := leads_finish hname (attributesOf ps)
      ((inner.holding (nodesOf (depth + 1) ps)).holding [.text (newLine depth)]).held stack
    have hend := Leads.behindInnerText (o := inner.holding (nodesOf (depth + 1) ps)) hfinish
      (newLine_ne_nil depth) (bracket_not_mem_newLine depth)
    have h := hopen.trans (hinside.trans hend)
    simpa [wrap, enclosed, hempty, hnodes, inner, Open.holding] using h

/-- **Pieces in lines are read as they were written**, inside of any element. -/
theorem leads_lines {ps : List Piece} (h : Layered ps) :
    ∀ (depth : Nat) (o : Open) (stack : List Open),
      Leads (linesOf depth ps) (o :: stack) (.reading (o.holding (nodesOf depth ps) :: stack)) := by
  induction h with
  | nil =>
      intro depth o stack
      simpa [linesOf, nodesOf] using Leads.nil (o :: stack)
  | inTag _ _ ih =>
      intro depth o stack
      simpa [linesOf, nodesOf] using ih depth o stack
  | @leaf name value rest hname _ ih =>
      intro depth o stack
      have hline := leads_line (leads_leaf hname value depth) o stack
      have hrest := ih depth
        (o.holding [.text (newLine depth), .element name.toList [] (textNodes value)]) stack
      simpa [linesOf, nodesOf] using hline.trans hrest
  | @branch name pieces rest hname hpieces _ ihPieces ih =>
      intro depth o stack
      have hline := leads_line (leads_wrap hname hpieces (ihPieces (depth + 1))) o stack
      have hrest := ih depth (o.holding [.text (newLine depth), .element name.toList
        (attributesOf pieces) (enclosed depth (nodesOf (depth + 1) pieces))]) stack
      simpa [linesOf, nodesOf] using hline.trans hrest

/-! ## Documents -/

/-- The declaration in front of a document is read over. -/
theorem leads_declaration :
    Leads "<?xml version=\"1.0\" encoding=\"UTF-8\"?>".toList [] (.reading []) :=
  leads_of_markup (m := .aside) (by decide) (fun _ => rfl) rfl

/-- A document that begins with a tag begins with no byte order mark. -/
theorem readDocument_of_tag {text : String} {more : List Char} (h : text.toList = '<' :: more) :
    readDocument text = readFrom (text.toList.length + 1) [] text.toList := by
  have hmark : ¬ ('<'.toNat = 0xFEFF) := by decide
  simp only [readDocument, h, if_neg hmark]

/-- **A document is read as the element that was written.** -/
theorem readDocument_of_layered {name text : String} {ps : List Piece}
    (hname : IsTagName name.toList) (hps : Layered ps)
    (hwritten : writeDocument name ps = some text) :
    readDocument text =
      some (.element name.toList (attributesOf ps) (enclosed 0 (nodesOf 1 ps))) := by
  rw [writeDocument, writeElement_of_layered hname hps] at hwritten
  have helement := leads_wrap hname hps (leads_lines hps (0 + 1)) []
  obtain ⟨element, htag⟩ := wrap_eq_cons name 0 ⟨attributesOf ps, linesOf 1 ps, true⟩
  rw [htag] at hwritten helement
  -- the line break between the declaration and the element is read in front of any element
  have hbehind : Leads (['\n'] ++ '<' :: element) [] _ :=
    helement.behindText (by decide) (by decide) rfl
  obtain ⟨steps, hsteps, hread⟩ := leads_declaration.trans hbehind
  have htext : text.toList = "<?xml version=\"1.0\" encoding=\"UTF-8\"?>".toList ++
      (['\n'] ++ '<' :: element) ++ ['\n'] := by
    have hline : "<?xml version=\"1.0\" encoding=\"UTF-8\"?>\n".toList =
        "<?xml version=\"1.0\" encoding=\"UTF-8\"?>".toList ++ ['\n'] := by decide
    rw [← Option.some.inj hwritten, String.toList_ofList, hline]
    simp only [List.append_assoc]
  obtain ⟨more, hmore⟩ : ∃ more, text.toList = '<' :: more := ⟨_, htext⟩
  have hfuel : text.toList.length + 1 = text.toList.length + 1 - steps + steps := by
    rw [htext, List.length_append]
    omega
  rw [readDocument_of_tag hmore, hfuel, htext]
  exact hread _ ['\n']

end BomAssembly.Xml
