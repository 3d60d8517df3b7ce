import BomAssembly.Proofs.Json.Extent
import BomAssembly.Proofs.Json.Layout

/-!
# Values are read back from their texts

The text of a value in any layout is read as the value, if the value fits: for each kind of value by
what the reader does at its first character, and for a container by the same of all that is in it. The
reader's fuel is counted in characters, of which every step uses one at least.
-/

namespace BomAssembly.Json

/-! ## White space -/

section Space

variable {space : List Char} (hspace : ∀ c ∈ space, isSpace c = true) (cs : List Char)

theorem skipSpace_cons {c : Char} (h : isSpace c = false) : skipSpace (c :: cs) = c :: cs :=
  List.dropWhile_cons_of_neg (by simp [h])

include hspace

theorem skipSpace_append : skipSpace (space ++ cs) = skipSpace cs :=
  List.dropWhile_append_of_pos hspace

variable (n d : Nat) (shape : Shape)

theorem takeValue_space : takeValue n d shape (space ++ cs) = takeValue n d shape cs := by
  cases n with
  | zero => rw [takeValue, takeValue]
  | succ n => rw [takeValue, takeValue, skipSpace_append hspace]

theorem takeItems_space : takeItems n d shape (space ++ cs) = takeItems n d shape cs := by
  cases n with
  | zero => rw [takeItems, takeItems]
  | succ n => rw [takeItems, takeItems, takeValue_space hspace]

theorem takeMembers_space : takeMembers n d shape (space ++ cs) = takeMembers n d shape cs := by
  cases n with
  | zero => rw [takeMembers, takeMembers]
  | succ n => rw [takeMembers, takeMembers, skipSpace_append hspace]

end Space

/-! ## What comes behind a value -/

theorem endsNumber_of_isSpace {c : Char} (h : isSpace c = true) (cs : List Char) :
    EndsNumber (c :: cs) := by
  intro x hx
  obtain rfl := Option.some.inj hx
  simp only [isSpace, Bool.or_eq_true, beq_iff_eq] at h
  rcases h with ((rfl | rfl) | rfl) | rfl <;> decide

theorem endsNumber_append {space cs : List Char} (hspace : ∀ c ∈ space, isSpace c = true)
    (h : EndsNumber cs) : EndsNumber (space ++ cs) := by
  cases space with
  | nil => exact h
  | cons c space => exact endsNumber_of_isSpace (hspace c List.mem_cons_self) _

/-- A character that a number cannot go on with. -/
theorem endsNumber_cons {c : Char} (h : c = ',' ∨ c = ']' ∨ c = '\x7d') (cs : List Char) :
    EndsNumber (c :: cs) := by
  intro x hx
  obtain rfl := Option.some.inj hx
  rcases h with rfl | rfl | rfl <;> decide

section Tails

variable {l : Layout} (hl : l.Blank) (depth : Nat) (rest : List Char)

include hl

theorem endsNumber_items (vs : List Json) : EndsNumber (spelledItems l depth vs ++ rest) := by
  cases vs with
  | nil =>
      rw [spelledItems, List.append_assoc]
      exact endsNumber_append (hl.behind depth) (endsNumber_cons (.inr (.inl rfl)) rest)
  | cons v vs =>
      rw [spelledItems]
      exact endsNumber_cons (.inl rfl) _

theorem endsNumber_members (fs : List (String × Json)) :
    EndsNumber (spelledMembers l depth fs ++ rest) := by
  cases fs with
  | nil =>
      rw [spelledMembers, List.append_assoc]
      exact endsNumber_append (hl.behind depth) (endsNumber_cons (.inr (.inr rfl)) rest)
  | cons f fs =>
      rw [spelledMembers]
      exact endsNumber_cons (.inl rfl) _

end Tails

/-! ## One kind of value after the other -/

section Kinds

variable {l : Layout}

/-- What a value begins with is neither white space nor the end of an array. -/
theorem exists_spelled_eq_cons {v : Json} {d : Nat} (hv : v.Fits d) (depth : Nat) :
    ∃ c cs, spelled l depth v = c :: cs ∧ isSpace c = false ∧ c ≠ ']' := by
  match v with
  | .null => exact ⟨_, _, rfl, by decide⟩
  | .bool true => exact ⟨_, _, rfl, by decide⟩
  | .bool false => exact ⟨_, _, rfl, by decide⟩
  | .str _ => exact ⟨_, _, rfl, by decide⟩
  | .arr [] => exact ⟨_, _, rfl, by decide⟩
  | .arr (_ :: _) => exact ⟨_, _, rfl, by decide⟩
  | .obj [] => exact ⟨_, _, rfl, by decide⟩
  | .obj (_ :: _) => exact ⟨_, _, rfl, by decide⟩
  | .num n =>
      have hn : n.Whole := hv.numbers n (by simp [numbers])
      obtain ⟨c, cs, htext, hc⟩ := hn.readsBack.starts
      refine ⟨c, cs, htext, ?_, ?_⟩
      · rcases hc with hdigit | rfl
        · rw [Bool.eq_false_iff]
          intro hspace
          exact Bool.noConfusion ((endsNumber_of_isSpace hspace cs c rfl).1.symm.trans hdigit)
        · decide
      · rintro rfl
        revert hc
        decide

/-- The text of a value is read as the value, whatever comes behind that no number goes on with. -/
def ReadsBack (l : Layout) (v : Json) : Prop :=
  ∀ {depth n d : Nat} {rest : List Char}, v.Fits d → (spelled l depth v).length ≤ n + 1 →
    EndsNumber rest → takeValue (n + 1) d .any (spelled l depth v ++ rest) = some (v, rest)

theorem dropWord_append (word cs : List Char) : dropWord word (word ++ cs) = some cs := by
  rw [dropWord, if_pos (by simp), List.drop_left]

theorem readsBack_null : ReadsBack l .null := by
  intro depth n d rest _ _ _
  rw [takeValue]
  show (dropWord "ull".toList ("ull".toList ++ rest)).map _ = _
  rw [dropWord_append]
  rfl

theorem readsBack_bool (b : Bool) : ReadsBack l (.bool b) := by
  intro depth n d rest _ _ _
  rw [takeValue]
  cases b with
  | true =>
      show (dropWord "rue".toList ("rue".toList ++ rest)).map _ = _
      rw [dropWord_append]
      rfl
  | false =>
      show (dropWord "alse".toList ("alse".toList ++ rest)).map _ = _
      rw [dropWord_append]
      rfl

/-- A string between quotes is read by what stands behind the first of them. -/
theorem writeString_append (s : String) (rest : List Char) :
    writeString s ++ rest = '"' :: (s.toList.flatMap writeChar ++ '"' :: rest) := by
  simp [writeString]

theorem readsBack_str (s : String) : ReadsBack l (.str s) := by
  intro depth n d rest _ _ _
  rw [spelled, writeString_append, takeValue]
  show (stringBody (s.toList.flatMap writeChar ++ '"' :: rest)).map _ = _
  rw [stringBody_flatMap]
  show some (Json.str (String.ofList s.toList), rest) = _
  rw [String.ofList_toList]

theorem readsBack_num (n : JsonNumber) : ReadsBack l (.num n) := by
  intro depth fuel d rest hv _ hrest
  have hn : n.Whole := hv.numbers n (by simp [numbers])
  obtain ⟨c, cs, htext, hc⟩ := hn.readsBack.starts
  obtain ⟨t, ht, hvalue⟩ := hn.readsBack.reads rest hrest
  have hskip : skipSpace (writeNumber n ++ rest) = writeNumber n ++ rest := by
    obtain ⟨c, cs, htext, hspace, -⟩ := exists_spelled_eq_cons (l := l) hv depth
    rw [show writeNumber n = c :: cs from htext]
    exact skipSpace_cons _ hspace
  -- a digit or a sign is no other value's first character
  have hne : ∀ x more, x.isDigit = false → x ≠ '-' → writeNumber n ++ rest ≠ x :: more := by
    intro x more hdigit hsign heq
    rw [htext] at heq
    obtain rfl := (List.cons.inj heq).1
    exact hc.elim (fun h => Bool.noConfusion (hdigit.symm.trans h)) hsign
  rw [spelled, takeValue, hskip]
  split
  case h_7 =>
    rw [ht]
    dsimp only
    rw [hvalue]
    rfl
  all_goals
    next heq => exact absurd heq (hne _ _ (by decide) (by decide))

/-! ## Arrays -/

theorem items_any : Shape.any.items = (.any, .any) := rfl

theorem length_spelled_pos {v : Json} {d : Nat} (hv : v.Fits d) (depth : Nat) :
    0 < (spelled l depth v).length := by
  obtain ⟨c, cs, heq, -⟩ := exists_spelled_eq_cons (l := l) hv depth
  rw [heq]
  exact Nat.zero_lt_succ _

theorem length_spelledItems_pos (depth : Nat) (vs : List Json) :
    0 < (spelledItems l depth vs).length := by
  cases vs <;> simp [spelledItems]

theorem takeItems_spelled (hl : l.Blank) {depth d : Nat} {v : Json} {vs : List Json}
    (hread : ∀ w ∈ v :: vs, ReadsBack l w) (hfits : ∀ w ∈ v :: vs, w.Fits d)
    {n : Nat} {rest : List Char}
    (hn : (spelled l (depth + 1) v).length + (spelledItems l depth vs).length ≤ n) :
    takeItems n d .any (spelled l (depth + 1) v ++ (spelledItems l depth vs ++ rest)) =
      some (v :: vs, rest) := by
  induction vs generalizing v n with
  | nil =>
      have hv := hfits v List.mem_cons_self
      have hpos := length_spelled_pos (l := l) hv (depth + 1)
      have hpos' := length_spelledItems_pos (l := l) depth []
      obtain ⟨n, rfl⟩ : ∃ k, n = k + 2 := ⟨n - 2, by omega⟩
      have hlength : (spelled l (depth + 1) v).length ≤ n + 1 := by omega
      have hvalue := hread v List.mem_cons_self hv hlength (endsNumber_items hl depth rest [])
      rw [takeItems, items_any, hvalue]
      dsimp only
      rw [spelledItems, List.append_assoc, skipSpace_append (hl.behind depth)]
      rfl
  | cons w ws ih =>
      have hv := hfits v List.mem_cons_self
      have hpos := length_spelled_pos (l := l) hv (depth + 1)
      have hpos' := length_spelledItems_pos (l := l) depth (w :: ws)
      obtain ⟨n, rfl⟩ : ∃ k, n = k + 2 := ⟨n - 2, by omega⟩
      have hlength : (spelled l (depth + 1) v).length ≤ n + 1 := by omega
      have hvalue := hread v List.mem_cons_self hv hlength
        (endsNumber_items hl depth rest (w :: ws))
      have hlength' : (spelled l (depth + 1) w).length + (spelledItems l depth ws).length ≤ n + 1 := by
        rw [spelledItems, List.length_cons, List.length_append, List.length_append] at hn
        omega
      have hmore := ih (fun x hx => hread x (List.mem_cons_of_mem v hx))
        (fun x hx => hfits x (List.mem_cons_of_mem v hx)) hlength'
      rw [takeItems, items_any, hvalue]
      dsimp only
      rw [spelledItems, List.cons_append, skipSpace_cons _ (by decide), List.append_assoc,
        List.append_assoc]
      show (takeItems (n + 1) d .any (l.before depth ++ (spelled l (depth + 1) w ++
        (spelledItems l depth ws ++ rest)))).map _ = _
      rw [takeItems_space (hl.before depth), hmore]
      rfl

/-- An array, with room for it. -/
theorem takeValue_arr (n d : Nat) (cs : List Char) :
    takeValue (n + 1) (d + 1) .any ('[' :: cs) =
      match skipSpace cs with
      | ']' :: rest => some (.arr [], rest)
      | rest => (takeItems n d .any rest).map fun (vs, r) => (.arr vs, r) := by
  rw [takeValue, skipSpace_cons _ (by decide)]
  rfl

theorem takeValue_bracket {n d : Nat} {cs : List Char} {c : Char} {more : List Char}
    (hskip : skipSpace cs = c :: more) (hc : c ≠ ']') :
    takeValue (n + 1) (d + 1) .any ('[' :: cs) =
      (takeItems n d .any (c :: more)).map fun (vs, r) => (.arr vs, r) := by
  rw [takeValue_arr, hskip]
  split
  · next heq => exact absurd (List.cons.inj heq).1 hc
  · rfl

theorem readsBack_arr (hl : l.Blank) {vs : List Json} (h : ∀ v ∈ vs, ReadsBack l v) :
    ReadsBack l (.arr vs) := by
  intro depth n d rest hfits hn hrest
  obtain ⟨d, rfl⟩ := hfits.pos_of_arr
  have hitems := fits_arr_iff.mp hfits
  cases vs with
  | nil =>
      rw [takeValue]
      rfl
  | cons v vs =>
      obtain ⟨c, cs, htext, hspace, hc⟩ := exists_spelled_eq_cons (l := l)
        (hitems v List.mem_cons_self) (depth + 1)
      rw [spelled, List.length_cons, List.length_append, List.length_append] at hn
      have hlength : (spelled l (depth + 1) v).length + (spelledItems l depth vs).length ≤ n := by
        omega
      have hread : takeItems n d .any (spelled l (depth + 1) v ++ (spelledItems l depth vs ++ rest)) =
        some (v :: vs, rest) := takeItems_spelled hl h hitems hlength
      have hskip : skipSpace (l.before depth ++ (spelled l (depth + 1) v ++
          (spelledItems l depth vs ++ rest))) = c :: (cs ++ (spelledItems l depth vs ++ rest)) := by
        rw [skipSpace_append (hl.before depth), htext]
        exact skipSpace_cons _ hspace
      rw [htext] at hread
      rw [spelled, List.cons_append, List.append_assoc, List.append_assoc,
        takeValue_bracket hskip hc]
      show (takeItems n d .any ((c :: cs) ++ (spelledItems l depth vs ++ rest))).map _ = _
      rw [hread]
      rfl

/-! ## Objects -/

theorem length_spelledMembers_pos (depth : Nat) (fs : List (String × Json)) :
    0 < (spelledMembers l depth fs).length := by
  cases fs <;> simp [spelledMembers]

/-- An object, with room for it. -/
theorem takeValue_obj (n d : Nat) (cs : List Char) :
    takeValue (n + 1) (d + 1) .any ('\x7b' :: cs) =
      match skipSpace cs with
      | '\x7d' :: rest => some (.obj [], rest)
      | rest => (takeMembers n d .any rest).map fun (fs, r) => (.obj fs, r) := by
  rw [takeValue, skipSpace_cons _ (by decide)]
  rfl

theorem takeValue_brace {n d : Nat} {cs : List Char} {c : Char} {more : List Char}
    (hskip : skipSpace cs = c :: more) (hc : c ≠ '\x7d') :
    takeValue (n + 1) (d + 1) .any ('\x7b' :: cs) =
      (takeMembers n d .any (c :: more)).map fun (fs, r) => (.obj fs, r) := by
  rw [takeValue_obj, hskip]
  split
  · next heq => exact absurd (List.cons.inj heq).1 hc
  · rfl

/-- The name of a field, and what comes behind it. -/
theorem takeMembers_quote (n d : Nat) (cs : List Char) :
    takeMembers (n + 1) d .any ('"' :: cs) =
      match stringBody cs with
      | none => none
      | some (name, rest) =>
        match skipSpace rest with
        | ':' :: rest =>
          match (takeValue n d .any rest).map fun (v, r) => ([(String.ofList name, v)], r) with
          | none => none
          | some (field, rest) =>
            match skipSpace rest with
            | '\x7d' :: rest => some (field, rest)
            | ',' :: rest => (takeMembers n d .any rest).map fun (fs, r) => (field ++ fs, r)
            | _ => none
        | _ => none := by
  rw [takeMembers, skipSpace_cons _ (by decide)]
  rfl

/-- The value of a field, and what comes behind it. -/
theorem takeMembers_colon {n d : Nat} {cs name rest : List Char}
    (hname : stringBody cs = some (name, ':' :: rest)) :
    takeMembers (n + 1) d .any ('"' :: cs) =
      match (takeValue n d .any rest).map fun (v, r) => ([(String.ofList name, v)], r) with
      | none => none
      | some (field, rest) =>
        match skipSpace rest with
        | '\x7d' :: rest => some (field, rest)
        | ',' :: rest => (takeMembers n d .any rest).map fun (fs, r) => (field ++ fs, r)
        | _ => none := by
  rw [takeMembers_quote, hname]
  dsimp only
  rw [skipSpace_cons _ (by decide)]
  rfl

/-- A field that was read, and what comes behind it. -/
theorem takeMembers_field {n d : Nat} {k : String} {v : Json} {cs rest : List Char}
    (hv : takeValue n d .any cs = some (v, rest)) :
    takeMembers (n + 1) d .any (writeString k ++ ':' :: cs) =
      match skipSpace rest with
      | '\x7d' :: rest => some ([(k, v)], rest)
      | ',' :: rest => (takeMembers n d .any rest).map fun (fs, r) => ((k, v) :: fs, r)
      | _ => none := by
  have hname := stringBody_flatMap k.toList (':' :: cs)
  rw [writeString_append, takeMembers_colon hname, hv, String.ofList_toList]
  rfl

theorem takeMembers_spelled (hl : l.Blank) {depth d : Nat} {k : String} {v : Json}
    {fs : List (String × Json)} (hread : ∀ f ∈ (k, v) :: fs, ReadsBack l f.2)
    (hfits : ∀ f ∈ (k, v) :: fs, f.2.Fits d) {n : Nat} {rest : List Char}
    (hn : (spelled l (depth + 1) v).length + (spelledMembers l depth fs).length ≤ n) :
    takeMembers n d .any (writeString k ++ ':' :: (l.colon ++ (spelled l (depth + 1) v ++
      (spelledMembers l depth fs ++ rest)))) = some ((k, v) :: fs, rest) := by
  induction fs generalizing k v n with
  | nil =>
      have hv : v.Fits d := hfits (k, v) List.mem_cons_self
      have hpos := length_spelled_pos (l := l) hv (depth + 1)
      have hpos' := length_spelledMembers_pos (l := l) depth []
      obtain ⟨n, rfl⟩ : ∃ k, n = k + 2 := ⟨n - 2, by omega⟩
      have hlength : (spelled l (depth + 1) v).length ≤ n + 1 := by omega
      have hvalue := hread (k, v) List.mem_cons_self hv hlength (endsNumber_members hl depth rest [])
      rw [← takeValue_space hl.colon] at hvalue
      rw [takeMembers_field hvalue, spelledMembers, List.append_assoc,
        skipSpace_append (hl.behind depth)]
      rfl
  | cons f fs ih =>
      obtain ⟨k', w⟩ := f
      have hv : v.Fits d := hfits (k, v) List.mem_cons_self
      have hpos := length_spelled_pos (l := l) hv (depth + 1)
      have hpos' := length_spelledMembers_pos (l := l) depth ((k', w) :: fs)
      obtain ⟨n, rfl⟩ : ∃ k, n = k + 2 := ⟨n - 2, by omega⟩
      have hlength : (spelled l (depth + 1) v).length ≤ n + 1 := by omega
      have hvalue := hread (k, v) List.mem_cons_self hv hlength
        (endsNumber_members hl depth rest ((k', w) :: fs))
      have hlength' : (spelled l (depth + 1) w).length + (spelledMembers l depth fs).length ≤
          n + 1 := by
        simp only [spelledMembers, List.length_cons, List.length_append] at hn
        omega
      have hmore := ih (fun x hx => hread x (List.mem_cons_of_mem (k, v) hx))
        (fun x hx => hfits x (List.mem_cons_of_mem (k, v) hx)) hlength'
      rw [← takeMembers_space (hl.before depth)] at hmore
      rw [← takeValue_space hl.colon] at hvalue
      rw [takeMembers_field hvalue, spelledMembers, List.cons_append,
        skipSpace_cons _ (by decide)]
      show (takeMembers (n + 1) d .any (l.before depth ++ writeString k' ++
        ':' :: (l.colon ++ spelled l (depth + 1) w) ++ spelledMembers l depth fs ++ rest)).map _ = _
      simp only [List.append_assoc, List.cons_append]
      rw [hmore]
      rfl

theorem readsBack_obj (hl : l.Blank) {fs : List (String × Json)} (h : ∀ f ∈ fs, ReadsBack l f.2) :
    ReadsBack l (.obj fs) := by
  intro depth n d rest hfits hn hrest
  obtain ⟨d, rfl⟩ := hfits.pos_of_obj
  have hmembers := fits_obj_iff.mp hfits
  cases fs with
  | nil =>
      rw [takeValue]
      rfl
  | cons f fs =>
      obtain ⟨k, v⟩ := f
      have hlength : (spelled l (depth + 1) v).length + (spelledMembers l depth fs).length ≤ n := by
        simp only [spelled, List.length_cons, List.length_append] at hn
        omega
      have hread : takeMembers n d .any (writeString k ++ ':' :: (l.colon ++
          (spelled l (depth + 1) v ++ (spelledMembers l depth fs ++ rest)))) =
        some ((k, v) :: fs, rest) := takeMembers_spelled hl h hmembers hlength
      have hskip : ∀ cs, skipSpace (l.before depth ++ (writeString k ++ cs)) =
          '"' :: (k.toList.flatMap writeChar ++ '"' :: cs) := by
        intro cs
        rw [skipSpace_append (hl.before depth), writeString_append]
        exact skipSpace_cons _ (by decide)
      rw [writeString_append] at hread
      simp only [spelled, List.append_assoc, List.cons_append]
      rw [takeValue_brace (hskip _) (by decide), hread]
      rfl

/-- **Every value is read back from its text.** -/
theorem readsBack (hl : l.Blank) (v : Json) : ReadsBack l v := by
  induction v using Json.induction with
  | null => exact readsBack_null
  | bool b => exact readsBack_bool b
  | num n => exact readsBack_num n
  | str s => exact readsBack_str s
  | arr vs ih => exact readsBack_arr hl ih
  | obj fs ih => exact readsBack_obj hl ih

end Kinds

/-! ## Whole texts -/

theorem readWritten_of_takeValue {shape : Shape} {s : String} {v : Json} {rest : List Char}
    (h : takeValue (2 * s.toList.length + 2) maxDepth shape s.toList = some (v, rest))
    (hrest : (skipSpace rest).isEmpty = true) : readWritten shape s = some v := by
  rw [readWritten, h]
  exact if_pos hrest

theorem readWritten_spelled {l : Layout} (hl : l.Blank) {v : Json} (h : v.Fits maxDepth) :
    readWritten .any (String.ofList (spelled l 0 v)) = some v := by
  have hfuel : (spelled l 0 v).length ≤ 2 * (spelled l 0 v).length + 1 + 1 := by omega
  have hend : EndsNumber [] := fun c hc => absurd hc (by simp)
  have hnothing : (skipSpace []).isEmpty = true := rfl
  have hread := readsBack hl v h hfuel hend
  rw [List.append_nil] at hread
  refine readWritten_of_takeValue ?_ hnothing
  rw [String.toList_ofList]
  exact hread

/-- **The indented text of a value is read as the value.** -/
theorem readWritten_indented {v : Json} (h : v.Fits maxDepth) :
    readWritten .any v.indented = some v := by
  rw [indented, writeIndented_eq]
  exact readWritten_spelled Layout.blank_indented h

/-- **So is the compact one.** -/
theorem readWritten_compact {v : Json} (h : v.Fits maxDepth) :
    readWritten .any v.compact = some v := by
  rw [compact, writeCompact_eq 0]
  exact readWritten_spelled Layout.blank_compact h

end BomAssembly.Json
