import BomAssembly.Proofs.FilePath
import BomAssembly.Proofs.Text.Cutting

/-!
# A path is its parent and its name

What a path names is its last step, unless that goes up. Where there is one, the components of the path
are those of its parent and the name behind them (`components_parent`), and a name put behind a path
adds itself and nothing else (`components_append`). So a path with another name has the parent it had
(`components_parent_withFileName`). A name is cut in two at its last dot (`Parted`).
-/

namespace BomAssembly.FilePath

open Text (pieces joined joined_pieces pieces_joined pieces_ne_nil cutLast)

variable {path name stem tail : List Char}

/-! ## Names -/

/-- A text that is a step of its own and goes neither here nor up. -/
structure IsName (name : List Char) : Prop where
  not_idle : isIdle name = false
  not_up : name ≠ ['.', '.']
  one : '/' ∉ name

theorem isIdle_iff {piece : List Char} : isIdle piece = true ↔ piece = [] ∨ piece = ['.'] := by
  rw [isIdle, Bool.or_eq_true, List.isEmpty_iff, beq_iff_eq]

theorem componentOf_eq_name_iff {piece : List Char} :
    componentOf piece = .name name ↔ piece = name ∧ name ≠ ['.', '.'] := by
  unfold componentOf
  split
  · next hup =>
    subst hup
    exact iff_of_false (by simp) fun h => h.2 h.1.symm
  · next hup =>
    rw [Component.name.injEq]
    exact ⟨fun h => ⟨h, h ▸ hup⟩, fun h => h.1⟩

/-- **The name of a path** is its last step. -/
theorem fileName?_eq_some_iff :
    fileName? path = some name ↔ (names path).getLast? = some name ∧ name ≠ ['.', '.'] := by
  have hlast : fileName? path = some name ↔ (components path).getLast? = some (.name name) := by
    unfold fileName?
    split
    · next n hn => rw [hn, Option.some_inj, Option.some_inj, Component.name.injEq]
    · next hother => exact iff_of_false (by simp) fun h => hother name h
  rw [hlast, components_eq, List.getLast?_append, List.getLast?_map]
  cases hnames : (names path).getLast? with
  | none =>
      -- a root or a dot in front of no steps is no name
      refine iff_of_false ?_ (by simp)
      have hlead : lead path ≠ some (componentOf name) := lead_ne_componentOf name
      unfold lead at hlead ⊢
      split
      · simp
      · split <;> simp
  | some piece =>
      rw [Option.map_some, Option.some_or, Option.some_inj, Option.some_inj]
      exact componentOf_eq_name_iff

/-- Paths for one file have one name. -/
theorem SameFile.fileName?_eq {p q : String} (h : SameFile p q) :
    fileName? p.toList = fileName? q.toList := by
  apply Option.ext
  intro name
  rw [fileName?_eq_some_iff, fileName?_eq_some_iff, h.names]

theorem getLast?_components (h : fileName? path = some name) :
    (components path).getLast? = some (.name name) := by
  unfold fileName? at h
  split at h
  · next n hn => rw [hn, Option.some.inj h]
  · exact absurd h (by simp)

theorem fileName?_of_components {front : List Component}
    (h : components path = front ++ [.name name]) : fileName? path = some name := by
  rw [fileName?, h, List.getLast?_concat]

theorem IsName.of_fileName? (h : fileName? path = some name) : IsName name := by
  obtain ⟨hlast, hup⟩ := fileName?_eq_some_iff.mp h
  obtain ⟨hpiece, hidle⟩ := List.mem_filter.mp (List.mem_of_getLast? hlast)
  exact ⟨by simpa using hidle, hup, Text.not_mem_of_mem_pieces hpiece⟩

theorem IsName.ne_nil (h : IsName name) : name ≠ [] := by
  rintro rfl
  exact absurd h.not_idle (by decide)

theorem IsName.head?_ne (h : IsName name) : name.head? ≠ some '/' :=
  fun hhead => h.one (List.mem_of_mem_head? hhead)

/-! ## A name behind a path -/

theorem stepOf_of_isName (h : IsName name) : stepOf name = some (.name name) := by
  rw [stepOf_eq, h.not_idle, componentOf, if_neg h.not_up]
  rfl

theorem components_of_isName (h : IsName name) : components name = [.name name] := by
  have hhere : name ≠ ['.'] := by
    rintro rfl
    exact absurd h.not_idle (by decide)
  rw [components, Text.pieces_of_not_mem h.one]
  simp only [firstStep, if_neg h.head?_ne, if_neg hhere, stepOf_of_isName h]
  rfl

/-- Whether a path starts from the root is all that its first step takes from the whole. -/
theorem firstStep_congr {other first : List Char} (h : path.head? = other.head?) :
    firstStep path first = firstStep other first := by
  unfold firstStep
  rw [h]

/-- The steps of a path with more behind a slash. -/
theorem components_append_of_pieces {first : List Char} {rest : List (List Char)}
    (hpieces : pieces '/' path = first :: rest) (more : List Char) :
    components (path ++ '/' :: more) = (firstStep (path ++ ['/']) first).toList ++
      rest.filterMap stepOf ++ (pieces '/' more).filterMap stepOf := by
  have hhead : (path ++ '/' :: more).head? = (path ++ ['/']).head? := by
    cases path <;> rfl
  rw [components, Text.pieces_append_sep, hpieces]
  simp only [List.cons_append, firstStep_congr hhead, List.filterMap_append, List.append_assoc]

theorem filterMap_stepOf_pieces_nil : (pieces '/' []).filterMap stepOf = [] := rfl

/-- What stands behind a slash is steps behind those before it. -/
theorem components_append_slash (path more : List Char) : components (path ++ '/' :: more) =
    components (path ++ ['/']) ++ (pieces '/' more).filterMap stepOf := by
  obtain ⟨first, rest, hpieces⟩ := List.exists_cons_of_ne_nil (pieces_ne_nil '/' path)
  rw [components_append_of_pieces hpieces more, components_append_of_pieces hpieces [],
    filterMap_stepOf_pieces_nil, List.append_nil]

/-- A slash at the end makes no difference, unless it is the root. -/
theorem components_slash (h : path ≠ []) : components (path ++ ['/']) = components path := by
  obtain ⟨first, rest, hpieces⟩ := List.exists_cons_of_ne_nil (pieces_ne_nil '/' path)
  rw [components_append_of_pieces hpieces [], filterMap_stepOf_pieces_nil, List.append_nil,
    firstStep_congr (List.head?_append_of_ne_nil path h), components, hpieces]

/-- **A name behind a path** is one component more. -/
theorem components_append (h : IsName name) (path : List Char) :
    components (append path name) = components path ++ [.name name] := by
  have hstep : (pieces '/' name).filterMap stepOf = [.name name] := by
    rw [Text.pieces_of_not_mem h.one, List.filterMap_cons_some (stepOf_of_isName h)]
    rfl
  rw [append, if_neg h.head?_ne]
  rcases List.eq_nil_or_concat path with rfl | ⟨front, c, rfl⟩
  · exact components_of_isName h
  · rw [List.concat_eq_append]
    by_cases hslash : c = '/'
    · subst hslash
      rw [if_pos (by simp), List.append_assoc, List.singleton_append, components_append_slash,
        hstep]
    · rw [if_neg (by simp [hslash]), components_append_slash, components_slash (by simp), hstep]

/-! ## The parent of a path -/

theorem filterMap_stepOf_dropWhile (ps : List (List Char)) :
    (ps.dropWhile isIdle).reverse.filterMap stepOf = ps.reverse.filterMap stepOf := by
  induction ps with
  | nil => rfl
  | cons p ps ih =>
      rw [List.dropWhile_cons]
      split
      · next hidle =>
        have hstep : stepOf p = none := by rw [stepOf_eq, if_pos hidle]
        rw [ih, List.reverse_cons, List.filterMap_append, List.filterMap_cons_none hstep]
        exact (List.append_nil _).symm
      · rfl

/-- The last of the pieces that are not idle is the last step. -/
theorem filterMap_stepOf_of_dropWhile {ps before : List (List Char)} {piece : List Char}
    (h : ps.reverse.dropWhile isIdle = piece :: before) : ps.filterMap stepOf =
      (before.dropWhile isIdle).reverse.filterMap stepOf ++ [componentOf piece] := by
  have hidle : isIdle piece = false := by
    have hhead := List.head?_dropWhile_not isIdle ps.reverse
    rw [h] at hhead
    simpa using hhead
  have hstep : stepOf piece = some (componentOf piece) := by
    rw [stepOf_eq, hidle]
    rfl
  have hkept := filterMap_stepOf_dropWhile ps.reverse
  rw [h, List.reverse_reverse] at hkept
  rw [← hkept, List.reverse_cons, List.filterMap_append, filterMap_stepOf_dropWhile,
    List.filterMap_cons_some hstep, List.filterMap_nil]

/-- The first of several pieces tells whether the path starts from the root. -/
theorem head?_joined (first piece : List Char) (more : List (List Char)) :
    (joined ['/'] (first :: piece :: more)).head? = (first ++ ['/']).head? := by
  rw [Text.joined_cons_cons]
  cases first <;> rfl

/-- The first pieces of a path make the steps that they make in the path. -/
theorem components_front {first : List Char} {rest kept : List (List Char)}
    (hpieces : pieces '/' path = first :: rest) (hrest : rest ≠ []) : (∀ p ∈ kept, '/' ∉ p) →
    components (match kept with
      | [] => if path.head? = some '/' then ['/'] else first
      | kept => joined ['/'] (first :: kept)) =
    (firstStep path first).toList ++ kept.filterMap stepOf := by
  intro hkept
  have hfirst : '/' ∉ first := Text.not_mem_of_mem_pieces (hpieces ▸ List.mem_cons_self)
  obtain ⟨piece, more, rfl⟩ := List.exists_cons_of_ne_nil hrest
  have hhead : path.head? = (first ++ ['/']).head? := by
    rw [← joined_pieces '/' path, hpieces, head?_joined]
  cases kept with
  | nil =>
      dsimp only
      split
      · next hroot =>
        rw [firstStep, if_pos hroot]
        rfl
      · next hroot =>
        have hnone : first.head? ≠ some '/' := fun h => hfirst (List.mem_of_mem_head? h)
        rw [components, Text.pieces_of_not_mem hfirst]
        simp only [firstStep, if_neg hroot, if_neg hnone]
  | cons p ps =>
      have hall : ∀ q ∈ first :: p :: ps, '/' ∉ q := List.forall_mem_cons.mpr ⟨hfirst, hkept⟩
      have hstep : firstStep (joined ['/'] (first :: p :: ps)) first = firstStep path first :=
        firstStep_congr ((head?_joined first p ps).trans hhead.symm)
      dsimp only
      rw [components, pieces_joined (List.cons_ne_nil _ _) hall]
      dsimp only
      rw [hstep]

/-- **A path is its parent and its name.** -/
theorem components_parent (h : fileName? path = some name) :
    components path = components (parent path) ++ [.name name] := by
  have hlast := getLast?_components h
  obtain ⟨first, rest, hpieces⟩ := List.exists_cons_of_ne_nil (pieces_ne_nil '/' path)
  have hcomponents : components path = (firstStep path first).toList ++ rest.filterMap stepOf := by
    rw [components, hpieces]
  rw [hcomponents] at hlast ⊢
  rw [parent, hpieces]
  dsimp only
  cases hdrop : rest.reverse.dropWhile isIdle with
  | nil =>
      -- the first piece is all there is
      have hrest := filterMap_stepOf_dropWhile rest.reverse
      rw [hdrop, List.reverse_reverse, List.reverse_nil, List.filterMap_nil] at hrest
      rw [← hrest, List.append_nil] at hlast ⊢
      have hstep : firstStep path first = some (.name name) := by
        cases hfirst : firstStep path first with
        | none =>
            rw [hfirst] at hlast
            exact absurd hlast (by simp)
        | some c =>
            rw [hfirst] at hlast
            exact hlast
      rw [hstep]
      rfl
  | cons piece before =>
      have hne : rest ≠ [] := by
        rintro rfl
        exact absurd hdrop (by simp)
      have hkept : ∀ p ∈ (before.dropWhile isIdle).reverse, '/' ∉ p := by
        intro p hp
        have hbefore : p ∈ before := (List.dropWhile_suffix _).mem (List.mem_reverse.mp hp)
        have hrear : p ∈ rest.reverse :=
          (List.dropWhile_suffix isIdle).mem (hdrop ▸ List.mem_cons_of_mem _ hbefore)
        exact Text.not_mem_of_mem_pieces
          (hpieces ▸ List.mem_cons_of_mem _ (List.mem_reverse.mp hrear))
      rw [filterMap_stepOf_of_dropWhile hdrop, ← List.append_assoc] at hlast ⊢
      rw [List.getLast?_concat] at hlast
      rw [Option.some.inj hlast]
      exact congrArg (· ++ [Component.name name]) (components_front hpieces hne hkept).symm

/-! ## Another name -/

/-- A path that names something gets another name in the place of its own. -/
theorem components_withFileName {other : List Char} (h : fileName? path = some name)
    (hother : IsName other) :
    components (withFileName path other) = components (parent path) ++ [.name other] := by
  rw [withFileName, h, Option.isSome_some, if_pos rfl, components_append hother]

/-- A path that names nothing gets the name behind it. -/
theorem components_withFileName_of_none {other : List Char} (h : fileName? path = none)
    (hother : IsName other) :
    components (withFileName path other) = components path ++ [.name other] := by
  rw [withFileName, h, if_neg (by simp), components_append hother]

theorem fileName?_withFileName {other : List Char} (path : List Char) (hother : IsName other) :
    fileName? (withFileName path other) = some other := by
  cases h : fileName? path with
  | some name => exact fileName?_of_components (components_withFileName h hother)
  | none => exact fileName?_of_components (components_withFileName_of_none h hother)

/-- **Another name, the same parent.** -/
theorem components_parent_withFileName {other : List Char} (h : fileName? path = some name)
    (hother : IsName other) :
    components (parent (withFileName path other)) = components (parent path) := by
  have hparts := components_parent (fileName?_withFileName path hother)
  rw [components_withFileName h hother] at hparts
  exact (List.append_cancel_right hparts).symm

/-! ## A name in two -/

/-- A name in two: what stands before its last dot, and that dot with what stands behind it. A dot in
front of all else is not counted, and a name without a dot has no second part. -/
structure Parted (name stem tail : List Char) : Prop where
  whole : name = stem ++ tail
  stem_ne : stem ≠ []
  tail : tail = [] ∧ '.' ∉ name.tail ∨ ∃ extension, tail = '.' :: extension ∧ '.' ∉ extension

/-- What an extension adds behind the stem. -/
def extended : Option (List Char) → List Char
  | some extension => '.' :: extension
  | none => []

/-- **A name is cut at its last dot.** -/
theorem parted_splitName (h : name ≠ []) :
    Parted name (splitName name).1 (extended (splitName name).2) := by
  unfold splitName
  split
  · next extension hcut =>
    -- the dot in front is the only one
    have hname := Text.eq_of_cutLast hcut
    refine ⟨(List.append_nil name).symm, h, .inl ⟨rfl, ?_⟩⟩
    rw [hname]
    exact Text.not_mem_of_cutLast hcut
  · next stem extension hne hcut =>
    exact ⟨Text.eq_of_cutLast hcut, fun hnil => hne hnil,
      .inr ⟨extension, rfl, Text.not_mem_of_cutLast hcut⟩⟩
  · next hcut =>
    refine ⟨(List.append_nil name).symm, h, .inl ⟨rfl, ?_⟩⟩
    exact fun hdot => Text.not_mem_of_cutLast_eq_none hcut (List.mem_of_mem_tail hdot)

/-- A name with something between its two parts is a name, and a longer one. -/
theorem Parted.isName {between : List Char} (h : Parted name stem tail) (hname : IsName name)
    (hne : between ≠ []) (hone : '/' ∉ between) : IsName (stem ++ between ++ tail) := by
  have hone' : '/' ∉ stem ++ tail := h.whole ▸ hname.one
  have hstem : 0 < stem.length := List.length_pos_iff.mpr h.stem_ne
  have hbetween : 0 < between.length := List.length_pos_iff.mpr hne
  refine ⟨?_, ?_, ?_⟩
  · refine Bool.eq_false_iff.mpr fun hidle => ?_
    rcases isIdle_iff.mp hidle with heq | heq
    all_goals
      have hlength := congrArg List.length heq
      simp only [List.length_append, List.length_cons, List.length_nil] at hlength
      omega
  · intro hup
    -- two dots leave no room but for one in front
    have hlength := congrArg List.length hup
    simp only [List.length_append, List.length_cons, List.length_nil] at hlength
    have htail : tail = [] := List.eq_nil_of_length_eq_zero (by omega)
    rw [htail, List.append_nil] at hup
    have hdots : stem ++ between = ['.'] ++ ['.'] := hup
    have hone : stem.length = ['.'].length := by
      rw [List.length_singleton]
      omega
    have hdot : stem = ['.'] := List.append_inj_left hdots hone
    have hidle := hname.not_idle
    rw [h.whole, htail, hdot] at hidle
    exact absurd hidle (by decide)
  · rw [List.mem_append, List.mem_append, not_or, not_or]
    rw [List.mem_append, not_or] at hone'
    exact ⟨⟨hone'.1, hone⟩, hone'.2⟩

theorem Parted.length_lt {between : List Char} (h : Parted name stem tail) (hne : between ≠ []) :
    name.length < (stem ++ between ++ tail).length := by
  have hbetween : 0 < between.length := List.length_pos_iff.mpr hne
  rw [h.whole, List.length_append, List.length_append, List.length_append]
  omega

end BomAssembly.FilePath
