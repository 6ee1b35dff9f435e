import Mathlib.Data.List.Basic
import Stencil.PathName
import Stencil.Proofs.Text.Places

/-!
# What the parts of a path name stand for

`PathName.named` is the part of the components that does not depend on how the path begins: what
the pieces between slashes mean. It turns a slash into concatenation (`named_append_slash`), and the
other operations on paths follow from that: a relative path leads on from another (`places_join`),
and to set the extension of a path is to change its last component and nothing else
(`named_withExtension`, `isAbsolute_withExtension`).

`PathName.places` leaves out of the components the `.` that a path may begin with.
-/

set_option autoImplicit false

namespace Stencil

namespace PathName

/-! ## Components -/

/-- What the pieces of a path between slashes mean. -/
def named (path : PathName) : List Component := (splitText '/' path).filterMap componentOf

/-- The components of a path without a `.` at the beginning. -/
def places (path : PathName) : List Component :=
  (components path).filter (fun component => component ≠ .current)

theorem componentOf_ne_root (piece : Text) : componentOf piece ≠ some .root := by
  unfold componentOf
  split_ifs <;> simp

theorem componentOf_ne_current (piece : Text) : componentOf piece ≠ some .current := by
  unfold componentOf
  split_ifs <;> simp

/-- A name means itself. -/
theorem eq_of_componentOf {piece name : Text} (h : componentOf piece = some (.normal name)) :
    piece = name := by
  unfold componentOf at h
  split_ifs at h with hempty habove
  · cases h
  · cases h
    rfl

/-- A name stays a name when an extension is added to it. -/
theorem componentOf_append_dot {name extension : Text} (hn : name ≠ []) (he : extension ≠ []) :
    componentOf (name ++ '.' :: extension) = some (.normal (name ++ '.' :: extension)) := by
  obtain ⟨c, name, rfl⟩ := List.exists_cons_of_ne_nil hn
  obtain ⟨d, extension, rfl⟩ := List.exists_cons_of_ne_nil he
  -- it is too long to be one of the pieces that are no names
  cases name <;> simp [componentOf]

theorem componentOf_eq_none_iff {piece : Text} :
    componentOf piece = none ↔ piece = [] ∨ piece = ['.'] := by
  unfold componentOf
  split_ifs with h <;> simp [h]

theorem root_notMem_named (path : PathName) : Component.root ∉ named path := by
  intro h
  obtain ⟨piece, -, hp⟩ := List.mem_filterMap.1 h
  exact componentOf_ne_root piece hp

theorem current_notMem_named (path : PathName) : Component.current ∉ named path := by
  intro h
  obtain ⟨piece, -, hp⟩ := List.mem_filterMap.1 h
  exact componentOf_ne_current piece hp

/-- A name among the components of a path is not empty and has no slash in it. -/
theorem notMem_of_normal_mem_named {path : PathName} {name : Text}
    (h : Component.normal name ∈ named path) : '/' ∉ name ∧ name ≠ [] := by
  obtain ⟨piece, hm, hp⟩ := List.mem_filterMap.1 h
  obtain rfl : piece = name := eq_of_componentOf hp
  refine ⟨notMem_of_mem_splitText hm, ?_⟩
  rintro rfl
  simp [componentOf] at hp

@[simp] theorem named_nil : named [] = [] := rfl

/-- A piece without slashes is at most one component. -/
theorem named_of_notMem {piece : Text} (h : '/' ∉ piece) :
    named piece = (componentOf piece).toList := by
  rw [named, splitText_of_notMem h]
  cases hp : componentOf piece <;> simp [hp]

/-- What stands before a slash and what stands after it are read on their own. -/
theorem named_append_slash (s t : PathName) : named (s ++ '/' :: t) = named s ++ named t := by
  simp [named, splitText_append_separator]

/-- A slash at the end means nothing. -/
theorem named_append_slash_nil (s : PathName) : named (s ++ ['/']) = named s := by
  rw [named_append_slash]
  simp

/-- The component that tells how a path begins, if it begins with a slash or a `.`. -/
def beginning (path : PathName) : List Component :=
  if isAbsolute path then [.root]
  else if (splitText '/' path).head? = some ['.'] then [.current] else []

theorem components_eq (path : PathName) : components path = beginning path ++ named path := rfl

theorem places_eq (path : PathName) :
    places path = (if isAbsolute path then [.root] else []) ++ named path := by
  have hn : (named path).filter (fun component => component ≠ .current) = named path := by
    rw [List.filter_eq_self]
    intro component hm
    have hne : component ≠ .current := fun h => current_notMem_named path (h ▸ hm)
    simp [hne]
  rw [places, components_eq, List.filter_append, hn, beginning]
  split_ifs <;> simp

theorem root_mem_components_iff {path : PathName} :
    Component.root ∈ components path ↔ isAbsolute path := by
  have hr := root_notMem_named path
  rw [components_eq, beginning]
  split_ifs with ha hd <;> simp [ha, hr]

theorem above_mem_components_iff {path : PathName} :
    Component.above ∈ components path ↔ Component.above ∈ named path := by
  rw [components_eq, beginning]
  split_ifs <;> simp

/-- The file name is the last piece, where that is a name. -/
theorem fileName?_eq_some_iff {path : PathName} {name : Text} :
    fileName? path = some name ↔ (named path).getLast? = some (.normal name) := by
  have hf : fileName? path = some name ↔ (components path).getLast? = some (.normal name) := by
    unfold fileName?
    split <;> simp_all
  have hb : (beginning path).getLast? ≠ some (.normal name) := by
    unfold beginning
    split_ifs <;> simp
  rw [hf, components_eq, List.getLast?_append]
  cases (named path).getLast? with
  | some component => simp
  | none => simpa using hb

/-- The file name depends on the pieces only. -/
theorem fileName?_congr {path other : PathName} (h : named path = named other) :
    fileName? path = fileName? other := by
  apply Option.ext
  intro name
  rw [fileName?_eq_some_iff, fileName?_eq_some_iff, h]

theorem extension?_congr {path other : PathName} (h : named path = named other) :
    extension? path = extension? other := by
  simp only [extension?, fileName?_congr h]

/-! ## Paths that lead on -/

theorem join_of_relative {base path : PathName} (h : isAbsolute path = false) :
    join base path
      = if base = [] ∨ base.getLast? = some '/' then base ++ path else base ++ '/' :: path := by
  simp [join, h]

theorem named_join {base path : PathName} (h : isAbsolute path = false) :
    named (join base path) = named base ++ named path := by
  rw [join_of_relative h]
  split_ifs with hb
  · obtain rfl | hlast := hb
    · simp
    · obtain ⟨front, rfl⟩ := List.getLast?_eq_some_iff.1 hlast
      rw [named_append_slash_nil, List.append_assoc]
      exact named_append_slash front path
  · exact named_append_slash base path

theorem isAbsolute_append {s : PathName} (h : s ≠ []) (t : Text) :
    isAbsolute (s ++ t) = isAbsolute s := by
  obtain ⟨c, s, rfl⟩ := List.exists_cons_of_ne_nil h
  rfl

theorem isAbsolute_join {base path : PathName} (h : isAbsolute path = false) :
    isAbsolute (join base path) = isAbsolute base := by
  rw [join_of_relative h]
  split_ifs with hb
  · by_cases hbase : base = []
    · subst hbase
      exact h
    · exact isAbsolute_append hbase path
  · exact isAbsolute_append (fun hbase => hb (.inl hbase)) _

/-- A relative path leads on from the places of the path it is joined to. -/
theorem places_join {base path : PathName} (h : isAbsolute path = false) :
    places (join base path) = places base ++ named path := by
  rw [places_eq, places_eq, isAbsolute_join h, named_join h, List.append_assoc]

/-! ## The last name of a path -/

/-- What is dropped stands at the end. -/
theorem dropTailBackwards_suffix (backwards : Text) :
    dropTailBackwards backwards <:+ backwards := by
  fun_induction dropTailBackwards backwards with
  | case1 rest ih => exact ih.trans (List.suffix_cons '/' rest)
  | case2 rest ih =>
      exact ih.trans ((List.suffix_cons '/' rest).trans (List.suffix_cons '.' ('/' :: rest)))
  | case3 rest => exact List.suffix_rfl

theorem dropTail_prefix (path : PathName) : dropTail path <+: path := by
  have h := dropTailBackwards_suffix path.reverse
  simpa [dropTail] using List.reverse_prefix.2 h

/-- The last name of a path ends what is left when its tail is dropped, and another piece in its
place changes the last component only. -/
theorem exists_dropTailBackwards {backwards : Text} {name : Text}
    (h : (named backwards.reverse).getLast? = some (.normal name)) :
    ∃ before : PathName, (dropTailBackwards backwards).reverse = before ++ name ∧
      ∀ piece : Text, '/' ∉ piece →
        named (before ++ piece) = (named backwards.reverse).dropLast ++ named piece := by
  fun_induction dropTailBackwards backwards with
  | case1 rest ih =>
      have hn : named ('/' :: rest).reverse = named rest.reverse := by
        rw [List.reverse_cons]
        exact named_append_slash_nil rest.reverse
      rw [hn] at h ⊢
      exact ih h
  | case2 rest ih =>
      have hn : named ('.' :: '/' :: rest).reverse = named rest.reverse := by
        rw [List.reverse_cons, List.reverse_cons, List.append_assoc]
        calc named (rest.reverse ++ '/' :: ['.'])
          _ = named rest.reverse ++ named ['.'] := named_append_slash rest.reverse ['.']
          _ = named rest.reverse := List.append_nil _
      rw [hn] at h ⊢
      exact ih h
  | case3 rest hslash hdot =>
      by_cases hm : '/' ∈ rest
      · -- the piece after the last slash is not one that means nothing, so it is the name
        obtain ⟨last, front, rfl, hlast⟩ := List.eq_append_cons_of_mem hm
        have hr : (last ++ '/' :: front).reverse = front.reverse ++ '/' :: last.reverse := by simp
        have hl : '/' ∉ last.reverse := by simpa using hlast
        rw [hr, named_append_slash, named_of_notMem hl] at h ⊢
        cases hc : componentOf last.reverse with
        | none =>
            exfalso
            obtain h0 | h0 := componentOf_eq_none_iff.1 hc
            · obtain rfl : last = [] := by simpa using h0
              exact hslash front rfl
            · obtain rfl : last = ['.'] := by simpa using h0
              exact hdot front rfl
        | some component =>
            have hcomp : component = .normal name := by simpa [hc] using h
            have hname : last.reverse = name := eq_of_componentOf (hcomp ▸ hc)
            refine ⟨front.reverse ++ ['/'], by simp [← hname], ?_⟩
            intro piece _
            rw [List.append_assoc]
            simpa using named_append_slash front.reverse piece
      · have hs : '/' ∉ rest.reverse := by simpa using hm
        rw [named_of_notMem hs] at h ⊢
        obtain ⟨component, hc⟩ : ∃ component, componentOf rest.reverse = some component := by
          cases hc : componentOf rest.reverse with
          | none => simp [hc] at h
          | some component => exact ⟨component, rfl⟩
        have hcomp : component = .normal name := by simpa [hc] using h
        have hname : rest.reverse = name := eq_of_componentOf (hcomp ▸ hc)
        refine ⟨[], by simp [hname], ?_⟩
        intro piece _
        simp [hc]

theorem exists_dropTail {path : PathName} {name : Text}
    (h : (named path).getLast? = some (.normal name)) :
    ∃ before : PathName, dropTail path = before ++ name ∧
      ∀ piece : Text, '/' ∉ piece →
        named (before ++ piece) = (named path).dropLast ++ named piece := by
  have hb := @exists_dropTailBackwards path.reverse name
  rw [List.reverse_reverse] at hb
  exact hb h

/-! ## Extensions -/

/-- Nothing is cut off a name without an extension. -/
theorem cutExtension_of_none {name : Text} (h : (cutExtension name).2 = none) :
    (cutExtension name).1 = name := by
  unfold cutExtension at h ⊢
  split <;> simp_all

/-- The path as it is when its file name has no extension yet: its tail is dropped. -/
theorem withExtension_of_extension?_eq_none {path : PathName} {name extension : Text}
    (hf : fileName? path = some name) (he : extension? path = none) (hne : extension ≠ []) :
    withExtension path extension = dropTail path ++ '.' :: extension := by
  obtain ⟨before, hd, -⟩ := exists_dropTail (fileName?_eq_some_iff.1 hf)
  have hcut : (cutExtension name).1 = name := by
    simp only [extension?, hf] at he
    exact cutExtension_of_none he
  have htake : (before ++ name).take ((before ++ name).length - name.length) = before := by
    simp
  simp only [withExtension, hf, hd, htake, hcut, if_neg hne]

/-- To give an extension to a path that has none is to change its last component. -/
theorem named_withExtension {path : PathName} {name extension : Text}
    (hf : fileName? path = some name) (he : extension? path = none) (hne : extension ≠ [])
    (hslash : '/' ∉ extension) :
    named (withExtension path extension)
      = (named path).dropLast ++ [.normal (name ++ '.' :: extension)] := by
  have hlast := fileName?_eq_some_iff.1 hf
  obtain ⟨before, hd, hpiece⟩ := exists_dropTail hlast
  obtain ⟨hname, hn⟩ := notMem_of_normal_mem_named (List.mem_of_getLast? hlast)
  have hs : '/' ∉ name ++ '.' :: extension := by simp [hname, hslash]
  rw [withExtension_of_extension?_eq_none hf he hne, hd, List.append_assoc, hpiece _ hs,
    named_of_notMem hs, componentOf_append_dot hn hne]
  rfl

theorem isAbsolute_withExtension {path : PathName} {name extension : Text}
    (hf : fileName? path = some name) (he : extension? path = none) (hne : extension ≠ []) :
    isAbsolute (withExtension path extension) = isAbsolute path := by
  have hlast := fileName?_eq_some_iff.1 hf
  obtain ⟨before, hd, -⟩ := exists_dropTail hlast
  obtain ⟨-, hn⟩ := notMem_of_normal_mem_named (List.mem_of_getLast? hlast)
  have hkept : dropTail path ≠ [] := by simp [hd, hn]
  obtain ⟨tail, htail⟩ := dropTail_prefix path
  rw [withExtension_of_extension?_eq_none hf he hne, isAbsolute_append hkept]
  conv_rhs => rw [← htail]
  exact (isAbsolute_append hkept tail).symm

/-- An extension keeps all places but the last, which gets a longer name. -/
theorem places_withExtension {path : PathName} {name extension : Text}
    (hf : fileName? path = some name) (he : extension? path = none) (hne : extension ≠ [])
    (hslash : '/' ∉ extension) :
    places (withExtension path extension)
      = (places path).dropLast ++ [.normal (name ++ '.' :: extension)] := by
  have hnamed : named path ≠ [] := by
    intro h
    have hlast := fileName?_eq_some_iff.1 hf
    simp [h] at hlast
  rw [places_eq, places_eq, isAbsolute_withExtension hf he hne,
    named_withExtension hf he hne hslash, List.dropLast_append_of_ne_nil hnamed,
    List.append_assoc]

end PathName

end Stencil
