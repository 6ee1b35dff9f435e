import Stencil.Directory
import Stencil.Proofs.PathName.Components

/-!
# Where the files of templates are

A name is checked before it is joined to the root of a directory, and the extension is added to the
path that comes out. The last component of that path comes from the name, unless the name has no
component of its own (`.` or `./.`): then it is the last component of the root, and the extension
leads to a file beside the root instead of a file below it. `Directory.RenamesRoot` says when that
is so, and `Directory.pathFor_below_iff` that it is the only way out of the root.
-/

set_option autoImplicit false

namespace Stencil

open PathName

/-! ## Below a root -/

/-- The path leads to the root or below it: it begins with all the places of the root, and does not
lead upwards after them. -/
def PathName.Below (root path : PathName) : Prop :=
  places root <+: places path ∧ .above ∉ (places path).drop (places root).length

instance (root path : PathName) : Decidable (Below root path) :=
  inferInstanceAs (Decidable (_ ∧ _))

theorem PathName.below_of_places {root path : PathName} {rest : List Component}
    (h : places path = places root ++ rest) (hrest : .above ∉ rest) : Below root path := by
  constructor
  · rw [h]
    exact List.prefix_append (places root) rest
  · rw [h, List.drop_left]
    exact hrest

/-- As many places as the root has are those of the root. -/
theorem PathName.places_eq_of_below {root path : PathName} (h : Below root path)
    (hlength : (places path).length = (places root).length) : places path = places root :=
  (h.1.eq_of_length hlength.symm).symm

namespace Directory

/-! ## Names -/

theorem isInside_iff (component : Component) :
    isInside component = true ↔ component ≠ .root ∧ component ≠ .above := by
  cases component <;> simp [isInside]

/-- Which names are allowed. -/
theorem all_isInside_iff (name : Text) :
    (components name).all isInside = true ↔
      isAbsolute name = false ∧ .above ∉ components name := by
  rw [List.all_eq_true]
  constructor
  · intro h
    constructor
    · rw [← Bool.not_eq_true, ← root_mem_components_iff]
      exact fun hroot => ((isInside_iff _).mp (h _ hroot)).1 rfl
    · exact fun habove => ((isInside_iff _).mp (h _ habove)).2 rfl
  · rintro ⟨hrelative, habove⟩ component hm
    rw [isInside_iff]
    constructor
    · rintro rfl
      rw [root_mem_components_iff, hrelative] at hm
      cases hm
    · rintro rfl
      exact habove hm

theorem pathFor_of_refused {directory : Directory} {name : Text}
    (h : name = [] ∨ isAbsolute name = true ∨ .above ∈ components name) :
    directory.pathFor name = .done none := by
  rw [pathFor, if_pos]
  rcases h with h | h
  · exact .inl h
  · refine .inr ?_
    rw [Bool.not_eq_true', ← Bool.not_eq_true, all_isInside_iff]
    rintro ⟨hrelative, habove⟩
    rcases h with h | h
    · rw [hrelative] at h
      cases h
    · exact habove h

/-- A path with an extension, if there is one to add and the path has none. -/
def extended (path : PathName) : Option Text → PathName
  | none => path
  | some extension => if extension? path = none then withExtension path extension else path

theorem pathFor_of_allowed {directory : Directory} {name : Text} (hne : name ≠ [])
    (hrelative : isAbsolute name = false) (habove : .above ∉ components name)
    (hslash : ∀ extension ∈ directory.extension, '/' ∉ extension) :
    directory.pathFor name
      = .done (some (extended (join directory.root name) directory.extension)) := by
  have hinside : ¬ (name = [] ∨ !(components name).all isInside) := by
    simp [hne, (all_isInside_iff name).mpr ⟨hrelative, habove⟩]
  rw [pathFor, if_neg hinside]
  cases he : directory.extension with
  | none => rfl
  | some extension =>
      have hs : '/' ∉ extension := hslash extension he
      cases hx : extension? (join directory.root name) with
      | none => simp [extended, hx, hs]
      | some kept => simp [extended, hx]

/-! ## The way out of the root -/

/-- The name adds no component to the root, and the file name of the root takes the extension. -/
def RenamesRoot (directory : Directory) (name : Text) : Prop :=
  named name = [] ∧ directory.extension ≠ none ∧ fileName? directory.root ≠ none ∧
    extension? directory.root = none

instance (directory : Directory) (name : Text) : Decidable (directory.RenamesRoot name) :=
  inferInstanceAs (Decidable (_ ∧ _))

/-- With an extension, the path of a name with components of its own stays below the root, and that
of a name without does not. -/
theorem below_withExtension_iff {root : PathName} {name file extension : Text}
    (hrelative : isAbsolute name = false) (habove : .above ∉ named name)
    (hf : fileName? (join root name) = some file) (he : extension? (join root name) = none)
    (hne : extension ≠ []) (hslash : '/' ∉ extension) :
    Below root (withExtension (join root name) extension) ↔ named name ≠ [] := by
  have hplaces := places_withExtension hf he hne hslash
  rw [places_join hrelative] at hplaces
  constructor
  · intro hbelow hnamed
    have hlast := fileName?_eq_some_iff.mp hf
    rw [named_join hrelative, hnamed, List.append_nil] at hlast
    obtain ⟨front, hfront⟩ := List.getLast?_eq_some_iff.mp hlast
    have hroot : places root
        = ((if isAbsolute root then [.root] else []) ++ front) ++ [.normal file] := by
      rw [places_eq, hfront, List.append_assoc]
    rw [hnamed, List.append_nil, hroot, List.dropLast_concat] at hplaces
    have hsame := places_eq_of_below hbelow (by simp [hplaces, hroot])
    -- the last components would be equal, but one is longer than the other
    rw [hplaces, hroot, List.append_cancel_left_eq, List.singleton_inj,
      Component.normal.injEq] at hsame
    simp at hsame
  · intro hnamed
    rw [List.dropLast_append_of_ne_nil hnamed, List.append_assoc] at hplaces
    refine below_of_places hplaces ?_
    simp only [List.mem_append, List.mem_singleton, reduceCtorEq, or_false]
    exact fun h => habove (List.dropLast_subset _ h)

/-- The path of a relative name that does not lead upwards is below the root, with the one
exception. -/
theorem below_extended_iff {directory : Directory} {name : Text}
    (hrelative : isAbsolute name = false) (habove : .above ∉ named name)
    (hextension : ∀ extension ∈ directory.extension, extension ≠ [] ∧ '/' ∉ extension) :
    Below directory.root (extended (join directory.root name) directory.extension) ↔
      ¬ directory.RenamesRoot name := by
  have hjoined : Below directory.root (join directory.root name) :=
    below_of_places (places_join hrelative) habove
  -- with no component of its own a name leads to the file that the root leads to
  have hsame : named name = [] → named (join directory.root name) = named directory.root := by
    intro h
    rw [named_join hrelative, h, List.append_nil]
  cases he : directory.extension with
  | none => simp [extended, RenamesRoot, he, hjoined]
  | some extension =>
      obtain ⟨hne, hslash⟩ := hextension extension he
      by_cases hx : extension? (join directory.root name) = none
      · rw [extended, if_pos hx]
        cases hf : fileName? (join directory.root name) with
        | none =>
            have hpath : withExtension (join directory.root name) extension
                = join directory.root name := by simp [withExtension, hf]
            rw [hpath]
            refine iff_of_true hjoined ?_
            rintro ⟨hnamed, -, hroot, -⟩
            exact hroot ((fileName?_congr (hsame hnamed)).symm.trans hf)
        | some file =>
            rw [below_withExtension_iff hrelative habove hf hx hne hslash, not_iff_not]
            constructor
            · intro hnamed
              refine ⟨hnamed, by simp [he], ?_, ?_⟩
              · rw [← fileName?_congr (hsame hnamed), hf]
                simp
              · rw [← extension?_congr (hsame hnamed), hx]
            · exact fun h => h.1
      · rw [extended, if_neg hx]
        refine iff_of_true hjoined ?_
        rintro ⟨hnamed, -, -, hroot⟩
        exact hx ((extension?_congr (hsame hnamed)).trans hroot)

/-- **Where the file of a template is**: a name has no path if and only if it is empty, absolute or
leads upwards somewhere; every other name has a path, and that path leads to the root or below it
unless the extension goes to the root itself. -/
theorem pathFor_below_iff {directory : Directory} (name : Text)
    (hextension : ∀ extension ∈ directory.extension, extension ≠ [] ∧ '/' ∉ extension) :
    ∃ path? : Option PathName, directory.pathFor name = .done path? ∧
      (path? = none ↔ name = [] ∨ isAbsolute name = true ∨ .above ∈ components name) ∧
      ∀ path ∈ path?, Below directory.root path ↔ ¬ directory.RenamesRoot name := by
  by_cases hrefused : name = [] ∨ isAbsolute name = true ∨ .above ∈ components name
  · exact ⟨none, pathFor_of_refused hrefused, by simp [hrefused], by simp⟩
  · have hne : name ≠ [] := fun h => hrefused (.inl h)
    have hrelative : isAbsolute name = false := by
      rw [← Bool.not_eq_true]
      exact fun h => hrefused (.inr (.inl h))
    have habove : .above ∉ components name := fun h => hrefused (.inr (.inr h))
    refine ⟨_, pathFor_of_allowed hne hrelative habove fun e he => (hextension e he).2,
      by simp [hrefused], ?_⟩
    rintro path ⟨⟩
    have hup : .above ∉ named name := fun h => habove (above_mem_components_iff.mpr h)
    exact below_extended_iff hrelative hup hextension

/-- The statement for a name below a root that ends with `/.`, where all of `./` is kept. -/
theorem pathFor_below_pages :
    let directory : Directory := ⟨"site/views/.".toList, some "html".toList, [], 0⟩
    let name : Text := "./pages//home/.".toList
    let path : PathName := "site/views/././pages//home.html".toList
    (∀ extension ∈ directory.extension, extension ≠ [] ∧ '/' ∉ extension) ∧
      directory.pathFor name = .done (some path) ∧
      places path = places directory.root ++ [.normal "pages".toList, .normal "home.html".toList] ∧
      Below directory.root path ∧ ¬ directory.RenamesRoot name := by
  intro directory name path
  have hextension : ∀ extension ∈ directory.extension, extension ≠ [] ∧ '/' ∉ extension := by
    decide
  have hpath : directory.pathFor name = .done (some path) := by
    decide
  have hnew : ¬ directory.RenamesRoot name := by
    decide
  obtain ⟨path?, hdone, -, hbelow⟩ := @pathFor_below_iff directory name hextension
  obtain rfl : path? = some path := by
    rw [hpath] at hdone
    cases hdone
    rfl
  exact ⟨hextension, hpath, by decide, (hbelow path rfl).mpr hnew, hnew⟩

/-- A name can lead out of the root: `.` with an extension leads to a file beside it. -/
theorem not_forall_below_of_pathFor :
    ¬ ∀ (directory : Directory) (name : Text) (path : PathName),
      (∃ part, .normal part ∈ components directory.root) →
      (∀ extension ∈ directory.extension, extension ≠ [] ∧ '/' ∉ extension) →
      directory.pathFor name = .done (some path) → Below directory.root path := by
  intro h
  have hbelow := h ⟨"views".toList, some "html".toList, [], 0⟩ ['.'] "views.html".toList
    ⟨"views".toList, by decide⟩ (by decide) (by decide)
  revert hbelow
  decide

end Directory

end Stencil
