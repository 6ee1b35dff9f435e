import Stencil.Directory
import Stencil.Proofs.Resolution.Requests

/-!
# Searching a directory

What a search for one name does is one of five things (`Finds`), and all that it ever does to the
directory is to keep one more template (`Grows`). Since the template that is kept is the one that
would be found again, a search for one name changes for no name which source a search for it finds
(`sourceFound_searched`). So a search for several names finds for each what a search for that name
alone would find (`fetchEach_cases`).
-/

set_option autoImplicit false

namespace Stencil

namespace Directory

variable {α β : Type} {files : FileTree} {directory after : Directory} {name : Text}

/-- What a search answers, if it does not panic, and the directory after it. -/
def searched (action : Search Id α) (directory : Directory) : Option α × Directory :=
  Id.run (action.run.run directory)

theorem searched_bind (first : Search Id α) (next : α → Search Id β) (directory : Directory) :
    searched (first >>= next) directory = match searched first directory with
      | (none, after) => (none, after)
      | (some value, after) => searched (next value) after := by
  unfold searched
  rw [OptionT.run_bind, Option.elimM, StateT.run_bind]
  rcases first.run.run directory with ⟨_ | value, after⟩
  · rfl
  · rfl

theorem searched_documentSource (files : FileTree) (name : Text) (directory : Directory) :
    searched (documentSource (Workspace.find files) name) directory
      = ((searched (Workspace.find files name) directory).1.map (Option.map Template.document),
        (searched (Workspace.find files name) directory).2) := by
  have hmap : documentSource (Workspace.find files) name
      = Workspace.find files name >>= fun found => pure (found.map Template.document) := by
    rw [bind_pure_comp]
    rfl
  rw [hmap, searched_bind]
  rcases searched (Workspace.find files name) directory with ⟨_ | found, after⟩
  · rfl
  · rfl

/-! ## One name -/

theorem find_of_kept {template : Template} (h : lookup? name directory.loaded = some template) :
    searched (Workspace.find files name) directory = (some (some template), directory) := by
  simp [searched, Workspace.find, fetch, OptionT.run, StateT.run, h]

theorem find_of_panicked (hnew : lookup? name directory.loaded = none)
    (h : directory.pathFor name = .panicked) :
    searched (Workspace.find files name) directory = (none, directory) := by
  simp [searched, Workspace.find, fetch, OptionT.run, StateT.run, hnew, h]

theorem find_of_refused (hnew : lookup? name directory.loaded = none)
    (h : directory.pathFor name = .done none) :
    searched (Workspace.find files name) directory = (some none, directory) := by
  simp [searched, Workspace.find, fetch, OptionT.run, StateT.run, hnew, h]

theorem find_of_unread {path : PathName} {error : FileError}
    (hnew : lookup? name directory.loaded = none)
    (hpath : directory.pathFor name = .done (some path))
    (h : files.read path = .error error) :
    searched (Workspace.find files name) directory = (some none, directory) := by
  simp only [searched, Workspace.find, fetch, OptionT.run, StateT.run, hnew, hpath, Workspace.read]
  rw [h]
  rfl

theorem find_of_read {path : PathName} {source : Text}
    (hnew : lookup? name directory.loaded = none)
    (hpath : directory.pathFor name = .done (some path))
    (h : files.read path = .ok source) :
    searched (Workspace.find files name) directory
      = (some (some (directory.keep name source).1), (directory.keep name source).2) := by
  simp only [searched, Workspace.find, fetch, OptionT.run, StateT.run, hnew, hpath, Workspace.read]
  rw [h]
  rfl

/-- What a search for a name can answer, and the directory after it. -/
inductive Finds (files : FileTree) (directory : Directory) (name : Text) :
    Option (Option Template) × Directory → Prop where
  | kept {template : Template} (h : lookup? name directory.loaded = some template) :
      Finds files directory name (some (some template), directory)
  | panicked (hnew : lookup? name directory.loaded = none)
      (h : directory.pathFor name = .panicked) : Finds files directory name (none, directory)
  | refused (hnew : lookup? name directory.loaded = none)
      (h : directory.pathFor name = .done none) :
      Finds files directory name (some none, directory)
  | unread {path : PathName} {error : FileError} (hnew : lookup? name directory.loaded = none)
      (hpath : directory.pathFor name = .done (some path)) (h : files.read path = .error error) :
      Finds files directory name (some none, directory)
  | read {path : PathName} {source : Text} (hnew : lookup? name directory.loaded = none)
      (hpath : directory.pathFor name = .done (some path)) (h : files.read path = .ok source) :
      Finds files directory name
        (some (some (directory.keep name source).1), (directory.keep name source).2)

theorem finds_searched (files : FileTree) (directory : Directory) (name : Text) :
    Finds files directory name (searched (Workspace.find files name) directory) := by
  cases hkept : lookup? name directory.loaded with
  | some template =>
      rw [find_of_kept hkept]
      exact .kept hkept
  | none =>
      cases hpath : directory.pathFor name with
      | panicked =>
          rw [find_of_panicked hkept hpath]
          exact .panicked hkept hpath
      | done path? =>
          cases path? with
          | none =>
              rw [find_of_refused hkept hpath]
              exact .refused hkept hpath
          | some path =>
              cases hread : files.read path with
              | error error =>
                  rw [find_of_unread hkept hpath hread]
                  exact .unread hkept hpath hread
              | ok source =>
                  rw [find_of_read hkept hpath hread]
                  exact .read hkept hpath hread

/-- **When a name panics**: the extension has a slash in it and would be added to the path. -/
theorem pathFor_eq_panicked_iff (directory : Directory) (name : Text) :
    directory.pathFor name = .panicked ↔
      ∃ extension, directory.extension = some extension ∧ '/' ∈ extension ∧ name ≠ [] ∧
        (PathName.components name).all isInside = true ∧
        PathName.extension? (PathName.join directory.root name) = none := by
  unfold pathFor
  by_cases hrefused : name = [] ∨ !(PathName.components name).all isInside
  · rw [if_pos hrefused]
    constructor
    · intro h
      cases h
    · rintro ⟨extension, -, -, hne, hinside, -⟩
      simp [hne, hinside] at hrefused
  · rw [if_neg hrefused]
    simp only [not_or, Bool.not_eq_true', Bool.not_eq_false] at hrefused
    obtain ⟨hne, hinside⟩ := hrefused
    cases hextension : directory.extension with
    | none => simp
    | some extension =>
        cases hx : PathName.extension? (PathName.join directory.root name) with
        | some kept => simp [hx]
        | none =>
            by_cases hslash : '/' ∈ extension
            · simp [hx, hslash, hne, hinside]
            · simp [hx, hslash]

/-! ## What a search does to the directory -/

theorem lookup?_keep (other : Text) (source : Text) :
    lookup? other (directory.keep name source).2.loaded
      = if name = other then some (directory.keep name source).1
        else lookup? other directory.loaded :=
  lookup?_insertEntry name other _ _

/-- Every template that is kept has the name it is kept under, and a cell that was given away. -/
def KeepsNamed (directory : Directory) : Prop :=
  ∀ name template, lookup? name directory.loaded = some template →
    template.name = some name ∧ template.cell < directory.nextCell

/-- A directory that keeps what was kept before, and maybe more. -/
structure Grows (directory after : Directory) : Prop where
  root : after.root = directory.root
  extension : after.extension = directory.extension
  kept {name : Text} {template : Template} :
    lookup? name directory.loaded = some template → lookup? name after.loaded = some template
  nextCell : directory.nextCell ≤ after.nextCell
  keepsNamed : directory.KeepsNamed → after.KeepsNamed

theorem Grows.refl (directory : Directory) : Grows directory directory :=
  ⟨rfl, rfl, fun h => h, Nat.le_refl _, fun h => h⟩

theorem Grows.trans {last : Directory} (h : Grows directory after) (h' : Grows after last) :
    Grows directory last :=
  ⟨h'.root.trans h.root, h'.extension.trans h.extension, fun hkept => h'.kept (h.kept hkept),
    Nat.le_trans h.nextCell h'.nextCell, fun hkeeps => h'.keepsNamed (h.keepsNamed hkeeps)⟩

theorem Grows.pathFor (h : Grows directory after) (name : Text) :
    after.pathFor name = directory.pathFor name := by
  unfold Directory.pathFor
  rw [h.root, h.extension]

theorem Finds.grows {found : Option (Option Template) × Directory}
    (h : Finds files directory name found) : Grows directory found.2 := by
  cases h with
  | kept _ | panicked _ _ | refused _ _ | unread _ _ _ => exact .refl directory
  | read hnew hpath hread =>
      refine ⟨rfl, rfl, fun {other template} hkept => ?_, Nat.le_succ _, fun hkeeps => ?_⟩
      · have hne : name ≠ other := by
          rintro rfl
          rw [hnew] at hkept
          cases hkept
        rw [lookup?_keep, if_neg hne, hkept]
      · intro other template hkept
        rw [lookup?_keep] at hkept
        by_cases hname : name = other
        · rw [if_pos hname] at hkept
          cases hkept
          exact ⟨congrArg some hname, Nat.lt_succ_self _⟩
        · rw [if_neg hname] at hkept
          obtain ⟨hnamed, hcell⟩ := hkeeps other template hkept
          exact ⟨hnamed, Nat.lt_succ_of_lt hcell⟩

/-- A template that is found is kept from then on. -/
theorem loaded_of_find {template : Template}
    (h : searched (Workspace.find files name) directory = (some (some template), after)) :
    lookup? name after.loaded = some template := by
  have hfinds := finds_searched files directory name
  rw [h] at hfinds
  cases hfinds with
  | kept hkept => exact hkept
  | read hnew hpath hread => rw [lookup?_keep, if_pos rfl]

/-- The actions that only add to the directory. -/
def Growing (action : Search Id α) : Prop :=
  ∀ directory, Grows directory (searched action directory).2

theorem growing_pure (value : α) : Growing (pure value) := fun directory => .refl directory

theorem Growing.bind {first : Search Id α} {next : α → Search Id β} (h : Growing first)
    (hnext : ∀ value, Growing (next value)) : Growing (first >>= next) := by
  intro directory
  have hfirst := h directory
  rw [searched_bind]
  rcases hfound : searched first directory with ⟨_ | value, after⟩
  · rwa [hfound] at hfirst
  · rw [hfound] at hfirst
    exact hfirst.trans (hnext value after)

theorem growing_find (files : FileTree) (name : Text) : Growing (Workspace.find files name) :=
  fun directory => (finds_searched files directory name).grows

theorem growing_documentSource (files : FileTree) (name : Text) :
    Growing (documentSource (Workspace.find files) name) := by
  intro directory
  rw [searched_documentSource]
  exact growing_find files name directory

theorem growing_resolveDocument (files : FileTree) (limits : Limits) (document : Document) :
    Growing (resolveDocument (documentSource (Workspace.find files)) limits document) :=
  resolveDocument_of_requests growing_pure (fun _ _ h hnext => h.bind hnext)
    (growing_documentSource files) limits document

/-! ## What a search for a name finds -/

/-- The source of the template that a search for a name answers with: no answer if it panics, and
no source if it finds nothing. -/
def sourceFound (files : FileTree) (directory : Directory) (name : Text) : Option (Option Text) :=
  (searched (Workspace.find files name) directory).1.map (Option.map Template.source)

/-- Does a search for the name find a template? -/
def isFound (files : FileTree) (directory : Directory) (name : Text) : Bool :=
  (sourceFound files directory name).any Option.isSome

theorem sourceFound_of_kept {template : Template}
    (h : lookup? name directory.loaded = some template) :
    sourceFound files directory name = some (some template.source) := by
  rw [sourceFound, find_of_kept h]
  rfl

/-- What is found for a name that is not kept depends on the place of the directory only. -/
theorem Grows.sourceFound_of_new (h : Grows directory after)
    (hnew : lookup? name after.loaded = none) :
    sourceFound files after name = sourceFound files directory name := by
  -- the name was not kept before either
  have hold : lookup? name directory.loaded = none := by
    cases hkept : lookup? name directory.loaded with
    | none => rfl
    | some template =>
        rw [h.kept hkept] at hnew
        cases hnew
  have hpath := h.pathFor name
  have hfinds := finds_searched files directory name
  unfold sourceFound
  generalize searched (Workspace.find files name) directory = found at hfinds
  cases hfinds with
  | kept hkept =>
      rw [hold] at hkept
      cases hkept
  | panicked _ hplace => rw [find_of_panicked hnew (hpath.trans hplace)]
  | refused _ hplace => rw [find_of_refused hnew (hpath.trans hplace)]
  | unread _ hplace hread => rw [find_of_unread hnew (hpath.trans hplace) hread]
  | read _ hplace hread =>
      rw [find_of_read hnew (hpath.trans hplace) hread]
      rfl

/-- **A search for one name changes for no name what is found.** -/
theorem sourceFound_searched (files : FileTree) (directory : Directory) (name other : Text) :
    sourceFound files (searched (Workspace.find files name) directory).2 other
      = sourceFound files directory other := by
  have hgrows := growing_find files name directory
  cases hkept : lookup? other (searched (Workspace.find files name) directory).2.loaded with
  | none => exact hgrows.sourceFound_of_new hkept
  | some template =>
      cases hold : lookup? other directory.loaded with
      | some before =>
          rw [sourceFound_of_kept hold, sourceFound_of_kept (hgrows.kept hold)]
      | none =>
          -- the template is the one that was loaded for the name itself
          rw [sourceFound_of_kept hkept]
          have hfinds := finds_searched files directory name
          generalize searched (Workspace.find files name) directory = found at hkept hfinds
          cases hfinds with
          | kept _ | panicked _ _ | refused _ _ | unread _ _ _ =>
              rw [hold] at hkept
              cases hkept
          | read hnew hpath hread =>
              rw [lookup?_keep] at hkept
              by_cases hname : name = other
              · subst hname
                rw [if_pos rfl] at hkept
                cases hkept
                rw [sourceFound, find_of_read hnew hpath hread]
                rfl
              · rw [if_neg hname, hold] at hkept
                cases hkept

/-! ## Several names -/

/-- What a search for several names collects: a template for each name for which one is found, and
these are kept. -/
structure Collects (files : FileTree) (directory : Directory) (names : List Text)
    (templates : Entries Template) (after : Directory) : Prop where
  grows : Grows directory after
  keys : templates.map (·.1) = names.filter (isFound files directory)
  kept {name : Text} {template : Template} :
    lookup? name templates = some template → lookup? name after.loaded = some template
  loaded (name : Text) :
    lookup? name after.loaded = (lookup? name directory.loaded).or (lookup? name templates)
  same (name : Text) : sourceFound files after name = sourceFound files directory name

theorem Collects.nil : Collects files directory [] [] directory where
  grows := .refl directory
  keys := rfl
  kept h := by cases h
  loaded name := by rw [lookup?, Option.or_none]
  same name := rfl

theorem isFound_congr {other : Directory}
    (h : ∀ name, sourceFound files other name = sourceFound files directory name) :
    isFound files other = isFound files directory := by
  funext name
  rw [isFound, isFound, h]

/-- A name for which nothing is found adds nothing. -/
theorem Collects.cons_none {names : List Text} {templates : Entries Template}
    {between : Directory}
    (hfirst : searched (Workspace.find files name) directory = (some none, between))
    (h : Collects files between names templates after) :
    Collects files directory (name :: names) templates after := by
  have hsame := sourceFound_searched files directory name
  have hfinds := finds_searched files directory name
  have hfound : isFound files directory name = false := by
    rw [isFound, sourceFound, hfirst]
    rfl
  rw [hfirst] at hsame hfinds
  -- nothing was kept, so the other names are searched for in the same directory
  obtain rfl : between = directory := by cases hfinds <;> rfl
  refine ⟨h.grows, ?_, h.kept, h.loaded, h.same⟩
  rw [h.keys, List.filter_cons_of_neg (by rw [hfound]; exact Bool.false_ne_true)]

/-- A name for which a template is found adds it. -/
theorem Collects.cons_some {names : List Text} {templates : Entries Template} {template : Template}
    {between : Directory}
    (hfirst : searched (Workspace.find files name) directory = (some (some template), between))
    (h : Collects files between names templates after) :
    Collects files directory (name :: names) ((name, template) :: templates) after := by
  have hsame := sourceFound_searched files directory name
  have hfinds := finds_searched files directory name
  have hfound : isFound files directory name = true := by
    rw [isFound, sourceFound, hfirst]
    rfl
  rw [hfirst] at hsame hfinds
  have hbetween : ∀ other, lookup? other between.loaded
      = (lookup? other directory.loaded).or (if name = other then some template else none) := by
    intro other
    cases hfinds with
    | kept hkept =>
        by_cases hother : name = other
        · subst hother
          rw [hkept, Option.some_or]
        · rw [if_neg hother, Option.or_none]
    | read hnew hpath hread =>
        rw [lookup?_keep]
        by_cases hother : name = other
        · subst hother
          rw [if_pos rfl, if_pos rfl, hnew, Option.none_or]
        · rw [if_neg hother, if_neg hother, Option.or_none]
  have hkept : lookup? name between.loaded = some template := loaded_of_find hfirst
  refine ⟨hfinds.grows.trans h.grows, ?_, ?_, ?_, fun other => (h.same other).trans (hsame other)⟩
  · rw [List.map_cons, h.keys, isFound_congr hsame, List.filter_cons_of_pos hfound]
  · intro other found hother
    rw [lookup?] at hother
    by_cases hname : name = other
    · subst hname
      rw [if_pos rfl] at hother
      cases hother
      exact h.grows.kept hkept
    · rw [if_neg hname] at hother
      exact h.kept hother
  · intro other
    rw [h.loaded, hbetween, lookup?, Option.or_assoc]
    by_cases hname : name = other
    · rw [if_pos hname, if_pos hname, Option.some_or]
    · rw [if_neg hname, if_neg hname, Option.none_or]

/-- **A search for several names** panics if a search for one of them does. Otherwise it finds for
each name what a search for that name finds. -/
theorem fetchEach_cases (files : FileTree) (directory : Directory) (names : List Text) :
    ((∃ name ∈ names, sourceFound files directory name = none) ∧
      (searched (fetchEach (Workspace.read files) names) directory).1 = none) ∨
    ((∀ name ∈ names, sourceFound files directory name ≠ none) ∧
      ∃ templates after,
        searched (fetchEach (Workspace.read files) names) directory = (some templates, after) ∧
        Collects files directory names templates after) := by
  -- the search for the first name does not change what is found for the others
  induction names generalizing directory with
  | nil => exact .inr ⟨by simp, [], directory, rfl, .nil⟩
  | cons name rest ih =>
      have hsame := sourceFound_searched files directory name
      have hfetch : fetch (Workspace.read files) name = Workspace.find files name := rfl
      rw [fetchEach, searched_bind, hfetch]
      rcases hfirst : searched (Workspace.find files name) directory with ⟨_ | found, between⟩
      · refine .inl ⟨⟨name, List.mem_cons_self, ?_⟩, rfl⟩
        rw [sourceFound, hfirst]
        rfl
      · rw [hfirst] at hsame
        have hhead : sourceFound files directory name ≠ none := by
          rw [sourceFound, hfirst]
          simp
        rcases ih between with ⟨⟨other, hother, hpanics⟩, hnone⟩ | ⟨hall, templates, after, hrest,
          hcollects⟩
        · refine .inl ⟨⟨other, List.mem_cons_of_mem _ hother, (hsame other).symm.trans hpanics⟩, ?_⟩
          dsimp only
          rw [searched_bind]
          rcases hrest : searched (fetchEach (Workspace.read files) rest) between with
            ⟨_ | templates, after⟩
          · rfl
          · rw [hrest] at hnone
            cases hnone
        · refine .inr ⟨?_, ?_⟩
          · rw [List.forall_mem_cons]
            exact ⟨hhead, fun other hother => hsame other ▸ hall other hother⟩
          · dsimp only
            rw [searched_bind, hrest]
            cases found with
            | none => exact ⟨templates, after, rfl, .cons_none hfirst hcollects⟩
            | some template =>
                exact ⟨(name, template) :: templates, after, rfl, .cons_some hfirst hcollects⟩

theorem searched_fetchAll (files : FileTree) (directory : Directory) (names : List Text) :
    searched (fetchAll (Workspace.read files) names) directory
      = match searched (fetchEach (Workspace.read files) names) directory with
        | (none, _) => (none, directory)
        | answer => answer := by
  unfold searched
  simp only [fetchAll, OptionT.run, StateT.run]
  rcases (fetchEach (Workspace.read files) names directory) with ⟨_ | templates, after⟩
  · rfl
  · rfl

/-- Searching for all of several names at once keeps nothing if it panics. -/
theorem fetchAll_cases (files : FileTree) (directory : Directory) (names : List Text) :
    ((∃ name ∈ names, sourceFound files directory name = none) ∧
      searched (fetchAll (Workspace.read files) names) directory = (none, directory)) ∨
    ((∀ name ∈ names, sourceFound files directory name ≠ none) ∧
      ∃ templates after,
        searched (fetchAll (Workspace.read files) names) directory = (some templates, after) ∧
        Collects files directory names templates after) := by
  rcases fetchEach_cases files directory names with ⟨hpanics, hnone⟩ | ⟨hall, templates, after,
    heach, hcollects⟩
  · refine .inl ⟨hpanics, ?_⟩
    rw [searched_fetchAll]
    rcases heach : searched (fetchEach (Workspace.read files) names) directory with
      ⟨_ | templates, after⟩
    · rfl
    · rw [heach] at hnone
      cases hnone
  · refine .inr ⟨hall, templates, after, ?_, hcollects⟩
    rw [searched_fetchAll, heach]

end Directory

end Stencil
