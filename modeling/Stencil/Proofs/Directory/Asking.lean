import Stencil.Proofs.Directory.Workspaces

/-!
# When a render in a directory panics by its search

A render in a directory asks for templates by their names, and the path of a name can panic.
`askedNames` are the names that resolving a document asks for, where a name that panics is answered
as one that is not found. The search panics if and only if one of them does, and otherwise it gives
what the resolution gives with the answers of the directory (`mirrors_resolveDocument`). That says
which renders have no answer (`rendersByNames`). In a directory whose extension holds no slash all
of them have one (`PanicsAt.hasSlash`).
-/

set_option autoImplicit false

namespace Stencil

namespace Directory

variable {α β : Type} {files : FileTree} {directory : Directory} {limits : Limits}

/-! ## Names that are asked for -/

/-- A search for the name panics: no template is kept for it, and its path panics. -/
def PanicsAt (directory : Directory) (name : Text) : Prop :=
  lookup? name directory.loaded = none ∧ directory.pathFor name = .panicked

theorem sourceFound_eq_none_iff {name : Text} :
    sourceFound files directory name = none ↔ directory.PanicsAt name := by
  have hfinds := finds_searched files directory name
  unfold sourceFound PanicsAt
  generalize searched (Workspace.find files name) directory = found at hfinds
  cases hfinds with
  | kept hkept => simp [hkept]
  | panicked hnew hpath => simp [hnew, hpath]
  | refused _ hpath | unread _ hpath _ | read _ hpath _ => simp [hpath]

/-- The extension of the directory holds a slash. -/
def HasSlash (directory : Directory) : Prop :=
  ∃ extension, directory.extension = some extension ∧ '/' ∈ extension

theorem PanicsAt.hasSlash {name : Text} (h : directory.PanicsAt name) : directory.HasSlash := by
  obtain ⟨extension, hextension, hslash, -⟩ := (pathFor_eq_panicked_iff directory name).mp h.2
  exact ⟨extension, hextension, hslash⟩

/-- Something that asks for documents, beside the names that it has asked for. -/
abbrev Asking (α : Type) := StateM (List Text) α

/-- Asks the directory for a document. A name that panics is answered as one that is not found. -/
def ask (files : FileTree) (directory : Directory) (name : Text) : Asking (Option Document) := do
  modify (· ++ [name])
  return (sourceFound files directory name).join.map Document.parse

/-- The names that resolving a document asks for. -/
def askedNames (files : FileTree) (directory : Directory) (limits : Limits)
    (document : Document) : List Text :=
  (Id.run ((resolveDocument (ask files directory) limits document).run [])).2

/-- Resolving the document asks for a name that panics. -/
def AsksForPanic (files : FileTree) (directory : Directory) (limits : Limits)
    (document : Document) : Prop :=
  ∃ name ∈ askedNames files directory limits document, directory.PanicsAt name

theorem asksForPanic_congr {other : Directory} (document : Document)
    (h : sourceFound files other = sourceFound files directory) :
    AsksForPanic files other limits document ↔ AsksForPanic files directory limits document := by
  have hasked : ask files other = ask files directory := by
    unfold ask
    rw [h]
  simp only [AsksForPanic, askedNames, hasked, ← @sourceFound_eq_none_iff files, h]

/-! ## Searching and asking -/

/-- The search panics if a name is asked for that does. Otherwise it gives the same value, and
changes for no name what is found. -/
def Mirrors (files : FileTree) (directory : Directory) (action : Search Id α)
    (asking : Asking α) : Prop :=
  ∀ current names, sourceFound files current = sourceFound files directory →
    ∃ asked, (asking names).2 = names ++ asked ∧
      ((∃ name ∈ asked, sourceFound files directory name = none) ∧
          (searched action current).1 = none ∨
        (∀ name ∈ asked, sourceFound files directory name ≠ none) ∧
          ∃ after, searched action current = (some (asking names).1, after) ∧
            sourceFound files after = sourceFound files directory)

theorem mirrors_pure (value : α) : Mirrors files directory (pure value) (pure value) := by
  intro current names hsame
  exact ⟨[], (List.append_nil names).symm, .inr ⟨by simp, current, rfl, hsame⟩⟩

theorem Mirrors.bind {first : Search Id α} {asking : Asking α} {next : α → Search Id β}
    {askingNext : α → Asking β} (h : Mirrors files directory first asking)
    (hnext : ∀ value, Mirrors files directory (next value) (askingNext value)) :
    Mirrors files directory (first >>= next) (asking >>= askingNext) := by
  intro current names hsame
  obtain ⟨asked, hasked, hfirst⟩ := h current names hsame
  have hbind : (asking >>= askingNext) names
      = askingNext (asking names).1 (asking names).2 := rfl
  rw [hbind, hasked, searched_bind]
  rcases hfirst with ⟨⟨name, hname, hpanics⟩, hnone⟩ | ⟨hall, after, hvalue, hafter⟩
  · -- what is asked for after a panic is of no matter
    obtain ⟨more, hmore, -⟩ := hnext (asking names).1 directory (names ++ asked) rfl
    refine ⟨asked ++ more, by rw [hmore, List.append_assoc], .inl ⟨?_, ?_⟩⟩
    · exact ⟨name, List.mem_append_left more hname, hpanics⟩
    · rcases hrun : searched first current with ⟨_ | value, between⟩
      · rfl
      · rw [hrun] at hnone
        cases hnone
  · obtain ⟨more, hmore, hrest⟩ := hnext (asking names).1 after (names ++ asked) hafter
    refine ⟨asked ++ more, by rw [hmore, List.append_assoc], ?_⟩
    rw [hvalue]
    rcases hrest with ⟨⟨name, hname, hpanics⟩, hnone⟩ | ⟨hothers, last, hlast, hkept⟩
    · exact .inl ⟨⟨name, List.mem_append_right asked hname, hpanics⟩, hnone⟩
    · refine .inr ⟨fun name hname => ?_, last, hlast, hkept⟩
      exact (List.mem_append.mp hname).elim (hall name) (hothers name)

theorem mirrors_ask (name : Text) :
    Mirrors files directory (documentSource (Workspace.find files) name)
      (ask files directory name) := by
  intro current names hsame
  refine ⟨[name], rfl, ?_⟩
  have hvalue : (ask files directory name names).1
      = (sourceFound files directory name).join.map Document.parse := rfl
  have hafter : sourceFound files (searched (Workspace.find files name) current).2
      = sourceFound files directory :=
    (funext (sourceFound_searched files current name)).trans hsame
  have hfound : sourceFound files directory name
      = (searched (Workspace.find files name) current).1.map (Option.map Template.source) := by
    rw [← hsame, sourceFound]
  rw [searched_documentSource, hvalue, hfound]
  simp only [List.mem_singleton, exists_eq_left, forall_eq, hfound]
  rcases hfind : searched (Workspace.find files name) current with ⟨_ | found, after⟩
  · exact .inl ⟨rfl, rfl⟩
  · rw [hfind] at hafter
    refine .inr ⟨by simp, after, ?_, hafter⟩
    cases found <;> rfl

theorem mirrors_resolveDocument (files : FileTree) (directory : Directory) (limits : Limits)
    (document : Document) :
    Mirrors files directory
      (resolveDocument (documentSource (Workspace.find files)) limits document)
      (resolveDocument (ask files directory) limits document) :=
  resolveDocument_related mirrors_pure (fun _ _ _ _ h hnext => h.bind hnext) mirrors_ask limits
    document

/-- **The search of a resolution panics** if and only if it asks for a name that does. -/
theorem searched_resolveDocument_eq_none_iff (document : Document) :
    (searched (resolveDocument (documentSource (Workspace.find files)) limits document)
        directory).1 = none ↔ AsksForPanic files directory limits document := by
  obtain ⟨asked, hasked, hends⟩ :=
    mirrors_resolveDocument files directory limits document directory [] rfl
  have hnames : askedNames files directory limits document = asked := hasked
  rw [AsksForPanic, hnames]
  simp only [← @sourceFound_eq_none_iff files]
  rcases hends with ⟨hpanics, hnone⟩ | ⟨hall, after, hvalue, -⟩
  · exact iff_of_true hnone hpanics
  · refine iff_of_false (by simp [hvalue]) ?_
    rintro ⟨name, hname, hpanics⟩
    exact hall name hname hpanics

/-! ## Renders -/

/-- What only makes something of the answer of a search does not change whether it has one. -/
theorem searched_bind_eq_none_iff {first : Search Id α} {next : α → Search Id β}
    (hnext : ∀ value after, (searched (next value) after).1 ≠ none) :
    (searched (first >>= next) directory).1 = none ↔ (searched first directory).1 = none := by
  rw [searched_bind]
  rcases searched first directory with ⟨_ | value, after⟩
  · simp
  · simp [hnext]

theorem searched_pure_ne_none (value : α) (directory : Directory) :
    (searched (pure value : Search Id α) directory).1 ≠ none := by
  rintro ⟨⟩

section Renders

variable {κ : Type} (evaluator : Evaluator κ) (macros : Macros κ) (data : Value κ)
  (caches : Caches)

theorem searched_resolveTemplate_eq_none_iff (template : Template) :
    (searched (resolveTemplate (Workspace.find files) limits template caches) directory).1 = none ↔
      caches.tree? template.cell = none ∧
        AsksForPanic files directory limits template.document := by
  unfold resolveTemplate
  cases hcell : caches.tree? template.cell with
  | some tree => exact iff_of_false (searched_pure_ne_none _ _) (by simp)
  | none =>
      rw [← searched_resolveDocument_eq_none_iff]
      refine (searched_bind_eq_none_iff fun answer after => ?_).trans (by simp)
      cases answer <;> exact searched_pure_ne_none _ _

/-- **A render of a template has no answer** if and only if it resolves the template, and asks for a
name that panics. -/
theorem searched_renderTemplate_eq_none_iff (template : Template) :
    (searched (renderTemplate evaluator (Workspace.find files) macros limits template data caches)
        directory).1 = none ↔
      template.source ≠ [] ∧ caches.tree? template.cell = none ∧
        AsksForPanic files directory limits template.document := by
  unfold renderTemplate
  by_cases hsource : template.source = []
  · rw [hsource]
    exact iff_of_false (searched_pure_ne_none _ _) (by simp)
  · rw [if_neg (by simpa using hsource)]
    refine (searched_bind_eq_none_iff fun answer after => searched_pure_ne_none _ _).trans ?_
    rw [searched_resolveTemplate_eq_none_iff]
    simp [hsource]

theorem searched_renderText_eq_none_iff (source : Text) :
    (searched (renderText evaluator (Workspace.find files) macros limits source data)
        directory).1 = none ↔
      source ≠ [] ∧ AsksForPanic files directory limits (Document.parse source) := by
  unfold renderText
  by_cases hsource : source = []
  · rw [hsource]
    exact iff_of_false (searched_pure_ne_none _ _) (by simp)
  · rw [if_neg (by simpa using hsource)]
    refine (searched_bind_eq_none_iff fun answer after => searched_pure_ne_none _ _).trans ?_
    rw [searched_resolveDocument_eq_none_iff]
    simp [hsource]

theorem searched_renderNamed_eq_none_iff (name : Text) :
    (searched (renderNamed evaluator (Workspace.find files) macros limits name data caches)
        directory).1 = none ↔
      directory.PanicsAt name ∨
        ∃ template after,
          searched (Workspace.find files name) directory = (some (some template), after) ∧
          template.source ≠ [] ∧ caches.tree? template.cell = none ∧
          AsksForPanic files directory limits template.document := by
  have hsame := funext (sourceFound_searched files directory name)
  unfold renderNamed
  rw [searched_bind, ← @sourceFound_eq_none_iff files, sourceFound]
  rcases hfind : searched (Workspace.find files name) directory with ⟨_ | _ | template, after⟩
  · exact iff_of_true rfl (.inl rfl)
  · exact iff_of_false (searched_pure_ne_none _ _) (by simp)
  · rw [hfind] at hsame
    refine (searched_renderTemplate_eq_none_iff evaluator macros data caches template).trans ?_
    rw [asksForPanic_congr template.document hsame]
    simp

end Renders

/-- Renders in the directory have no answer exactly where they ask for a name that panics. -/
structure RendersByNames {κ : Type} (evaluator : Evaluator κ) (files : FileTree)
    (directory : Directory) (macros : Macros κ) (limits : Limits) (data : Value κ)
    (caches : Caches) : Prop where
  template (template : Template) :
    (searched (renderTemplate evaluator (Workspace.find files) macros limits template data caches)
        directory).1 = none ↔
      template.source ≠ [] ∧ caches.tree? template.cell = none ∧
        AsksForPanic files directory limits template.document
  named (name : Text) :
    (searched (renderNamed evaluator (Workspace.find files) macros limits name data caches)
        directory).1 = none ↔
      directory.PanicsAt name ∨
        ∃ template after,
          searched (Workspace.find files name) directory = (some (some template), after) ∧
          template.source ≠ [] ∧ caches.tree? template.cell = none ∧
          AsksForPanic files directory limits template.document
  text (source : Text) :
    (searched (renderText evaluator (Workspace.find files) macros limits source data)
        directory).1 = none ↔
      source ≠ [] ∧ AsksForPanic files directory limits (Document.parse source)

theorem rendersByNames {κ : Type} (evaluator : Evaluator κ) (files : FileTree)
    (directory : Directory) (macros : Macros κ) (limits : Limits) (data : Value κ)
    (caches : Caches) : RendersByNames evaluator files directory macros limits data caches where
  template := searched_renderTemplate_eq_none_iff evaluator macros data caches
  named := searched_renderNamed_eq_none_iff evaluator macros data caches
  text := searched_renderText_eq_none_iff evaluator macros data

/-- The action gives an answer with the property; or it panics in its search, and the extension of
the directory holds a slash. -/
def Ends (directory : Directory) (P : α → Prop) (action : Search Id α) : Prop :=
  (∃ value, (searched action directory).1 = some value ∧ P value) ∨
    ((searched action directory).1 = none ∧ directory.HasSlash)

theorem Yields.ends {P : α → Prop} {action : Search Id α} (h : Yields P action)
    (hpanics : (searched action directory).1 = none → ∃ name, directory.PanicsAt name) :
    Ends directory P action := by
  cases hanswer : (searched action directory).1 with
  | some value => exact .inl ⟨value, hanswer, h directory value hanswer⟩
  | none =>
      obtain ⟨name, hname⟩ := hpanics hanswer
      exact .inr ⟨hanswer, hname.hasSlash⟩

theorem AsksForPanic.exists_panicsAt {document : Document}
    (h : AsksForPanic files directory limits document) : ∃ name, directory.PanicsAt name :=
  h.imp fun _ hname => hname.2

end Directory

end Stencil
