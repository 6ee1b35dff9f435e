import Stencil.Proofs.Directory.Searching

/-!
# Workspaces after commands

Every command but a reload only adds to the directory of a workspace, renders included
(`Directory.growing_renderNamed`). So of a workspace that was opened and then worked in it stays
true that its directory is at its place, that it keeps templates under their names, and that cells
that were not given away yet are empty (`Workspace.OpenedAt.run`).
-/

set_option autoImplicit false

namespace Stencil

/-! ## Renders -/

namespace Directory

variable {κ : Type} {α β : Type}

/-- Every answer of the action has the property. -/
def Yields (P : α → Prop) (action : Search Id α) : Prop :=
  ∀ directory, ∀ value ∈ (searched action directory).1, P value

theorem yields_pure {P : α → Prop} {value : α} (h : P value) : Yields P (pure value) := by
  intro directory other hother
  cases hother
  exact h

theorem Yields.bind {P : α → Prop} {Q : β → Prop} {first : Search Id α} {next : α → Search Id β}
    (h : Yields P first) (hnext : ∀ value, P value → Yields Q (next value)) :
    Yields Q (first >>= next) := by
  intro directory
  have hfirst := h directory
  rw [searched_bind]
  rcases hrun : searched first directory with ⟨_ | value, after⟩
  · simp
  · rw [hrun] at hfirst
    exact hnext value (hfirst value rfl) after

section Renders

variable (evaluator : Evaluator κ) (files : FileTree) (macros : Macros κ) (limits : Limits)
  (data : Value κ) (caches : Caches)

theorem growing_renderTemplate (template : Template) :
    Growing (renderTemplate evaluator (Workspace.find files) macros limits template data
      caches) := by
  unfold renderTemplate
  split
  · exact growing_pure _
  · refine Growing.bind ?_ fun _ => growing_pure _
    unfold resolveTemplate
    split
    · exact growing_pure _
    · refine (growing_resolveDocument files limits template.document).bind fun answer => ?_
      cases answer <;> exact growing_pure _

theorem growing_renderNamed (name : Text) :
    Growing (renderNamed evaluator (Workspace.find files) macros limits name data caches) := by
  unfold renderNamed
  refine (growing_find files name).bind fun found => ?_
  cases found with
  | none => exact growing_pure _
  | some template =>
      exact growing_renderTemplate evaluator files macros limits data caches template

theorem mem_fill {cell : Nat} {tree : List Node} {entry : Nat × List Node}
    (h : entry ∈ caches.fill cell tree) : entry ∈ caches ∨ entry.1 = cell := by
  unfold Caches.fill at h
  split at h
  · exact .inl h
  · rcases List.mem_cons.mp h with rfl | h
    · exact .inr rfl
    · exact .inl h

/-- A render fills no cell but that of its template. -/
theorem yields_renderTemplate (template : Template) :
    Yields (fun answer => ∀ entry ∈ answer.2, entry ∈ caches ∨ entry.1 = template.cell)
      (renderTemplate evaluator (Workspace.find files) macros limits template data caches) := by
  have hresolve : Yields (fun answer => ∀ entry ∈ answer.2, entry ∈ caches ∨
        entry.1 = template.cell)
      (resolveTemplate (Workspace.find files) limits template caches) := by
    unfold resolveTemplate
    split
    · exact yields_pure fun _ hentry => .inl hentry
    · -- what the resolution answers is of no matter: only what follows it fills a cell
      refine Yields.bind (P := fun _ => True) (fun _ _ _ => trivial) fun answer _ => ?_
      cases answer with
      | ok tree => exact yields_pure fun _ hentry => mem_fill caches hentry
      | error error => exact yields_pure fun _ hentry => .inl hentry
  unfold renderTemplate
  split
  · exact yields_pure fun _ hentry => .inl hentry
  · exact hresolve.bind fun answer hanswer => yields_pure hanswer

/-- The cells that are filled after a render were given away. -/
theorem cells_of_renderNamed {directory after : Directory} {name : Text} {rendering : Rendering}
    {filled : Caches} (hkeeps : directory.KeepsNamed)
    (hcells : ∀ entry ∈ caches, entry.1 < directory.nextCell)
    (h : searched (renderNamed evaluator (Workspace.find files) macros limits name data caches)
      directory = (some (rendering, filled), after)) :
    ∀ entry ∈ filled, entry.1 < after.nextCell := by
  rw [renderNamed, searched_bind] at h
  have hgrows := growing_find files name directory
  rcases hfind : searched (Workspace.find files name) directory with ⟨_ | _ | template, between⟩
  · rw [hfind] at h
    cases h
  · rw [hfind] at h hgrows
    cases h
    exact fun entry hentry => Nat.lt_of_lt_of_le (hcells entry hentry) hgrows.nextCell
  · rw [hfind] at h hgrows
    dsimp only at h
    have hrender :=
      growing_renderTemplate evaluator files macros limits data caches template between
    have hyields := yields_renderTemplate evaluator files macros limits data caches template between
    rw [h] at hrender hyields
    have htemplate : template.cell < between.nextCell :=
      (hgrows.keepsNamed hkeeps name template (loaded_of_find hfind)).2
    intro entry hentry
    -- the render fills at most the cell of the template, which was given away when it was found
    rcases hyields _ rfl entry hentry with hold | hnew
    · exact Nat.lt_of_lt_of_le (hcells entry hold)
        (Nat.le_trans hgrows.nextCell hrender.nextCell)
    · rw [hnew]
      exact Nat.lt_of_lt_of_le htemplate hrender.nextCell

end Renders

end Directory

/-! ## Commands -/

namespace Workspace

variable {κ : Type} (evaluator : Evaluator κ) (limits : Limits)

/-- The workspace after several commands. -/
def run (commands : List (WorkspaceCommand κ)) (workspace : Workspace) : Workspace :=
  commands.foldl (fun current command => (current.step evaluator limits command).2) workspace

theorem run_cons (command : WorkspaceCommand κ) (rest : List (WorkspaceCommand κ))
    (workspace : Workspace) :
    run evaluator limits (command :: rest) workspace
      = run evaluator limits rest (workspace.step evaluator limits command).2 := rfl

/-- What a search in the directory of the workspace comes to. -/
theorem search_eq {α : Type} (workspace : Workspace) (action : Directory.Search Id α)
    (answer : α → WorkspaceAnswer) :
    workspace.search action answer = match Directory.searched action workspace.directory with
      | (none, after) => (.panicked, { workspace with directory := after })
      | (some found, after) => (answer found, { workspace with directory := after }) := by
  simp only [search, Directory.searched]
  rcases action.run.run workspace.directory with ⟨_ | found, after⟩
  · rfl
  · rfl

theorem step_renderNamed (workspace : Workspace) (name : Text) (data : Value κ) :
    workspace.step evaluator limits (.renderNamed name data)
      = match Directory.searched (Stencil.renderNamed evaluator (find workspace.files) [] limits
          name data workspace.caches) workspace.directory with
        | (none, after) => (.panicked, { workspace with directory := after })
        | (some (rendering, caches), after) =>
          (.rendering rendering, { workspace with directory := after, caches := caches }) := by
  simp only [step, Directory.searched]
  rcases ((Stencil.renderNamed evaluator (find workspace.files) [] limits name data
    workspace.caches).run.run workspace.directory) with ⟨_ | answer, after⟩
  · rfl
  · rfl

/-- A workspace over files whose directory was just made. -/
def opened (root : PathName) (extension : Option Text) (files : FileTree) : Workspace where
  files := files
  directory := { root := root, extension := extension }
  caches := []

/-- What holds of every workspace that was opened: its directory is still at its place, keeps
templates under their names, and has given away every cell that is kept or filled. -/
structure OpenedAt (root : PathName) (extension : Option Text) (workspace : Workspace) : Prop where
  root : workspace.directory.root = root
  extension : workspace.directory.extension = extension
  keepsNamed : workspace.directory.KeepsNamed
  cells : ∀ entry ∈ workspace.caches, entry.1 < workspace.directory.nextCell

section OpenedAt

variable {root : PathName} {extension : Option Text} {workspace : Workspace}

theorem openedAt_opened (root : PathName) (extension : Option Text) (files : FileTree) :
    OpenedAt root extension (opened root extension files) where
  root := rfl
  extension := rfl
  keepsNamed _ _ h := by cases h
  cells _ h := by cases h

theorem OpenedAt.of_grows (h : OpenedAt root extension workspace) {after : Directory}
    (hgrows : workspace.directory.Grows after) :
    OpenedAt root extension { workspace with directory := after } where
  root := hgrows.root.trans h.root
  extension := hgrows.extension.trans h.extension
  keepsNamed := hgrows.keepsNamed h.keepsNamed
  cells entry hentry := Nat.lt_of_lt_of_le (h.cells entry hentry) hgrows.nextCell

theorem growing_fetchAll (files : FileTree) (names : List Text) :
    Directory.Growing (Directory.fetchAll (read files) names) := by
  intro directory
  rcases Directory.fetchAll_cases files directory names with ⟨-, hnone⟩ | ⟨-, templates, after,
    hsome, hcollects⟩
  · rw [hnone]
    exact .refl directory
  · rw [hsome]
    exact hcollects.grows

theorem OpenedAt.step (h : OpenedAt root extension workspace) (evaluator : Evaluator κ)
    (limits : Limits) (command : WorkspaceCommand κ) :
    OpenedAt root extension (workspace.step evaluator limits command).2 := by
  cases command with
  | write path content => exact ⟨h.root, h.extension, h.keepsNamed, h.cells⟩
  | delete path => exact ⟨h.root, h.extension, h.keepsNamed, h.cells⟩
  | reload =>
      have hnone : workspace.directory.reload.KeepsNamed := fun _ _ hkept => by cases hkept
      exact ⟨h.root, h.extension, hnone, h.cells⟩
  | fetch name => exact h.of_grows (Directory.growing_find _ name workspace.directory)
  | fetchAll names => exact h.of_grows (growing_fetchAll _ _ workspace.directory)
  | renderText source data =>
      have hgrowing := renderText_of_requests (P := Directory.Growing) Directory.growing_pure
        (fun _ _ h hnext => h.bind hnext) (Directory.growing_documentSource workspace.files)
        evaluator [] limits source data
      exact h.of_grows (hgrowing workspace.directory)
  | renderNamed name data =>
      have hgrows := Directory.growing_renderNamed evaluator workspace.files [] limits data
        workspace.caches name workspace.directory
      rw [step_renderNamed]
      rcases hrun : Directory.searched (Stencil.renderNamed evaluator (find workspace.files) []
        limits name data workspace.caches) workspace.directory with ⟨_ | ⟨rendering, filled⟩, after⟩
      · rw [hrun] at hgrows
        exact h.of_grows hgrows
      · rw [hrun] at hgrows
        have hmoved := h.of_grows hgrows
        exact ⟨hmoved.root, hmoved.extension, hmoved.keepsNamed,
          Directory.cells_of_renderNamed evaluator workspace.files [] limits data workspace.caches
            h.keepsNamed h.cells hrun⟩

theorem OpenedAt.run (h : OpenedAt root extension workspace) (evaluator : Evaluator κ)
    (limits : Limits) (commands : List (WorkspaceCommand κ)) :
    OpenedAt root extension (run evaluator limits commands workspace) := by
  induction commands generalizing workspace with
  | nil => exact h
  | cons command rest ih => exact ih (h.step evaluator limits command)

end OpenedAt

end Workspace

end Stencil
