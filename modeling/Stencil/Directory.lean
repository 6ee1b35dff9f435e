import Stencil.Config
import Stencil.Engine
import Stencil.FileTree

/-!
# Templates in a directory

A `Directory` finds templates in the files below a root. A name is a path below the root, and a
configured extension is added to names without one. A template that was loaded is kept under its
name until the directory is reloaded, whatever happens to its file; a name for which nothing could
be loaded is tried again. The extension cannot hold a slash: to add one that does is to panic.
-/

set_option autoImplicit false

namespace Stencil

/-- A directory of templates, with those that are loaded. -/
structure Directory where
  root : PathName
  /-- Added to the names of templates that have no extension. -/
  extension : Option Text
  loaded : Entries Template := []
  /-- The first cell that belongs to no template yet. -/
  nextCell : Nat := 0

namespace Directory

/-- The directory that a configuration tells of; the working directory if it tells of none. -/
def ofLocation (location : Location) : Directory :=
  { root := location.dir.getD ['.'], extension := location.extension }

/-- May a name have the component? One that leads upwards or to the root is not allowed. -/
def isInside : Component → Bool
  | .normal _ => true
  | .current => true
  | _ => false

/-- The path of the file for a template name, unless the name leads out of the root. -/
def pathFor (directory : Directory) (name : Text) : Outcome (Option PathName) :=
  if name = [] ∨ !(PathName.components name).all isInside then .done none
  else
    let path := PathName.join directory.root name
    match directory.extension with
    | none => .done (some path)
    | some extension =>
      if (PathName.extension? path).isSome then .done (some path)
      else if extension.contains '/' then .panicked
      else .done (some (PathName.withExtension path extension))

/-- The directory with a template kept under a name, and that template. -/
def keep (directory : Directory) (name source : Text) : Template × Directory :=
  let template : Template := ⟨some name, source, directory.nextCell⟩
  (template, { directory with
    loaded := insertEntry name template directory.loaded
    nextCell := directory.nextCell + 1 })

/-- A search in a directory. It keeps what it loads, and has no answer if it panics. -/
abbrev Search (m : Type → Type) (α : Type) := OptionT (StateT Directory m) α

/-- Finds a template: one that is kept, or else one that is loaded now. -/
def fetch {m : Type → Type} [Monad m] (read : PathName → m (Except FileError Text))
    (name : Text) : Search m (Option Template) := fun directory => do
  match lookup? name directory.loaded with
  | some template => return (some (some template), directory)
  | none =>
    match directory.pathFor name with
    | .panicked => return (none, directory)
    | .done none => return (some none, directory)
    | .done (some path) =>
      match ← read path with
      -- nothing is kept, so the name is tried again the next time
      | .error _ => return (some none, directory)
      | .ok source =>
        let (template, directory) := directory.keep name source
        return (some (some template), directory)

/-- Finds several templates, one after another; those that are not found are left out. -/
def fetchEach {m : Type → Type} [Monad m] (read : PathName → m (Except FileError Text)) :
    List Text → Search m (Entries Template)
  | [] => return []
  | name :: rest => do
    let template ← fetch read name
    let others ← fetchEach read rest
    match template with
    | some template => return (name, template) :: others
    | none => return others

/-- Finds several templates. If a search for one of them panics, none of them is kept. -/
def fetchAll {m : Type → Type} [Monad m] (read : PathName → m (Except FileError Text))
    (names : List Text) : Search m (Entries Template) := fun directory => do
  match ← (fetchEach read names).run.run directory with
  | (none, _) => return (none, directory)
  | answer => return answer

/-- Forgets the templates that are kept. -/
def reload (directory : Directory) : Directory := { directory with loaded := [] }

end Directory

/-! ## Files that change -/

/-- A directory of templates over files that change, and the cells of its templates. -/
structure Workspace where
  files : FileTree
  directory : Directory
  caches : Caches

/-- Something to do in a workspace. -/
inductive WorkspaceCommand (κ : Type) where
  | write (path : PathName) (content : Option Text)
  | delete (path : PathName)
  | fetch (name : Text)
  | fetchAll (names : List Text)
  | reload
  | renderNamed (name : Text) (data : Value κ)
  | renderText (source : Text) (data : Value κ)

/-- What a command answers. -/
inductive WorkspaceAnswer where
  | nothing
  | deleted (existed : Bool)
  | template (template : Option Template)
  | templates (templates : Entries Template)
  | rendering (rendering : Rendering)
  /-- The search for a template panicked. -/
  | panicked

namespace Workspace

variable {κ : Type}

/-- How files of a workspace are read. -/
def read (files : FileTree) (path : PathName) : Id (Except FileError Text) := files.read path

/-- Finds a template in the directory of a workspace. -/
def find (files : FileTree) (name : Text) : Directory.Search Id (Option Template) :=
  Directory.fetch (read files) name

/-- What a search in the directory of a workspace answers, and the workspace after it. -/
def search {α : Type} (workspace : Workspace) (action : Directory.Search Id α)
    (answer : α → WorkspaceAnswer) : WorkspaceAnswer × Workspace :=
  let (found, directory) := Id.run (action.run.run workspace.directory)
  ((found.map answer).getD .panicked, { workspace with directory := directory })

/-- What a command answers, and the workspace after it. -/
def step (evaluator : Evaluator κ) (limits : Limits) (workspace : Workspace) :
    WorkspaceCommand κ → WorkspaceAnswer × Workspace
  | .write path content =>
    (.nothing, { workspace with files := workspace.files.write path content })
  | .delete path =>
    (.deleted (workspace.files.hasFile path),
      { workspace with files := workspace.files.delete path })
  | .fetch name => workspace.search (find workspace.files name) .template
  | .fetchAll names =>
    workspace.search (Directory.fetchAll (read workspace.files) (distinct names)) .templates
  | .reload => (.nothing, { workspace with directory := workspace.directory.reload })
  | .renderNamed name data =>
    let (found, directory) := Id.run ((Stencil.renderNamed evaluator (find workspace.files) []
      limits name data workspace.caches).run.run workspace.directory)
    match found with
    | none => (.panicked, { workspace with directory := directory })
    | some (rendering, caches) =>
      (.rendering rendering, { workspace with directory := directory, caches := caches })
  | .renderText source data =>
    workspace.search (Stencil.renderText evaluator (find workspace.files) [] limits source data)
      .rendering

end Workspace

end Stencil
