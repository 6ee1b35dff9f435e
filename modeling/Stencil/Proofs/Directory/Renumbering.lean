import Stencil.Proofs.Directory.Workspaces
import Stencil.Proofs.Engine.Filling

/-!
# The numbers of cells do not matter

A directory gives each template that it loads the next cell. Nothing that is done in a workspace
depends on the numbers of cells: move all of them up, and put trees for cells below them beside the
others, and every command answers the same, with the numbers moved up (`Workspace.step_above`). A
workspace whose directory was reloaded is a new one over the same files, moved up beyond all the
cells that were given away before (`Workspace.OpenedAt.reload_eq_above`). So it answers what a new
one answers.
-/

set_option autoImplicit false

namespace Stencil

/-! ## Moving up -/

/-- The template with a cell so many numbers above its own. -/
def Template.above (shift : Nat) (template : Template) : Template :=
  { template with cell := template.cell + shift }

/-- Templates with cells so many numbers above their own. -/
def Entries.above (shift : Nat) (templates : Entries Template) : Entries Template :=
  templates.map fun entry => (entry.1, entry.2.above shift)

/-- The caches for cells so many numbers above, with older ones behind them. -/
def Caches.above (shift : Nat) (caches older : Caches) : Caches :=
  caches.map (fun entry => (entry.1 + shift, entry.2)) ++ older

/-- The directory with cells so many numbers above its own. -/
def Directory.above (shift : Nat) (directory : Directory) : Directory :=
  { directory with
    loaded := Entries.above shift directory.loaded
    nextCell := directory.nextCell + shift }

/-- The workspace with cells so many numbers above its own, and with older caches. -/
def Workspace.above (shift : Nat) (older : Caches) (workspace : Workspace) : Workspace where
  files := workspace.files
  directory := workspace.directory.above shift
  caches := workspace.caches.above shift older

/-- The answer with cells so many numbers above its own. -/
def WorkspaceAnswer.above (shift : Nat) : WorkspaceAnswer → WorkspaceAnswer
  | .template found => .template (found.map (Template.above shift))
  | .templates found => .templates (Entries.above shift found)
  | answer => answer

theorem Entries.above_cons (shift : Nat) (name : Text) (template : Template)
    (rest : Entries Template) :
    Entries.above shift ((name, template) :: rest)
      = (name, template.above shift) :: Entries.above shift rest := rfl

theorem lookup?_above (shift : Nat) (name : Text) (templates : Entries Template) :
    lookup? name (Entries.above shift templates)
      = (lookup? name templates).map (Template.above shift) := by
  induction templates with
  | nil => rfl
  | cons entry rest ih =>
      obtain ⟨key, template⟩ := entry
      rw [Entries.above_cons, lookup?, lookup?, ih]
      by_cases h : key = name
      · rw [if_pos h, if_pos h, Option.map_some]
      · rw [if_neg h, if_neg h]

theorem insertEntry_above (shift : Nat) (name : Text) (template : Template)
    (templates : Entries Template) :
    insertEntry name (template.above shift) (Entries.above shift templates)
      = Entries.above shift (insertEntry name template templates) := by
  induction templates with
  | nil => rfl
  | cons entry rest ih =>
      obtain ⟨key, held⟩ := entry
      rw [Entries.above_cons, insertEntry, insertEntry, ih]
      by_cases h : key = name
      · rw [if_pos h, if_pos h]
        rfl
      · rw [if_neg h, if_neg h]
        rfl

namespace Caches

variable {shift : Nat} {older : Caches}

theorem tree?_above (holder : ∀ entry ∈ older, entry.1 < shift) (caches : Caches) (cell : Nat) :
    (caches.above shift older).tree? (cell + shift) = caches.tree? cell := by
  induction caches with
  | nil =>
      -- the older cells are all below the shift
      have hnone : older.find? (fun entry => entry.1 == cell + shift) = none := by
        rw [List.find?_eq_none]
        intro entry hentry hcell
        have hlt := holder entry hentry
        have heq : entry.1 = cell + shift := by simpa using hcell
        omega
      simp [above, tree?, hnone]
  | cons entry rest ih =>
      have hcons : above shift (entry :: rest) older
          = (entry.1 + shift, entry.2) :: above shift rest older := rfl
      rw [hcons]
      by_cases h : entry.1 = cell
      · simp [tree?, h]
      · have hne : entry.1 + shift ≠ cell + shift := fun heq => h (Nat.add_right_cancel heq)
        simpa [tree?, h, hne] using ih

theorem fill_above (holder : ∀ entry ∈ older, entry.1 < shift) (caches : Caches) (cell : Nat)
    (tree : List Node) :
    (caches.above shift older).fill (cell + shift) tree
      = (caches.fill cell tree).above shift older := by
  unfold fill
  rw [tree?_above holder]
  cases caches.tree? cell with
  | some held => rfl
  | none => rfl

end Caches

/-! ## Searches -/

namespace Directory

variable {α β : Type}

theorem pathFor_above (shift : Nat) (directory : Directory) (name : Text) :
    (directory.above shift).pathFor name = directory.pathFor name := rfl

theorem keep_above (shift : Nat) (directory : Directory) (name source : Text) :
    (directory.above shift).keep name source = ((directory.keep name source).1.above shift,
      (directory.keep name source).2.above shift) := by
  have hloaded := insertEntry_above shift name ⟨some name, source, directory.nextCell⟩
    directory.loaded
  have hcell : directory.nextCell + shift + 1 = directory.nextCell + 1 + shift := by omega
  simp only [keep, above, Template.above, hcell] at hloaded ⊢
  rw [hloaded]

theorem searched_find_above (files : FileTree) (shift : Nat) (directory : Directory)
    (name : Text) :
    searched (Workspace.find files name) (directory.above shift)
      = ((searched (Workspace.find files name) directory).1.map
          (Option.map (Template.above shift)),
        (searched (Workspace.find files name) directory).2.above shift) := by
  have hloaded := lookup?_above shift name directory.loaded
  have hpath := pathFor_above shift directory name
  have hfinds := finds_searched files directory name
  generalize searched (Workspace.find files name) directory = found at hfinds
  cases hfinds with
  | kept hkept =>
      rw [hkept] at hloaded
      rw [find_of_kept hloaded]
      rfl
  | panicked hnew hplace =>
      rw [hnew] at hloaded
      rw [find_of_panicked hloaded (hpath.trans hplace)]
      rfl
  | refused hnew hplace =>
      rw [hnew] at hloaded
      rw [find_of_refused hloaded (hpath.trans hplace)]
      rfl
  | unread hnew hplace hread =>
      rw [hnew] at hloaded
      rw [find_of_unread hloaded (hpath.trans hplace) hread]
      rfl
  | read hnew hplace hread =>
      rw [hnew] at hloaded
      rw [find_of_read hloaded (hpath.trans hplace) hread, keep_above]
      rfl

/-- The second action does in a directory that was moved up what the first one does in the
directory, moved up; its answer is made from that of the first one. -/
def Follows (shift : Nat) (move : α → β) (action : Search Id α) (moved : Search Id β) : Prop :=
  ∀ directory, searched moved (directory.above shift)
    = ((searched action directory).1.map move, (searched action directory).2.above shift)

section Follows

variable {γ δ : Type} {shift : Nat}

theorem follows_pure (move : α → β) (value : α) :
    Follows shift move (pure value) (pure (move value)) := fun _ => rfl

theorem Follows.bind {move : α → β} {moveNext : γ → δ} {first : Search Id α}
    {moved : Search Id β} {next : α → Search Id γ} {movedNext : β → Search Id δ}
    (h : Follows shift move first moved)
    (hnext : ∀ value, Follows shift moveNext (next value) (movedNext (move value))) :
    Follows shift moveNext (first >>= next) (moved >>= movedNext) := by
  intro directory
  rw [searched_bind, searched_bind, h]
  rcases searched first directory with ⟨_ | value, after⟩
  · rfl
  · exact hnext value after

theorem follows_find (shift : Nat) (files : FileTree) (name : Text) :
    Follows shift (Option.map (Template.above shift)) (Workspace.find files name)
      (Workspace.find files name) :=
  fun directory => searched_find_above files shift directory name

/-- The actions whose answers do not depend on the numbers of cells. -/
def Numberless (action : Search Id α) : Prop := ∀ shift, Follows shift id action action

theorem numberless_documentSource (files : FileTree) (name : Text) :
    Numberless (documentSource (Workspace.find files) name) := by
  intro shift directory
  rw [searched_documentSource, searched_documentSource, searched_find_above]
  rcases searched (Workspace.find files name) directory with ⟨_ | _ | template, after⟩
  · rfl
  · rfl
  · rfl

theorem numberless_resolveDocument (files : FileTree) (limits : Limits) (document : Document) :
    Numberless (resolveDocument (documentSource (Workspace.find files)) limits document) :=
  resolveDocument_of_requests (fun value _ => follows_pure id value)
    (fun _ _ h hnext shift => (h shift).bind fun value => hnext value shift)
    (numberless_documentSource files) limits document

theorem follows_fetchEach (shift : Nat) (files : FileTree) (names : List Text) :
    Follows shift (Entries.above shift) (fetchEach (Workspace.read files) names)
      (fetchEach (Workspace.read files) names) := by
  induction names with
  | nil => exact follows_pure (Entries.above shift) []
  | cons name rest ih =>
      rw [fetchEach]
      refine (follows_find shift files name).bind fun found => ih.bind fun others => ?_
      cases found with
      | none => exact follows_pure (Entries.above shift) others
      | some template => exact follows_pure (Entries.above shift) ((name, template) :: others)

theorem follows_fetchAll (shift : Nat) (files : FileTree) (names : List Text) :
    Follows shift (Entries.above shift) (fetchAll (Workspace.read files) names)
      (fetchAll (Workspace.read files) names) := by
  intro directory
  rw [searched_fetchAll, searched_fetchAll, follows_fetchEach]
  rcases searched (fetchEach (Workspace.read files) names) directory with ⟨_ | templates, after⟩
  · rfl
  · rfl

end Follows

/-! ## Renders -/

section Renders

variable {κ : Type} {shift : Nat} {older : Caches} (holder : ∀ entry ∈ older, entry.1 < shift)
  (evaluator : Evaluator κ) (files : FileTree) (macros : Macros κ) (limits : Limits)
  (data : Value κ) (caches : Caches)

include holder

theorem follows_resolveTemplate (template : Template) :
    Follows shift (fun answer => (answer.1, answer.2.above shift older))
      (resolveTemplate (Workspace.find files) limits template caches)
      (resolveTemplate (Workspace.find files) limits (template.above shift)
        (caches.above shift older)) := by
  have htree := Caches.tree?_above holder caches template.cell
  have hfill := Caches.fill_above holder caches template.cell
  unfold resolveTemplate
  rw [Template.above, htree]
  cases caches.tree? template.cell with
  | some tree => exact follows_pure _ (Except.ok tree, caches)
  | none =>
      refine (numberless_resolveDocument files limits template.document shift).bind fun answer => ?_
      cases answer with
      | ok tree =>
          simp only [id, hfill]
          exact follows_pure _ (Except.ok tree, caches.fill template.cell tree)
      | error error => exact follows_pure _ (Except.error error, caches)

theorem follows_renderTemplate (template : Template) :
    Follows shift (fun answer => (answer.1, answer.2.above shift older))
      (renderTemplate evaluator (Workspace.find files) macros limits template data caches)
      (renderTemplate evaluator (Workspace.find files) macros limits (template.above shift) data
        (caches.above shift older)) := by
  unfold renderTemplate
  have hsource : (template.above shift).source = template.source := rfl
  rw [hsource]
  split
  · exact follows_pure _ (Rendering.text [], caches)
  · exact (follows_resolveTemplate holder files limits caches template).bind fun answer =>
      follows_pure _ (renderResolved evaluator macros data answer.1, answer.2)

/-- **Renders do not depend on the numbers of cells.** -/
theorem follows_renderNamed (name : Text) :
    Follows shift (fun answer => (answer.1, answer.2.above shift older))
      (renderNamed evaluator (Workspace.find files) macros limits name data caches)
      (renderNamed evaluator (Workspace.find files) macros limits name data
        (caches.above shift older)) := by
  unfold renderNamed
  refine (follows_find shift files name).bind fun found => ?_
  cases found with
  | none => exact follows_pure _ (Rendering.failed (.notFound name), caches)
  | some template =>
      exact follows_renderTemplate holder evaluator files macros limits data caches template

end Renders

end Directory

/-! ## Commands -/

namespace Workspace

variable {κ : Type} {shift : Nat} {older : Caches} (holder : ∀ entry ∈ older, entry.1 < shift)
  (evaluator : Evaluator κ) (limits : Limits)

theorem search_above {α : Type} {move : α → α} {action : Directory.Search Id α}
    (h : Directory.Follows shift move action action) (answer : α → WorkspaceAnswer)
    (hanswer : ∀ value, answer (move value) = (answer value).above shift) (older : Caches)
    (workspace : Workspace) :
    (workspace.above shift older).search action answer
      = ((workspace.search action answer).1.above shift,
        (workspace.search action answer).2.above shift older) := by
  have hdirectory : (workspace.above shift older).directory = workspace.directory.above shift := rfl
  rw [search_eq, search_eq, hdirectory, h]
  rcases Directory.searched action workspace.directory with ⟨_ | value, after⟩
  · rfl
  · simp only [Option.map_some, hanswer]
    rfl

include holder

/-- **A command in a workspace that was moved up** answers what it answers in the workspace, moved
up. -/
theorem step_above (workspace : Workspace) (command : WorkspaceCommand κ) :
    (workspace.above shift older).step evaluator limits command
      = ((workspace.step evaluator limits command).1.above shift,
        (workspace.step evaluator limits command).2.above shift older) := by
  cases command with
  | write path content => rfl
  | delete path => rfl
  | reload => rfl
  | fetch name =>
      exact search_above (Directory.follows_find shift _ name) _ (fun _ => rfl) older workspace
  | fetchAll names =>
      exact search_above (Directory.follows_fetchAll shift _ _) _ (fun _ => rfl) older workspace
  | renderText source data =>
      have hnumberless := renderText_of_requests (P := Directory.Numberless)
        (fun value _ => Directory.follows_pure id value)
        (fun _ _ h hnext shift => (h shift).bind fun value => hnext value shift)
        (Directory.numberless_documentSource workspace.files) evaluator [] limits source data
      exact search_above (hnumberless shift) _ (fun _ => rfl) older workspace
  | renderNamed name data =>
      have hrun := Directory.follows_renderNamed holder evaluator workspace.files [] limits data
        workspace.caches name workspace.directory
      rw [step_renderNamed, step_renderNamed]
      have hmoved : Directory.searched (Stencil.renderNamed evaluator
            (find (workspace.above shift older).files) [] limits name data
            (workspace.above shift older).caches) (workspace.above shift older).directory
          = _ := hrun
      rw [hmoved]
      rcases Directory.searched (Stencil.renderNamed evaluator (find workspace.files) [] limits name
        data workspace.caches) workspace.directory with ⟨_ | answer, after⟩
      · rfl
      · rfl

theorem run_above (commands : List (WorkspaceCommand κ)) (workspace : Workspace) :
    run evaluator limits commands (workspace.above shift older)
      = (run evaluator limits commands workspace).above shift older := by
  induction commands generalizing workspace with
  | nil => rfl
  | cons command rest ih =>
      rw [run_cons, run_cons, step_above holder, ih]

omit holder

/-! ## Reloading -/

/-- **A workspace that is reloaded is a new one** over the same files, with cells above all that
were given away. -/
theorem OpenedAt.reload_eq_above {root : PathName} {extension : Option Text}
    {workspace : Workspace} (h : OpenedAt root extension workspace) :
    (workspace.step evaluator limits .reload).2
      = (opened root extension workspace.files).above workspace.directory.nextCell
          workspace.caches := by
  obtain ⟨files, ⟨place, suffix, loaded, nextCell⟩, caches⟩ := workspace
  obtain rfl : place = root := h.root
  obtain rfl : suffix = extension := h.extension
  have hnext : 0 + nextCell = nextCell := Nat.zero_add nextCell
  simp only [opened, above, Directory.above, hnext]
  rfl

end Workspace

end Stencil
