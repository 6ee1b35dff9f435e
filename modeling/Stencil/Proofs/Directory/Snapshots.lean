import Stencil.Proofs.Directory.Below
import Stencil.Proofs.Directory.Renumbering
import Stencil.Proofs.Resolution.Inclusions

/-!
# A directory serves snapshots

Take any writes, deletions, searches and reloads, one after the other. The first search since the
last reload that finds a template for a name reads the file of that moment (`firstFound`), and every
later search gives this very template, whatever became of the file: what is kept is exactly what was
found (`lookup?_loaded_run`). A search that finds nothing leaves everything as it was, so the name
can be found later. A reload makes the workspace one that was just opened, up to the numbers of
cells (`fetch_snapshots`).

An extension with a slash in it is not an extension of file names, and adding it panics. So does
every search for a name that would have it added, and it keeps nothing then.
-/

set_option autoImplicit false

namespace Stencil

variable {κ : Type}

/-! ## What commands find -/

namespace WorkspaceCommand

/-- Does the command forget the templates that are kept? -/
def reloads : WorkspaceCommand κ → Bool
  | .reload => true
  | _ => false

/-- Does the command render something? -/
def renders : WorkspaceCommand κ → Bool
  | .renderNamed _ _ | .renderText _ _ => true
  | _ => false

/-- The template for a name that the command was answered with. -/
def found? (name : Text) : WorkspaceCommand κ → WorkspaceAnswer → Option Template
  | .fetch other, .template found => if other = name then found else none
  | .fetchAll _, .templates found => lookup? name found
  | _, _ => none

end WorkspaceCommand

namespace Workspace

variable (evaluator : Evaluator κ) (limits : Limits)

/-- The template for a name that the first search since the last reload found, if one has; at first
the one that was found before. -/
def firstFound (name : Text) (before : Option Template) : Workspace → List (WorkspaceCommand κ) →
    Option Template
  | _, [] => before
  | workspace, command :: rest =>
    let (answer, after) := workspace.step evaluator limits command
    firstFound name (if command.reloads then none else before.or (command.found? name answer))
      after rest

/-- How a render of the template under a name ends in the workspace, with any macros; it has no end
if the search for a template panics. -/
def rendered (macros : Macros κ) (workspace : Workspace) (name : Text) (data : Value κ) :
    Option Rendering :=
  (Directory.searched (Stencil.renderNamed evaluator (find workspace.files) macros limits name data
    workspace.caches) workspace.directory).1.map (·.1)

variable {evaluator limits}

/-- A template that was found first was found by one of the commands, with no reload since, or was
there before. -/
theorem exists_first_of_firstFound {name : Text} {before : Option Template}
    {workspace : Workspace} {history : List (WorkspaceCommand κ)} {template : Template}
    (h : firstFound evaluator limits name before workspace history = some template) :
    (before = some template ∧ ∀ command ∈ history, command.reloads = false) ∨
    ∃ earlier command later, history = earlier ++ command :: later ∧
      (∀ other ∈ command :: later, other.reloads = false) ∧
      firstFound evaluator limits name before workspace earlier = none ∧
      command.found? name ((run evaluator limits earlier workspace).step evaluator limits command).1
        = some template := by
  induction history generalizing before workspace with
  | nil => exact .inl ⟨h, by simp⟩
  | cons command rest ih =>
      rw [firstFound] at h
      rcases ih h with ⟨hfound, hrest⟩ | ⟨earlier, other, later, rfl, hlater, hnone, hother⟩
      · cases hreloads : command.reloads with
        | true =>
            rw [hreloads] at hfound
            cases hfound
        | false =>
            rw [hreloads, if_neg Bool.false_ne_true] at hfound
            have hall : ∀ other ∈ command :: rest, other.reloads = false :=
              List.forall_mem_cons.mpr ⟨hreloads, hrest⟩
            -- what was there before counts first, then what this command found
            cases before with
            | some found => exact .inl ⟨hfound, hall⟩
            | none => exact .inr ⟨[], command, rest, rfl, hall, rfl, hfound⟩
      · exact .inr ⟨command :: earlier, other, later, rfl, hlater, hnone, hother⟩

/-! ## What is kept -/

section Steps

variable {workspace : Workspace} {name : Text}

theorem step_fetch (workspace : Workspace) (name : Text) :
    workspace.step evaluator limits (.fetch name : WorkspaceCommand κ)
      = match Directory.searched (find workspace.files name) workspace.directory with
        | (none, after) => (.panicked, { workspace with directory := after })
        | (some found, after) => (.template found, { workspace with directory := after }) := by
  show workspace.search (find workspace.files name) .template = _
  rw [search_eq]
  rcases Directory.searched (find workspace.files name) workspace.directory with
    ⟨_ | found, after⟩
  · rfl
  · rfl

theorem step_fetch_of_kept {template : Template}
    (h : lookup? name workspace.directory.loaded = some template) :
    workspace.step evaluator limits (.fetch name : WorkspaceCommand κ)
      = (.template (some template), workspace) := by
  rw [step_fetch, Directory.find_of_kept h]

theorem step_fetchAll (workspace : Workspace) (names : List Text) :
    workspace.step evaluator limits (.fetchAll names : WorkspaceCommand κ)
      = match Directory.searched (Directory.fetchAll (read workspace.files) (distinct names))
            workspace.directory with
        | (none, after) => (.panicked, { workspace with directory := after })
        | (some found, after) => (.templates found, { workspace with directory := after }) := by
  show workspace.search (Directory.fetchAll (read workspace.files) (distinct names)) .templates = _
  rw [search_eq]
  rcases Directory.searched (Directory.fetchAll (read workspace.files) (distinct names))
    workspace.directory with ⟨_ | found, after⟩
  · rfl
  · rfl

/-- A search adds what it finds to what is kept, and a reload forgets it. -/
theorem lookup?_loaded_step (name : Text) {command : WorkspaceCommand κ}
    (hcommand : command.renders = false) :
    lookup? name (workspace.step evaluator limits command).2.directory.loaded
      = if command.reloads then none
        else (lookup? name workspace.directory.loaded).or
          (command.found? name (workspace.step evaluator limits command).1) := by
  cases command with
  | write path content => exact (Option.or_none).symm
  | delete path => exact (Option.or_none).symm
  | reload => rfl
  | renderNamed other data => cases hcommand
  | renderText source data => cases hcommand
  | fetch other =>
      have hfinds := Directory.finds_searched workspace.files workspace.directory other
      rw [step_fetch]
      generalize Directory.searched (find workspace.files other) workspace.directory = found
        at hfinds
      simp only [WorkspaceCommand.reloads, Bool.false_eq_true, if_false]
      cases hfinds with
      | panicked _ _ => exact (Option.or_none).symm
      | refused _ _ | unread _ _ _ => simp [WorkspaceCommand.found?]
      | kept hkept =>
          simp only [WorkspaceCommand.found?]
          by_cases hname : other = name
          · rw [← hname, hkept, Option.some_or]
          · rw [if_neg hname, Option.or_none]
      | read hnew hpath hread =>
          simp only [WorkspaceCommand.found?, Directory.lookup?_keep]
          by_cases hname : other = name
          · rw [if_pos hname, if_pos hname, ← hname, hnew, Option.none_or]
          · rw [if_neg hname, if_neg hname, Option.or_none]
  | fetchAll names =>
      rw [step_fetchAll]
      simp only [WorkspaceCommand.reloads, Bool.false_eq_true, if_false]
      rcases Directory.fetchAll_cases workspace.files workspace.directory (distinct names) with
        ⟨-, hnone⟩ | ⟨-, templates, after, hsome, hcollects⟩
      · rw [hnone]
        exact (Option.or_none).symm
      · rw [hsome]
        exact hcollects.loaded name

/-- **What is kept is what was found first** since the last reload. -/
theorem lookup?_loaded_run (name : Text) {history : List (WorkspaceCommand κ)}
    (hhistory : ∀ command ∈ history, command.renders = false) (workspace : Workspace) :
    lookup? name (run evaluator limits history workspace).directory.loaded
      = firstFound evaluator limits name (lookup? name workspace.directory.loaded) workspace
          history := by
  induction history generalizing workspace with
  | nil => rfl
  | cons command rest ih =>
      obtain ⟨hcommand, hrest⟩ := List.forall_mem_cons.mp hhistory
      rw [run_cons, ih hrest, lookup?_loaded_step name hcommand, firstFound]

/-- A template that is found for a name that is not kept was read from the file of the name. -/
theorem exists_path_of_found {command : WorkspaceCommand κ} {template : Template}
    (hnew : lookup? name workspace.directory.loaded = none)
    (h : command.found? name (workspace.step evaluator limits command).1 = some template) :
    ∃ path, workspace.directory.pathFor name = .done (some path) ∧
      workspace.files.read path = .ok template.source := by
  have hsource : Directory.sourceFound workspace.files workspace.directory name
      = some (some template.source) := by
    cases command with
    | write _ _ | delete _ | reload | renderNamed _ _ | renderText _ _ => cases h
    | fetch other =>
        rw [step_fetch] at h
        rcases hfound : Directory.searched (find workspace.files other) workspace.directory with
          ⟨_ | found, after⟩
        · rw [hfound] at h
          cases h
        · rw [hfound] at h
          simp only [WorkspaceCommand.found?] at h
          by_cases hname : other = name
          · rw [if_pos hname] at h
            rw [Directory.sourceFound, ← hname, hfound, h]
            rfl
          · rw [if_neg hname] at h
            cases h
    | fetchAll names =>
        rw [step_fetchAll] at h
        rcases Directory.fetchAll_cases workspace.files workspace.directory (distinct names) with
          ⟨-, hnone⟩ | ⟨-, templates, after, hsome, hcollects⟩
        · rw [hnone] at h
          cases h
        · rw [hsome] at h
          rw [← hcollects.same, Directory.sourceFound_of_kept (hcollects.kept h)]
  -- a source that is found for a name that is not kept comes from a file
  have hfinds := Directory.finds_searched workspace.files workspace.directory name
  unfold Directory.sourceFound at hsource
  generalize Directory.searched (find workspace.files name) workspace.directory = found
    at hsource hfinds
  cases hfinds with
  | kept hkept =>
      rw [hnew] at hkept
      cases hkept
  | panicked _ _ | refused _ _ | unread _ _ _ => cases hsource
  | @read path source _ hpath hread =>
      have hsame : source = template.source := by simpa [Directory.keep] using hsource
      exact ⟨path, hpath, hsame ▸ hread⟩

end Steps

/-! ## Several names at once -/

section Several

variable {workspace : Workspace} {name : Text}

theorem step_fetch_panicked_iff :
    (workspace.step evaluator limits (.fetch name : WorkspaceCommand κ)).1 = .panicked ↔
      Directory.sourceFound workspace.files workspace.directory name = none := by
  rw [step_fetch, Directory.sourceFound]
  rcases Directory.searched (find workspace.files name) workspace.directory with ⟨_ | found, after⟩
  · simp
  · simp

theorem step_fetch_isFound_iff :
    Directory.isFound workspace.files workspace.directory name = true ↔
      ∃ template, (workspace.step evaluator limits (.fetch name : WorkspaceCommand κ)).1
        = .template (some template) := by
  rw [step_fetch, Directory.isFound, Directory.sourceFound]
  rcases Directory.searched (find workspace.files name) workspace.directory with
    ⟨_ | _ | template, after⟩
  · simp
  · simp
  · simp

theorem step_fetch_found_iff {source : Text} :
    (∃ template, (workspace.step evaluator limits (.fetch name : WorkspaceCommand κ)).1
        = .template (some template) ∧ template.source = source) ↔
      Directory.sourceFound workspace.files workspace.directory name = some (some source) := by
  rw [step_fetch, Directory.sourceFound]
  rcases Directory.searched (find workspace.files name) workspace.directory with
    ⟨_ | _ | template, after⟩
  · simp
  · simp
  · simp

/-- **Searching for several names** finds a template for exactly the names for which a search alone
would find one, and reads what that search would read. -/
theorem step_fetchAll_answers (names : List Text) :
    ((∃ other ∈ names, (workspace.step evaluator limits (.fetch other : WorkspaceCommand κ)).1
        = .panicked) →
      workspace.step evaluator limits (.fetchAll names : WorkspaceCommand κ)
        = (.panicked, workspace)) ∧
    ((∀ other ∈ names, (workspace.step evaluator limits (.fetch other : WorkspaceCommand κ)).1
        ≠ .panicked) →
      ∃ templates after,
        workspace.step evaluator limits (.fetchAll names : WorkspaceCommand κ)
          = (.templates templates, after) ∧
        (templates.map (·.1)).Nodup ∧
        (∀ other, other ∈ templates.map (·.1) ↔ other ∈ names ∧
          ∃ template, (workspace.step evaluator limits (.fetch other : WorkspaceCommand κ)).1
            = .template (some template)) ∧
        ∀ other template, lookup? other templates = some template →
          (∃ alone, (workspace.step evaluator limits (.fetch other : WorkspaceCommand κ)).1
            = .template (some alone) ∧ alone.source = template.source) ∧
          after.step evaluator limits (.fetch other : WorkspaceCommand κ)
            = (.template (some template), after)) := by
  simp only [ne_eq, step_fetch_panicked_iff]
  rw [step_fetchAll]
  rcases Directory.fetchAll_cases workspace.files workspace.directory (distinct names) with
    ⟨⟨other, hother, hpanics⟩, hnone⟩ | ⟨hall, templates, after, hsome, hcollects⟩
  · rw [hnone]
    refine ⟨fun _ => rfl, fun hall => ?_⟩
    exact absurd hpanics (hall other ((mem_distinct other names).mp hother))
  · rw [hsome]
    constructor
    · rintro ⟨other, hother, hpanics⟩
      exact absurd hpanics (hall other ((mem_distinct other names).mpr hother))
    · intro _
      refine ⟨templates, _, rfl, ?_, ?_, ?_⟩
      · rw [hcollects.keys]
        exact (nodup_distinct names).filter _
      · intro other
        rw [hcollects.keys, List.mem_filter, mem_distinct, step_fetch_isFound_iff]
      · intro other template htemplate
        have hkept := hcollects.kept htemplate
        refine ⟨?_, ?_⟩
        · rw [step_fetch_found_iff, ← hcollects.same, Directory.sourceFound_of_kept hkept]
        · exact step_fetch_of_kept hkept

end Several

/-! ## Snapshots -/

section Snapshots

variable {root : PathName} {extension : Option Text} {workspace : Workspace} {name : Text}

/-- A search that finds a template for a name for the first time reads its file, gives the template
a cell that is empty and that no other template has, and keeps it beside the others. -/
theorem OpenedAt.step_fetch_of_read (h : OpenedAt root extension workspace)
    (hnew : lookup? name workspace.directory.loaded = none) {path : PathName} {source : Text}
    (hpath : workspace.directory.pathFor name = .done (some path))
    (hread : workspace.files.read path = .ok source) :
    ∃ template after,
      workspace.step evaluator limits (.fetch name : WorkspaceCommand κ)
        = (.template (some template), after) ∧
      template.name = some name ∧ template.source = source ∧
      workspace.caches.tree? template.cell = none ∧
      (∀ other kept, lookup? other workspace.directory.loaded = some kept →
        kept.cell ≠ template.cell) ∧
      after.files = workspace.files ∧ after.caches = workspace.caches ∧
      ∀ other, lookup? other after.directory.loaded
        = if name = other then some template else lookup? other workspace.directory.loaded := by
  -- every cell that is filled was given away before
  have hempty : workspace.caches.tree? workspace.directory.nextCell = none := by
    rw [Caches.tree?, Option.map_eq_none_iff, List.find?_eq_none]
    intro entry hentry hcell
    have hlt := h.cells entry hentry
    have heq : entry.1 = workspace.directory.nextCell := by simpa using hcell
    omega
  refine ⟨(workspace.directory.keep name source).1,
    { workspace with directory := (workspace.directory.keep name source).2 }, ?_, rfl, rfl, hempty,
    ?_, rfl, rfl, ?_⟩
  · rw [step_fetch, Directory.find_of_read hnew hpath hread]
  · intro other kept hkept
    exact Nat.ne_of_lt (h.keepsNamed other kept hkept).2
  · intro other
    exact Directory.lookup?_keep other source

/-- A search for a name that is not kept and cannot be read finds nothing and changes nothing. -/
theorem step_fetch_of_unread (hnew : lookup? name workspace.directory.loaded = none)
    (hpanics : workspace.directory.pathFor name ≠ .panicked)
    (hread : ∀ path source, workspace.directory.pathFor name = .done (some path) →
      workspace.files.read path ≠ .ok source) :
    workspace.step evaluator limits (.fetch name : WorkspaceCommand κ)
      = (.template none, workspace) := by
  have hfinds := Directory.finds_searched workspace.files workspace.directory name
  rw [step_fetch]
  generalize Directory.searched (find workspace.files name) workspace.directory = found at hfinds
  cases hfinds with
  | kept hkept =>
      rw [hnew] at hkept
      cases hkept
  | panicked _ h => exact absurd h hpanics
  | refused _ _ | unread _ _ _ => rfl
  | read _ hpath hsource => exact absurd hsource (hread _ _ hpath)

/-- **After a reload** everything is answered as in a workspace that was just opened, whatever is
done in both of them; only the cells have other numbers. -/
theorem step_of_reloaded (h : OpenedAt root extension workspace)
    (later : List (WorkspaceCommand κ)) :
    let used := run evaluator limits later (workspace.step evaluator limits
      (.reload : WorkspaceCommand κ)).2
    let fresh := run evaluator limits later (opened root extension workspace.files)
    (∀ command, (used.step evaluator limits command).1
      = (fresh.step evaluator limits command).1.above workspace.directory.nextCell) ∧
    ∀ (renderer : Evaluator κ) (macros : Macros κ) (bounds : Limits) (other : Text)
      (data : Value κ),
      rendered renderer bounds macros used other data
        = rendered renderer bounds macros fresh other data := by
  intro used fresh
  have hused : used = fresh.above workspace.directory.nextCell workspace.caches := by
    simp only [used, h.reload_eq_above evaluator limits]
    exact run_above h.cells evaluator limits later _
  rw [hused]
  constructor
  · intro command
    rw [step_above h.cells]
  · intro renderer macros bounds other data
    have hrender := Directory.follows_renderNamed h.cells renderer fresh.files macros bounds data
      fresh.caches other fresh.directory
    have hmoved : rendered renderer bounds macros
          (fresh.above workspace.directory.nextCell workspace.caches) other data
        = (Directory.searched (Stencil.renderNamed renderer (find fresh.files) macros bounds other
            data (fresh.caches.above workspace.directory.nextCell workspace.caches))
            (fresh.directory.above workspace.directory.nextCell)).1.map (·.1) := rfl
    rw [hmoved, hrender, rendered]
    simp [Function.comp_def]

/-- **A directory serves a snapshot of each name until it is reloaded.** Take any writes, deletions,
searches and reloads since the workspace was opened. If a search has found a template for the name
since the last reload, a search for it now gives this very template again and changes nothing; the
first search that found it had read the source from the file of that moment. If none has, a search
for a name whose path is accepted and can be read gives a new template with the source that the file
has now, and keeps it. It finds nothing, and changes nothing, if the name is refused or its file
cannot be read. It panics, and changes nothing either, if the path of the name panics: that is, if
the name is allowed, its path has no extension, and the extension to add has a slash in it.

A search for several names finds a template for exactly those for which a search alone would find
one, unless one of these searches would panic. After a reload, and whatever was rendered before it,
every command and every render gives what it gives in a new workspace over the same files. -/
theorem fetch_snapshots (evaluator : Evaluator κ) (limits : Limits) (root : PathName)
    (extension : Option Text) (files : FileTree) (history : List (WorkspaceCommand κ))
    (name : Text) :
    let start := opened root extension files
    let workspace := run evaluator limits history start
    let fetched := workspace.step evaluator limits (.fetch name : WorkspaceCommand κ)
    ((∀ command ∈ history, command.renders = false) →
      (∀ template, firstFound evaluator limits name none start history = some template →
        fetched = (.template (some template), workspace) ∧ template.name = some name ∧
        ∃ earlier command later path, history = earlier ++ command :: later ∧
          (∀ other ∈ command :: later, other.reloads = false) ∧
          firstFound evaluator limits name none start earlier = none ∧
          command.found? name ((run evaluator limits earlier start).step evaluator limits command).1
            = some template ∧
          (run evaluator limits earlier start).directory.pathFor name = .done (some path) ∧
          (run evaluator limits earlier start).files.read path = .ok template.source) ∧
      (firstFound evaluator limits name none start history = none →
        (∀ path source, workspace.directory.pathFor name = .done (some path) →
          workspace.files.read path = .ok source →
          ∃ template after, fetched = (.template (some template), after) ∧
            template.name = some name ∧ template.source = source ∧
            workspace.caches.tree? template.cell = none ∧
            (∀ other kept, lookup? other workspace.directory.loaded = some kept →
              kept.cell ≠ template.cell) ∧
            after.files = workspace.files ∧ after.caches = workspace.caches ∧
            ∀ other, lookup? other after.directory.loaded
              = if name = other then some template
                else lookup? other workspace.directory.loaded) ∧
        (workspace.directory.pathFor name ≠ .panicked →
          (∀ path source, workspace.directory.pathFor name = .done (some path) →
            workspace.files.read path ≠ .ok source) →
          fetched = (.template none, workspace)) ∧
        (workspace.directory.pathFor name = .panicked → fetched = (.panicked, workspace)))) ∧
    (workspace.directory.pathFor name = .panicked ↔
      ∃ suffix, extension = some suffix ∧ '/' ∈ suffix ∧ name ≠ [] ∧
        (PathName.components name).all Directory.isInside = true ∧
        PathName.extension? (PathName.join root name) = none) ∧
    (∀ names : List Text,
      ((∃ other ∈ names, (workspace.step evaluator limits (.fetch other : WorkspaceCommand κ)).1
          = .panicked) →
        workspace.step evaluator limits (.fetchAll names : WorkspaceCommand κ)
          = (.panicked, workspace)) ∧
      ((∀ other ∈ names, (workspace.step evaluator limits (.fetch other : WorkspaceCommand κ)).1
          ≠ .panicked) →
        ∃ templates after,
          workspace.step evaluator limits (.fetchAll names : WorkspaceCommand κ)
            = (.templates templates, after) ∧
          (templates.map (·.1)).Nodup ∧
          (∀ other, other ∈ templates.map (·.1) ↔ other ∈ names ∧
            ∃ template, (workspace.step evaluator limits (.fetch other : WorkspaceCommand κ)).1
              = .template (some template)) ∧
          ∀ other template, lookup? other templates = some template →
            (∃ alone, (workspace.step evaluator limits (.fetch other : WorkspaceCommand κ)).1
              = .template (some alone) ∧ alone.source = template.source) ∧
            after.step evaluator limits (.fetch other : WorkspaceCommand κ)
              = (.template (some template), after))) ∧
    ∀ later : List (WorkspaceCommand κ),
      let used := run evaluator limits later
        (workspace.step evaluator limits (.reload : WorkspaceCommand κ)).2
      let fresh := run evaluator limits later (opened root extension workspace.files)
      (∀ command, (used.step evaluator limits command).1
        = (fresh.step evaluator limits command).1.above workspace.directory.nextCell) ∧
      ∀ (renderer : Evaluator κ) (macros : Macros κ) (bounds : Limits) (other : Text)
        (data : Value κ),
        rendered renderer bounds macros used other data
          = rendered renderer bounds macros fresh other data := by
  intro start workspace fetched
  have hstart : ∀ commands : List (WorkspaceCommand κ),
      OpenedAt root extension (run evaluator limits commands start) := fun commands =>
    (openedAt_opened root extension files).run evaluator limits commands
  have hopened : OpenedAt root extension workspace := hstart history
  refine ⟨fun hhistory => ?_, ?_, step_fetchAll_answers, step_of_reloaded hopened⟩
  · have hkept : lookup? name workspace.directory.loaded
        = firstFound evaluator limits name none start history :=
      lookup?_loaded_run name hhistory start
    refine ⟨fun template htemplate => ?_, fun hnone => ?_⟩
    · rw [htemplate] at hkept
      refine ⟨step_fetch_of_kept hkept, (hopened.keepsNamed name template hkept).1, ?_⟩
      rcases exists_first_of_firstFound htemplate with ⟨hbefore, -⟩ | ⟨earlier, command, later,
        hsplit, hlater, hearlier, hfound⟩
      · cases hbefore
      · -- before the command that found it the template was not kept, so the command read it
        have hnew : lookup? name (run evaluator limits earlier start).directory.loaded = none := by
          refine (lookup?_loaded_run name (fun other hother => ?_) start).trans hearlier
          exact hhistory other (by rw [hsplit]; exact List.mem_append_left _ hother)
        obtain ⟨path, hpath, hread⟩ := exists_path_of_found hnew hfound
        exact ⟨earlier, command, later, path, hsplit, hlater, hearlier, hfound, hpath, hread⟩
    · have hnew := hkept.trans hnone
      refine ⟨fun path source hpath hread => hopened.step_fetch_of_read hnew hpath hread,
        step_fetch_of_unread hnew, fun hpanics => ?_⟩
      simp only [fetched, step_fetch, Directory.find_of_panicked hnew hpanics]
  · rw [Directory.pathFor_eq_panicked_iff, hopened.root, hopened.extension]

/-- The statement for a file that is written, read, and written again: the template keeps the source
that was read. -/
theorem fetch_snapshots_rewritten :
    let evaluator : Evaluator Unit := ⟨fun _ _ => .panicked, 0⟩
    let history : List (WorkspaceCommand Unit) :=
      [.write "r/x.t".toList (some ['a']), .fetch ['x'], .write "r/x.t".toList (some ['b'])]
    let template : Template := ⟨some ['x'], ['a'], 0⟩
    let start := opened ['r'] (some ['t']) {}
    let workspace := run evaluator {} history start
    (∀ command ∈ history, command.renders = false) ∧
      firstFound evaluator {} ['x'] none start history = some template ∧
      workspace.files.read "r/x.t".toList = .ok ['b'] ∧
      workspace.step evaluator {} (.fetch ['x'] : WorkspaceCommand Unit)
        = (.template (some template), workspace) := by
  intro evaluator history template start workspace
  have hhistory : ∀ command ∈ history, command.renders = false := by
    simp [history, WorkspaceCommand.renders]
  have hfound : firstFound evaluator {} ['x'] none start history = some template := by
    decide +kernel
  have hread : workspace.files.read "r/x.t".toList = .ok ['b'] := by
    decide +kernel
  have hsnapshots := fetch_snapshots evaluator {} ['r'] (some ['t']) {} history ['x']
  exact ⟨hhistory, hfound, hread, ((hsnapshots.1 hhistory).1 template hfound).1⟩

/-- A search can panic instead of finding nothing: an extension with a slash in it cannot be
added. -/
theorem not_forall_fetch_answers :
    ¬ ∀ (evaluator : Evaluator Unit) (limits : Limits) (root : PathName) (extension : Option Text)
      (files : FileTree) (history : List (WorkspaceCommand Unit)) (name : Text),
      let start := opened root extension files
      let workspace := run evaluator limits history start
      (∀ command ∈ history, command.renders = false) →
      firstFound evaluator limits name none start history = none →
      (∀ path source, workspace.directory.pathFor name = .done (some path) →
        workspace.files.read path ≠ .ok source) →
      workspace.step evaluator limits (.fetch name : WorkspaceCommand Unit)
        = (.template none, workspace) := by
  intro h
  let directory : Directory := { root := ['r'], extension := some "a/b".toList }
  have hpath : directory.pathFor ['x'] = .panicked := by
    decide
  have hanswer := h ⟨fun _ _ => .panicked, 0⟩ {} ['r'] (some "a/b".toList) {} [] ['x'] (by simp) rfl
    (fun path source hdone => absurd (hpath.symm.trans hdone) (by simp))
  rw [step_fetch] at hanswer
  have hpanics : Directory.searched (find {} ['x']) directory = (none, directory) :=
    Directory.find_of_panicked rfl hpath
  have hrun : (run (⟨fun _ _ => .panicked, 0⟩ : Evaluator Unit) {} []
    (opened ['r'] (some "a/b".toList) {})) = ⟨{}, directory, []⟩ := rfl
  rw [hrun, hpanics] at hanswer
  cases hanswer

end Snapshots

end Workspace

end Stencil
