import Stencil.Proofs.Directory.Asking
import Stencil.Proofs.Engine.Filling
import Stencil.Proofs.Evaluation.OuterKeys
import Stencil.Proofs.Scope.Paths

/-!
# Where a render panics

A panic inside a macro call ends with that call, so the evaluation of a tree panics only by the keys
of that tree, and only where no macro runs: the keys of values and blocks, and the arguments of
calls, which are found before the macro is called. `Meets` follows an evaluation to the keys that it
resolves there; it has no rule for the run of a macro. By the rules an evaluation can panic if and
only if one of these keys can (`exists_panicked_iff`), and a key panics where it leads to a computed
entry that does. All this holds of macros and computed entries that answer differently each time.

What is met is met in a context that comes from the data: in the data themselves, in a value inside
them, or in what a computed entry has given. So where no computed entry that the data carry panics,
no tree and no macros make a render panic (`panics_by_own_keys`), as long as the search for its
templates does not. In a directory that search can (`not_forall_render_ne_panicked`).
-/

set_option autoImplicit false

namespace Stencil

open Evaluation

variable {κ : Type}

/-! ## Keys that are resolved while no macro runs -/

/-- The keys of a tree at every depth. -/
def keysWithin (nodes : List Node) : List Text := (nodesWithin nodes).flatMap Node.keys

/-- A call can end without a text, so that its body is shown in the last context: its macro is not
registered, fails or panics. -/
inductive FallsBack (possible : Environment κ → Prop) (name : Text) (arguments : List Argument)
    (context : Value κ) : Value κ → Prop where
  | unregistered {args : List (Value κ)} {env : Environment κ} :
      ArgumentsGive possible context arguments (.done args) →
      possible env → lookup? name env.macros = none →
      FallsBack possible name arguments context context
  -- a macro that fails can have caught a panic before, and then the body is shown where that left
  | failed {args : List (Value κ)} {env : Environment κ} {m : Macro κ} {left : Value κ} :
      ArgumentsGive possible context arguments (.done args) →
      possible env → lookup? name env.macros = some m →
      Evaluates possible (.run (m args)) context (.done none) left →
      FallsBack possible name arguments context left
  | panicked {args : List (Value κ)} {env : Environment κ} {m : Macro κ} {left : Value κ} :
      ArgumentsGive possible context arguments (.done args) →
      possible env → lookup? name env.macros = some m →
      Evaluates possible (.run (m args)) context .panicked left →
      FallsBack possible name arguments context context

/-- `Meets possible evaluand context key here` says that an evaluation from `context` can come to
resolve `key` in the context `here` while no macro runs. -/
inductive Meets (possible : Environment κ → Prop) :
    Evaluand κ → Value κ → Text → Value κ → Prop where
  | value {key : Text} {isEscaped : Bool} {context : Value κ} :
      Meets possible (.node (.value key isEscaped)) context key context
  | blockKey {kind : BlockKind} {key : Text} {body : List Node} {otherwise : Option (List Node)}
      {context : Value κ} :
      Meets possible (.node (.block kind key body otherwise)) context key context
  | block {kind : BlockKind} {key inner : Text} {body : List Node}
      {otherwise : Option (List Node)} {context value here : Value κ} {env : Environment κ} :
      possible env → resolve env.evaluate context key = .done value →
      Meets possible (blockEvaluand kind body otherwise value) context inner here →
      Meets possible (.node (.block kind key body otherwise)) context inner here
  | slot {name key : Text} {body : List Node} {context here : Value κ} :
      Meets possible (.nodes body) context key here →
      Meets possible (.node (.slot name body)) context key here
  | argument {name key : Text} {before rest : List Argument} {body : Option (List Node)}
      {context : Value κ} {args : List (Value κ)} :
      ArgumentsGive possible context before (.done args) →
      Meets possible (.node (.call name (before ++ .key key :: rest) body)) context key context
  | body {name key : Text} {arguments : List Argument} {body : Option (List Node)}
      {context start here : Value κ} :
      FallsBack possible name arguments context start →
      Meets possible (.nodes (body.getD [])) start key here →
      Meets possible (.node (.call name arguments body)) context key here
  | head {node : Node} {rest : List Node} {key : Text} {context here : Value κ} :
      Meets possible (.node node) context key here →
      Meets possible (.nodes (node :: rest)) context key here
  | tail {node : Node} {rest : List Node} {key before : Text} {context between here : Value κ} :
      Evaluates possible (.node node) context (.done (some before)) between →
      Meets possible (.nodes rest) between key here →
      Meets possible (.nodes (node :: rest)) context key here
  | eachHead {body : List Node} {key : Text} {inner context here : Value κ}
      {rest : List (Value κ)} :
      Meets possible (.nodes body) inner key here →
      Meets possible (.each body (inner :: rest)) context key here
  | eachTail {body : List Node} {key before : Text} {inner left context here : Value κ}
      {rest : List (Value κ)} :
      Evaluates possible (.nodes body) inner (.done (some before)) left →
      Meets possible (.each body rest) context key here →
      Meets possible (.each body (inner :: rest)) context key here

theorem Outcome.map_eq_panicked_iff {α β : Type} {f : α → β} {outcome : Outcome α} :
    outcome.map f = .panicked ↔ outcome = .panicked := by
  cases outcome <;> simp [Outcome.map]

section Meets

variable {possible : Environment κ → Prop} {evaluand : Evaluand κ} {context left : Value κ}

/-- Arguments panic at the first key among them that does. -/
theorem argumentsGive_panicked_iff {arguments : List Argument} :
    ArgumentsGive possible context arguments .panicked ↔
      ∃ before key rest args env, arguments = before ++ .key key :: rest ∧
        ArgumentsGive possible context before (.done args) ∧
        possible env ∧ resolve env.evaluate context key = .panicked := by
  constructor
  · intro h
    generalize hending : Outcome.panicked = ending at h
    induction h with
    | nil => cases hending
    | @literal content rest outcome _ ih =>
        obtain rfl := Outcome.map_eq_panicked_iff.mp hending.symm
        obtain ⟨before, key, more, args, env, rfl, hgive, henv, hkey⟩ := ih rfl
        exact ⟨.literal content :: before, key, more, _, env, rfl, .literal hgive, henv, hkey⟩
    | @key first rest outcome firstEnv value hfirst hvalue _ ih =>
        obtain rfl := Outcome.map_eq_panicked_iff.mp hending.symm
        obtain ⟨before, key, more, args, env, rfl, hgive, henv, hkey⟩ := ih rfl
        exact ⟨.key first :: before, key, more, _, env, rfl, .key hfirst hvalue hgive, henv, hkey⟩
    | @keyPanicked key rest env henv hkey =>
        exact ⟨[], key, rest, [], env, rfl, .nil, henv, hkey⟩
  · rintro ⟨before, key, rest, args, env, rfl, hgive, henv, hkey⟩
    generalize Outcome.done args = ending at hgive
    induction hgive with
    | nil => exact .keyPanicked henv hkey
    | literal _ ih => exact .literal ih
    | key hfirst hvalue _ ih => exact .key hfirst hvalue ih
    | keyPanicked hfirst hvalue => exact .keyPanicked hfirst hvalue

/-- A key that an evaluation meets can panic. -/
def MeetsPanic (possible : Environment κ → Prop) (evaluand : Evaluand κ) (context : Value κ) :
    Prop :=
  ∃ key here env, Meets possible evaluand context key here ∧ possible env ∧
    resolve env.evaluate here key = .panicked

/-- An evaluation meets a key that panics if it meets all that another does. -/
theorem MeetsPanic.imp {other : Evaluand κ} {start : Value κ}
    (h : MeetsPanic possible evaluand context)
    (himp : ∀ {key here}, Meets possible evaluand context key here →
      Meets possible other start key here) : MeetsPanic possible other start := by
  obtain ⟨key, here, env, hmeets, hkey⟩ := h
  exact ⟨key, here, env, himp hmeets, hkey⟩

/-- Where an evaluation panics it has met a key that does. -/
theorem Evaluates.meetsPanic {outcome : Outcome (Option Text)}
    (h : Evaluates possible evaluand context outcome left) :
    outcome = .panicked → evaluand.IsOutside → MeetsPanic possible evaluand context := by
  induction h with
  | text | value | inclusion | callShown | nil | eachNil => rintro ⟨⟩
  | valuePanicked henv hkey => exact fun _ _ => ⟨_, _, _, .value, henv, hkey⟩
  | blockPanicked henv hkey => exact fun _ _ => ⟨_, _, _, .blockKey, henv, hkey⟩
  | block henv hvalue _ ih =>
      intro hpanicked _
      exact (ih hpanicked (isOutside_blockEvaluand _ _ _ _)).imp (.block henv hvalue)
  | slot _ ih => exact fun hpanicked _ => (ih hpanicked trivial).imp .slot
  | callArgumentPanicked hgive =>
      obtain ⟨before, key, rest, args, env, rfl, hbefore, henv, hkey⟩ :=
        argumentsGive_panicked_iff.mp hgive
      exact fun _ _ => ⟨key, _, env, .argument hbefore, henv, hkey⟩
  | callUnregistered hgive henv hm _ ih =>
      exact fun hpanicked _ => (ih hpanicked trivial).imp (.body (.unregistered hgive henv hm))
  | callFailed hgive henv hm hrun _ _ ih =>
      exact fun hpanicked _ => (ih hpanicked trivial).imp (.body (.failed hgive henv hm hrun))
  | callPanicked hgive henv hm hrun _ _ ih =>
      exact fun hpanicked _ => (ih hpanicked trivial).imp (.body (.panicked hgive henv hm hrun))
  | cons hnode _ _ ih =>
      intro hpanicked _
      exact (ih (Outcome.prepend_eq_panicked_iff.mp hpanicked) trivial).imp (.tail hnode)
  | consPanicked _ ih => exact fun _ _ => (ih rfl trivial).imp .head
  | eachCons hbody _ _ ih =>
      intro hpanicked _
      exact (ih (Outcome.prepend_eq_panicked_iff.mp hpanicked) trivial).imp (.eachTail hbody)
  | eachPanicked _ ih => exact fun _ _ => (ih rfl trivial).imp .eachHead
  | runDone | runFailed | runPanicked | runContext | runTryKey | runTryTemplate =>
      exact fun _ houtside => houtside.elim

/-- An evaluation that meets a key panics if the key does. -/
theorem Meets.exists_panicked {key : Text} {here : Value κ} {env : Environment κ}
    (h : Meets possible evaluand context key here) (henv : possible env)
    (hkey : resolve env.evaluate here key = .panicked) :
    ∃ left, Evaluates possible evaluand context .panicked left := by
  induction h with
  | value => exact ⟨_, .valuePanicked henv hkey⟩
  | blockKey => exact ⟨_, .blockPanicked henv hkey⟩
  | block hother hvalue _ ih => exact (ih hkey).imp fun _ => .block hother hvalue
  | slot _ ih => exact (ih hkey).imp fun _ => .slot
  | argument hbefore =>
      refine ⟨_, .callArgumentPanicked (argumentsGive_panicked_iff.mpr ?_)⟩
      exact ⟨_, _, _, _, env, rfl, hbefore, henv, hkey⟩
  | body hfalls _ ih =>
      obtain ⟨left, hleft⟩ := ih hkey
      cases hfalls with
      | unregistered hgive hother hm => exact ⟨left, .callUnregistered hgive hother hm hleft⟩
      | failed hgive hother hm hrun => exact ⟨left, .callFailed hgive hother hm hrun hleft⟩
      | panicked hgive hother hm hrun => exact ⟨left, .callPanicked hgive hother hm hrun hleft⟩
  | head _ ih => exact (ih hkey).imp fun _ => .consPanicked
  | tail hnode _ ih => exact (ih hkey).imp fun _ => .cons hnode
  | eachHead _ ih => exact (ih hkey).imp fun _ => .eachPanicked
  | eachTail hbody _ ih => exact (ih hkey).imp fun _ => .eachCons hbody

/-- **An evaluation panics by a key that it meets**, and by nothing else. -/
theorem exists_panicked_iff (houtside : evaluand.IsOutside) :
    (∃ left, Evaluates possible evaluand context .panicked left) ↔
      MeetsPanic possible evaluand context := by
  constructor
  · rintro ⟨left, h⟩
    exact h.meetsPanic rfl houtside
  · rintro ⟨key, here, env, hmeets, henv, hkey⟩
    exact hmeets.exists_panicked henv hkey

end Meets

/-! ## Keys of the tree -/

theorem keysWithin_subset {inner nodes : List Node}
    (h : nodesWithin inner ⊆ nodesWithin nodes) : keysWithin inner ⊆ keysWithin nodes := by
  intro key hkey
  obtain ⟨node, hnode, hkey⟩ := List.mem_flatMap.mp hkey
  exact List.mem_flatMap.mpr ⟨node, h hnode, hkey⟩

theorem mem_keysWithin_head {node : Node} {rest : List Node} {key : Text} (h : key ∈ node.keys) :
    key ∈ keysWithin (node :: rest) :=
  List.mem_flatMap.mpr ⟨node, mem_nodesWithin_head node rest, h⟩

theorem mem_argumentKeys (before : List Argument) (key : Text) (rest : List Argument) :
    key ∈ argumentKeys (before ++ .key key :: rest) := by
  induction before with
  | nil => exact List.mem_cons_self
  | cons argument before ih =>
      cases argument with
      | literal content => exact ih
      | key other => exact List.mem_cons_of_mem other ih

/-- The keys that an evaluation meets are those of its own tree. -/
theorem Meets.mem_keysWithin {possible : Environment κ → Prop} {evaluand : Evaluand κ}
    {context here : Value κ} {key : Text} (h : Meets possible evaluand context key here) :
    key ∈ keysWithin evaluand.tree := by
  induction h with
  | @value key isEscaped context =>
      exact @mem_keysWithin_head (.value key isEscaped) [] key List.mem_cons_self
  | @blockKey kind key body otherwise context =>
      exact @mem_keysWithin_head (.block kind key body otherwise) [] key List.mem_cons_self
  | block _ _ _ ih => exact keysWithin_subset (nodesWithin_tree_blockEvaluand _ _ _ _ _) ih
  | @slot name key body context here _ ih =>
      exact keysWithin_subset (nodesWithin_subset_slot name body []) ih
  | @argument name key before rest body context args _ =>
      exact @mem_keysWithin_head (.call name (before ++ .key key :: rest) body) [] key
        (mem_argumentKeys before key rest)
  | @body name key arguments body context start here _ _ ih =>
      exact keysWithin_subset (nodesWithin_subset_call name arguments [] body) ih
  | @head node rest key context here _ ih =>
      exact keysWithin_subset (nodesWithin_subset_head node rest) ih
  | @tail node rest key before context between here _ _ ih =>
      exact keysWithin_subset (nodesWithin_subset_cons node rest) ih
  | eachHead _ ih | eachTail _ _ ih => exact ih

/-! ## Data without panics -/

/-- The value has the computed entry in it, at any depth. -/
inductive Value.Carries : Value κ → κ → Prop where
  | computed {computation : κ} : Carries (.computed computation) computation
  | item {items : List (Value κ)} {item : Value κ} {computation : κ} :
      item ∈ items → Carries item computation → Carries (.sequence items) computation
  | entry {entries : List (Text × Value κ)} {entry : Text × Value κ} {computation : κ} :
      entry ∈ entries → Carries entry.2 computation → Carries (.mapping entries) computation

/-- All computed entries in the value are among some. -/
def Value.Within (calm : κ → Prop) (value : Value κ) : Prop :=
  ∀ computation, value.Carries computation → calm computation

/-- No computed entry in the data panics, nor any that comes up by evaluating them: they are among
some that never panic and whose values have only such entries in them again, as long as those that
hold them do. -/
def PanicFree (possible : Environment κ → Prop) (data : Value κ) : Prop :=
  ∃ calm : κ → Prop, data.Within calm ∧
    ∀ env, possible env → ∀ computation holder, calm computation → holder.Within calm →
      ∃ value, env.evaluate computation holder = .done value ∧ value.Within calm

section Within

variable {calm : κ → Prop} {holder value : Value κ}

theorem within_text (content : Text) : (Value.text content).Within calm := by
  rintro computation ⟨⟩

theorem within_ofNat (n : Nat) : (Value.ofNat n).Within calm := by
  rintro computation ⟨⟩

theorem Value.Within.of_holds (h : holder.Within calm) {segment : Text}
    (hholds : holder.Holds segment value) : value.Within calm := by
  cases hholds with
  | entry hlookup =>
      intro computation hcarries
      exact h computation (.entry (mem_of_lookup? hlookup) hcarries)
  | item _ _ hitem =>
      intro computation hcarries
      exact h computation (.item (List.mem_of_getElem? hitem) hcarries)
  | itemCount | characterCount => exact within_ofNat _

theorem Value.Within.of_leads (h : holder.Within calm) {path : List Text}
    (hpath : Leads holder path value) : value.Within calm := by
  induction hpath with
  | here => exact h
  | step hholds _ ih => exact ih (h.of_holds hholds)

theorem within_presented {found : Option (Value κ)}
    (h : ∀ value ∈ found, value.Within calm) : (presented found).Within calm := by
  cases found with
  | none => exact within_text []
  | some value =>
      rw [presented_some]
      split
      · exact within_text []
      · exact h value rfl

theorem within_mapping {entries : List (Text × Value κ)}
    (h : ∀ entry ∈ entries, entry.2.Within calm) : (Value.mapping entries).Within calm := by
  rintro computation hcarries
  cases hcarries with
  | entry hmem hcarries => exact h _ hmem computation hcarries

theorem Value.Within.of_mem_items {items : List (Value κ)}
    (h : (Value.sequence items).Within calm) : ∀ item ∈ items, item.Within calm :=
  fun _ hitem computation hcarries => h computation (.item hitem hcarries)

theorem within_itemContexts (position : Nat) {items : List (Value κ)}
    (h : ∀ item ∈ items, item.Within calm) :
    ∀ context ∈ itemContexts position items, context.Within calm := by
  induction items generalizing position with
  | nil => simp [itemContexts]
  | cons item rest ih =>
      rw [List.forall_mem_cons] at h
      rw [itemContexts, List.forall_mem_cons]
      refine ⟨within_mapping ?_, ih (position + 1) h.2⟩
      simp only [List.forall_mem_cons]
      exact ⟨within_ofNat _, within_ofNat _, h.1, by simp⟩

/-- The contexts of a loop have nothing in them but positions, keys, and what the value has. -/
theorem Value.Within.loopContexts (h : value.Within calm) :
    ∀ context ∈ Stencil.loopContexts value, context.Within calm := by
  cases value with
  | sequence items => exact within_itemContexts 0 h.of_mem_items
  | mapping entries =>
      intro context hcontext
      obtain ⟨entry, hentry, rfl⟩ := List.mem_map.mp hcontext
      refine within_mapping ?_
      simp only [List.forall_mem_cons]
      refine ⟨within_text _, ?_, by simp⟩
      exact fun computation hcarries => h computation (.entry hentry hcarries)
  | null | bool _ | number _ | text _ | computed _ => simp [Stencil.loopContexts]

theorem Value.Within.shiftContexts (h : value.Within calm) :
    ∀ context ∈ Stencil.shiftContexts value, context.Within calm := by
  cases value with
  | sequence items => exact h.of_mem_items
  | null | bool _ | number _ | text _ | mapping _ | computed _ =>
      intro context hcontext
      obtain rfl := List.mem_singleton.mp hcontext
      exact h

/-- The contexts that an evaluand is about have only such entries in them. -/
def Evaluand.ContextsWithin (calm : κ → Prop) : Evaluand κ → Prop
  | .each _ contexts => ∀ context ∈ contexts, context.Within calm
  | .node _ | .nodes _ | .run _ => True

theorem contextsWithin_blockEvaluand (h : value.Within calm) (kind : BlockKind)
    (body : List Node) (otherwise : Option (List Node)) :
    (blockEvaluand kind body otherwise value).ContextsWithin calm := by
  unfold blockEvaluand
  by_cases hvalue : value.isTruthy = true
  · rw [if_pos hvalue]
    cases kind with
    | enumerate => exact h.loopContexts
    | scopeShift => exact h.shiftContexts
    | conditional | negated => trivial
  · rw [if_neg hvalue]
    cases kind <;> trivial

end Within

section PanicFree

variable {possible : Environment κ → Prop} {calm : κ → Prop}
  (hcalm : ∀ env, possible env → ∀ computation holder, calm computation → holder.Within calm →
    ∃ value, env.evaluate computation holder = .done value ∧ value.Within calm)

include hcalm

/-- A key gives a value that has only calm entries in it, and does not panic. -/
theorem exists_resolve_eq_done {env : Environment κ} (henv : possible env) {context : Value κ}
    (h : context.Within calm) (key : Text) :
    ∃ value, resolve env.evaluate context key = .done value ∧ value.Within calm := by
  rcases walk_cases env.evaluate context (splitText_ne_nil '.' key) with ⟨-, hwalk⟩ |
    ⟨path, segment, holder, computation, hkey, hpath, hholds, hwalk⟩ | ⟨value, hleads, -, hwalk⟩
  · exact ⟨_, resolve_of_walk hwalk, within_text []⟩
  · have hholder : holder.Within calm := h.of_leads hpath
    obtain ⟨value, hvalue, hwithin⟩ := hcalm env henv computation holder
      (hholder.of_holds hholds computation .computed) hholder
    rw [hvalue] at hwalk
    refine ⟨_, resolve_of_walk hwalk, within_presented ?_⟩
    rintro _ ⟨⟩
    exact hwithin
  · refine ⟨_, resolve_of_walk hwalk, within_presented ?_⟩
    rintro _ ⟨⟩
    exact h.of_leads hleads

/-- Wherever an evaluation ends, also with a panic, it ends in a context that has only calm entries
in it. -/
theorem Evaluates.within {evaluand : Evaluand κ} {context after : Value κ}
    {outcome : Outcome (Option Text)} (h : Evaluates possible evaluand context outcome after) :
    evaluand.ContextsWithin calm → context.Within calm → after.Within calm := by
  induction h with
  | text | value | valuePanicked | blockPanicked | inclusion | callArgumentPanicked | nil | eachNil
  | runDone | runFailed | runPanicked => exact fun _ hcontext => hcontext
  | @block kind key body otherwise context value after env outcome henv hvalue _ ih =>
      intro _ hcontext
      obtain ⟨other, hother, hwithin⟩ := exists_resolve_eq_done hcalm henv hcontext key
      obtain rfl := Outcome.done.inj (hvalue.symm.trans hother)
      exact ih (contextsWithin_blockEvaluand hwithin kind body otherwise) hcontext
  | slot _ ih | callUnregistered _ _ _ _ ih | consPanicked _ ih | callShown _ _ _ _ ih
  | runContext _ ih | runTryKey _ _ _ ih => exact fun _ hcontext => ih trivial hcontext
  | callPanicked _ _ _ _ _ _ ih => exact fun _ hcontext => ih trivial hcontext
  | callFailed _ _ _ _ _ ihfirst ihrest | cons _ _ ihfirst ihrest
  | runTryTemplate _ _ ihfirst ihrest =>
      exact fun _ hcontext => ihrest trivial (ihfirst trivial hcontext)
  | eachCons _ _ _ ih =>
      intro hcontexts hcontext
      exact ih (fun other hother => hcontexts other (List.mem_cons_of_mem _ hother)) hcontext
  | eachPanicked _ ih => exact fun hcontexts _ => ih trivial (hcontexts _ List.mem_cons_self)

theorem FallsBack.within {name : Text} {arguments : List Argument} {context start : Value κ}
    (h : FallsBack possible name arguments context start) (hcontext : context.Within calm) :
    start.Within calm := by
  cases h with
  | unregistered | panicked => exact hcontext
  | failed _ _ _ hrun => exact hrun.within hcalm trivial hcontext

/-- Whatever an evaluation meets, it meets in a context that has only calm entries in it. -/
theorem Meets.within {evaluand : Evaluand κ} {context here : Value κ} {key : Text}
    (h : Meets possible evaluand context key here) :
    evaluand.ContextsWithin calm → context.Within calm → here.Within calm := by
  induction h with
  | value | blockKey | argument => exact fun _ hcontext => hcontext
  | @block kind key inner body otherwise context value here env henv hvalue _ ih =>
      intro _ hcontext
      obtain ⟨other, hother, hwithin⟩ := exists_resolve_eq_done hcalm henv hcontext key
      obtain rfl := Outcome.done.inj (hvalue.symm.trans hother)
      exact ih (contextsWithin_blockEvaluand hwithin kind body otherwise) hcontext
  | slot _ ih | head _ ih => exact fun _ hcontext => ih trivial hcontext
  | body hfalls _ ih => exact fun _ hcontext => ih trivial (hfalls.within hcalm hcontext)
  | tail hnode _ ih => exact fun _ hcontext => ih trivial (hnode.within hcalm trivial hcontext)
  | eachHead _ ih => exact fun hcontexts _ => ih trivial (hcontexts _ List.mem_cons_self)
  | eachTail _ _ ih =>
      intro hcontexts hcontext
      exact ih (fun other hother => hcontexts other (List.mem_cons_of_mem _ hother)) hcontext

end PanicFree

/-- An evaluation from such data does not panic, whatever the tree and the macros. -/
theorem PanicFree.not_panicked {possible : Environment κ → Prop} {data left : Value κ}
    (h : PanicFree possible data) (nodes : List Node) :
    ¬ Evaluates possible (.nodes nodes) data .panicked left := by
  intro hpanicked
  obtain ⟨calm, hdata, hcalm⟩ := h
  obtain ⟨key, here, env, hmeets, henv, hkey⟩ := hpanicked.meetsPanic rfl trivial
  obtain ⟨value, hvalue, -⟩ :=
    exists_resolve_eq_done hcalm henv (hmeets.within hcalm trivial hdata) key
  rw [hvalue] at hkey
  cases hkey

/-! ## Renders -/

/-- No tree, no template and no macros make a render of the data panic where templates are found in
a registry. Where they are found in a directory, only the search for them can panic, and only if the
extension of the directory holds a slash. -/
structure NoRenderPanics (evaluator : Evaluator κ) (data : Value κ) : Prop where
  tree (macros : Macros κ) (depth : Nat) (nodes : List Node) (left : Value κ) :
    renderNodes ⟨evaluator.evaluate, macros⟩ depth nodes data ≠ some (.panicked, left)
  template (engine : Engine κ) (template : Template) (caches : Caches) :
    (engine.render evaluator template data caches).1 ≠ .panicked
  named (engine : Engine κ) (name : Text) (caches : Caches) :
    (engine.renderNamed evaluator name data caches).1 ≠ .panicked
  source (engine : Engine κ) (source : Text) : engine.renderText evaluator source data ≠ .panicked
  templateInDirectory (files : FileTree) (directory : Directory) (macros : Macros κ)
    (limits : Limits) (template : Template) (caches : Caches) :
    directory.Ends (fun answer => answer.1 ≠ .panicked)
      (renderTemplate evaluator (Workspace.find files) macros limits template data caches)
  namedInDirectory (files : FileTree) (directory : Directory) (macros : Macros κ)
    (limits : Limits) (name : Text) (caches : Caches) :
    directory.Ends (fun answer => answer.1 ≠ .panicked)
      (renderNamed evaluator (Workspace.find files) macros limits name data caches)
  sourceInDirectory (files : FileTree) (directory : Directory) (macros : Macros κ)
    (limits : Limits) (source : Text) :
    directory.Ends (· ≠ .panicked)
      (renderText evaluator (Workspace.find files) macros limits source data)

section Renders

variable {evaluator : Evaluator κ} {data : Value κ}

/-- A render panics only in the evaluation of the tree: nothing before that does. -/
theorem renderResolved_ne_panicked
    (h : ∀ macros depth nodes left,
      renderNodes ⟨evaluator.evaluate, macros⟩ depth nodes data ≠ some (.panicked, left))
    (macros : Macros κ) (answer : Except RenderError (List Node)) :
    renderResolved evaluator macros data answer ≠ .panicked := by
  cases answer with
  | error error => simp [renderResolved]
  | ok tree =>
      rw [renderResolved, renderTree]
      split
      · simp
      · next hpanicked => exact absurd hpanicked (h macros evaluator.depth tree _)
      · simp

section Directories

variable (h : ∀ macros depth nodes left,
  renderNodes ⟨evaluator.evaluate, macros⟩ depth nodes data ≠ some (.panicked, left))
  (files : FileTree) (macros : Macros κ) (limits : Limits)

include h

theorem yields_renderTemplate_ne_panicked (template : Template) (caches : Caches) :
    Directory.Yields (fun answer => answer.1 ≠ .panicked)
      (renderTemplate evaluator (Workspace.find files) macros limits template data caches) := by
  unfold renderTemplate
  split
  · exact Directory.yields_pure (by simp)
  · refine Directory.Yields.bind (P := fun _ => True) (fun _ _ _ => trivial) fun answer _ => ?_
    exact Directory.yields_pure (renderResolved_ne_panicked h macros answer.1)

theorem yields_renderNamed_ne_panicked (name : Text) (caches : Caches) :
    Directory.Yields (fun answer => answer.1 ≠ .panicked)
      (renderNamed evaluator (Workspace.find files) macros limits name data caches) := by
  unfold renderNamed
  refine Directory.Yields.bind (P := fun _ => True) (fun _ _ _ => trivial) fun found _ => ?_
  cases found with
  | none => exact Directory.yields_pure (by simp)
  | some template => exact yields_renderTemplate_ne_panicked h files macros limits template caches

theorem yields_renderText_ne_panicked (source : Text) :
    Directory.Yields (· ≠ .panicked)
      (renderText evaluator (Workspace.find files) macros limits source data) := by
  unfold renderText
  split
  · exact Directory.yields_pure (by simp)
  · refine Directory.Yields.bind (P := fun _ => True) (fun _ _ _ => trivial) fun answer _ => ?_
    exact Directory.yields_pure (renderResolved_ne_panicked h macros answer)

end Directories

theorem noRenderPanics_of_tree
    (h : ∀ macros depth nodes left,
      renderNodes ⟨evaluator.evaluate, macros⟩ depth nodes data ≠ some (.panicked, left)) :
    NoRenderPanics evaluator data := by
  have hrender : ∀ (engine : Engine κ) (template : Template) (caches : Caches),
      (engine.render evaluator template data caches).1 ≠ .panicked := by
    intro engine template caches
    by_cases hsource : template.source = []
    · simp [engine.render_of_empty evaluator hsource]
    · rw [engine.render_of_source evaluator hsource]
      exact renderResolved_ne_panicked h engine.macros _
  refine ⟨h, hrender, ?_, ?_, ?_, ?_, ?_⟩
  · intro engine name caches
    cases hfound : lookup? name engine.templates with
    | none => simp [engine.renderNamed_of_none evaluator hfound]
    | some template =>
        rw [engine.renderNamed_of_some evaluator hfound]
        exact hrender engine template caches
  · intro engine source
    by_cases hsource : source = []
    · subst hsource
      simp [Engine.renderText, renderText]
    · rw [engine.renderText_of_source evaluator hsource]
      exact renderResolved_ne_panicked h engine.macros _
  · intro files directory macros limits template caches
    refine (yields_renderTemplate_ne_panicked h files macros limits template caches).ends ?_
    rw [Directory.searched_renderTemplate_eq_none_iff]
    exact fun hnone => hnone.2.2.exists_panicsAt
  · intro files directory macros limits name caches
    refine (yields_renderNamed_ne_panicked h files macros limits name caches).ends ?_
    rw [Directory.searched_renderNamed_eq_none_iff]
    rintro (hname | ⟨template, after, -, -, -, hasks⟩)
    · exact ⟨name, hname⟩
    · exact hasks.exists_panicsAt
  · intro files directory macros limits source
    refine (yields_renderText_ne_panicked h files macros limits source).ends ?_
    rw [Directory.searched_renderText_eq_none_iff]
    exact fun hnone => hnone.2.exists_panicsAt

end Renders

/-- A computed entry can panic where a key of the tree leads to it and no macro runs. -/
def OwnKeyPanics (possible : Environment κ → Prop) (nodes : List Node) (context : Value κ) : Prop :=
  ∃ key ∈ keysWithin nodes, ∃ here, Meets possible (.nodes nodes) context key here ∧
    ∃ env path segment holder computation, possible env ∧ splitText '.' key = path ++ [segment] ∧
      Leads here path holder ∧ holder.Holds segment (.computed computation) ∧
      env.evaluate computation holder = .panicked

theorem ownKeyPanics_iff_meetsPanic {possible : Environment κ → Prop} {nodes : List Node}
    {context : Value κ} :
    OwnKeyPanics possible nodes context ↔ MeetsPanic possible (.nodes nodes) context := by
  constructor
  · rintro ⟨key, -, here, hmeets, env, path, segment, holder, computation, henv, hpanics⟩
    exact ⟨key, here, env, hmeets, henv,
      resolve_eq_panicked_iff.mpr ⟨path, segment, holder, computation, hpanics⟩⟩
  · rintro ⟨key, here, env, hmeets, henv, hkey⟩
    obtain ⟨path, segment, holder, computation, hpanics⟩ := resolve_eq_panicked_iff.mp hkey
    exact ⟨key, hmeets.mem_keysWithin, here, hmeets, env, path, segment, holder, computation,
      henv, hpanics⟩

/-- **A render panics by its own keys alone**, once its templates are found. Whatever macros do, an
evaluation of a tree can panic if and only if a computed entry can that a key of the tree leads to,
a key that is resolved while no macro runs. So a panic of a macro, or inside text that a macro has
rendered, never leaves the render. And where no computed entry that comes up by evaluating the data
panics, no tree, no template and no macros make a render panic, but for the search in a directory.

That search panics if and only if the render asks for a name that panics: its path would have an
extension added that holds a slash. -/
theorem panics_by_own_keys :
    (∀ (possible : Environment κ → Prop) (nodes : List Node) (context : Value κ),
      (∃ left, Evaluates possible (.nodes nodes) context .panicked left) ↔
        OwnKeyPanics possible nodes context) ∧
    (∀ (env : Environment κ) (nodes : List Node) (context : Value κ),
      (∃ depth left, renderNodes env depth nodes context = some (.panicked, left)) ↔
        OwnKeyPanics (· = env) nodes context) ∧
    (∀ (possible : Environment κ → Prop) (data : Value κ), PanicFree possible data →
      ∀ nodes left, ¬ Evaluates possible (.nodes nodes) data .panicked left) ∧
    (∀ (evaluator : Evaluator κ) (data : Value κ),
      PanicFree (fun env => env.evaluate = evaluator.evaluate) data →
        NoRenderPanics evaluator data) ∧
    (∀ (evaluator : Evaluator κ) (files : FileTree) (directory : Directory) (macros : Macros κ)
      (limits : Limits) (data : Value κ) (caches : Caches),
      directory.RendersByNames evaluator files macros limits data caches) ∧
    ∀ (directory : Directory) (name : Text), directory.PanicsAt name ↔
      lookup? name directory.loaded = none ∧
        ∃ extension, directory.extension = some extension ∧ '/' ∈ extension ∧ name ≠ [] ∧
          (PathName.components name).all Directory.isInside = true ∧
          PathName.extension? (PathName.join directory.root name) = none := by
  refine ⟨?_, ?_, ?_, ?_, ?_, ?_⟩
  · intro possible nodes context
    rw [ownKeyPanics_iff_meetsPanic]
    exact exists_panicked_iff trivial
  · intro env nodes context
    have houtside : (Evaluand.nodes nodes : Evaluand κ).IsOutside := trivial
    rw [ownKeyPanics_iff_meetsPanic, ← exists_panicked_iff houtside, exists_comm]
    exact exists_congr fun left => (@evaluates_iff κ env nodes context left .panicked).symm
  · intro possible data h nodes left
    exact h.not_panicked nodes
  · intro evaluator data h
    refine noRenderPanics_of_tree fun macros depth nodes left hpanicked => ?_
    obtain ⟨calm, hdata, hcalm⟩ := h
    have hfree : PanicFree (· = ⟨evaluator.evaluate, macros⟩) data := by
      refine ⟨calm, hdata, ?_⟩
      rintro env rfl
      exact hcalm _ rfl
    exact hfree.not_panicked nodes (evaluates_of_renderNodes hpanicked)
  · intro evaluator files directory macros limits data caches
    exact Directory.rendersByNames evaluator files directory macros limits data caches
  · intro directory name
    exact and_congr_right fun _ => Directory.pathFor_eq_panicked_iff directory name

/-- The statement for a macro that has text rendered in which a computed entry panics. The render
panics where the same entry is an argument of the call, and not where it is met in that text. Of
data without the entry no render panics, though what another entry gives holds that one again. -/
theorem panics_by_own_keys_argument :
    let evaluate : Evaluate Bool := fun breaks _ =>
      if breaks then .panicked else .done (.mapping [(['x'], .computed false)])
    let env : Environment Bool :=
      { evaluate := evaluate, macros := [(['m'], fun _ => .template "{{=b}}".toList .done)] }
    let broken : Value Bool := .mapping [(['b'], .computed true), (['c'], .computed false)]
    let sound : Value Bool := .mapping [(['c'], .computed false)]
    OwnKeyPanics (· = env) (parseFragment "{{m(b)}}body{{/m}}".toList) broken ∧
      ¬ OwnKeyPanics (· = env) (parseFragment "{{m(c)}}body{{/m}}".toList) broken ∧
      PanicFree (fun env => env.evaluate = evaluate) sound ∧
      NoRenderPanics ⟨evaluate, 8⟩ sound := by
  intro evaluate env broken sound
  obtain ⟨hmeets, hpanics, -, hfree, -⟩ := @panics_by_own_keys Bool
  have hsound : PanicFree (fun env => env.evaluate = evaluate) sound := by
    have hentry (key : Text) : (Value.mapping [(key, .computed false)]).Within (· = false) := by
      refine within_mapping ?_
      rintro entry hentry computation hcarries
      obtain rfl := List.mem_singleton.mp hentry
      cases hcarries
      rfl
    refine ⟨(· = false), hentry ['c'], ?_⟩
    rintro other hother computation holder rfl -
    exact ⟨_, by rw [hother]; rfl, hentry ['x']⟩
  refine ⟨?_, ?_, hsound, hfree ⟨evaluate, 8⟩ sound hsound⟩
  · have htree : parseFragment "{{m(b)}}body{{/m}}".toList
        = [.call ['m'] [.key ['b']] (some [.text "body".toList])] := by with_unfolding_all rfl
    refine (hmeets (· = env) _ broken).mp ⟨broken, ?_⟩
    rw [htree]
    exact .consPanicked (.callArgumentPanicked (.keyPanicked rfl rfl))
  · intro hown
    have htree : parseFragment "{{m(c)}}body{{/m}}".toList
        = [.call ['m'] [.key ['c']] (some [.text "body".toList])] := by with_unfolding_all rfl
    have hsource : parseFragment "{{=b}}".toList = [.value ['b'] false] := by
      with_unfolding_all rfl
    have hargs : ArgumentsGive (· = env) broken [.key ['c']]
        ((Outcome.done []).map (.mapping [(['x'], .computed false)] :: ·)) := .key rfl rfl .nil
    have hrendered : Evaluates (· = env) (.nodes (parseFragment "{{=b}}".toList)) broken
        ((.panicked : Outcome Text).map some) broken := by
      rw [hsource]
      exact .consPanicked (.valuePanicked rfl rfl)
    have hcall : Evaluates (· = env)
        (.node (.call ['m'] [.key ['c']] (some [.text "body".toList]))) broken
        (.done (some "body".toList)) broken :=
      .callPanicked hargs rfl rfl (.runTryTemplate hrendered .runPanicked) (.cons .text .nil)
    have hevaluates : Evaluates (· = env) (.nodes (parseFragment "{{m(c)}}body{{/m}}".toList))
        broken ((Outcome.done "body".toList).map some) broken := by
      rw [htree]
      exact .cons hcall .nil
    obtain ⟨enough, hshown⟩ := evaluates_iff.mp hevaluates
    obtain ⟨depth, left, hpanicked⟩ := (hpanics env _ broken).mpr hown
    cases renderNodes_unique hshown hpanicked

/-- A search in a directory can panic though no computed entry does: an extension with a slash in it
cannot be added to the name of an included template. -/
theorem not_forall_render_ne_panicked :
    ¬ ∀ (evaluator : Evaluator Unit) (limits : Limits) (workspace : Workspace) (source : Text)
      (data : Value Unit), PanicFree (fun env => env.evaluate = evaluator.evaluate) data →
        (workspace.step evaluator limits (.renderText source data)).1 ≠ .panicked := by
  intro h
  let evaluator : Evaluator Unit := ⟨fun _ _ => .panicked, 0⟩
  have hfree : PanicFree (fun env => env.evaluate = evaluator.evaluate) (.null : Value Unit) := by
    refine ⟨fun _ => False, ?_, fun _ _ _ _ hcalm => hcalm.elim⟩
    rintro computation ⟨⟩
  have hdocument : Document.parse "{{+x}}".toList = ⟨none, [.inclusion ['x']]⟩ := by
    with_unfolding_all rfl
  refine h evaluator {} (Workspace.opened ['r'] (some "a/b".toList) {}) "{{+x}}".toList .null
    hfree ?_
  rw [Workspace.step, renderText, if_neg (by decide), hdocument]
  rfl

end Stencil
