import Stencil.Proofs.Value.Parts
import Stencil.Value.File

/-!
# Objects that are read hold each key once

Whatever a text of JSON says, the value that is read from it is `Keyed` (`keyed_of_parse?`): the
reader puts entries one after the other into the objects that are open, and a key that is put again
keeps its one place. The invariant is that of everything on the reader's stack, which each word
keeps (`JsonState.Keyed.next`).
-/

set_option autoImplicit false

namespace Stencil

variable {κ : Type}

/-! ## Keyed JSON -/

/-- Does every object in the JSON value hold each of its keys once? -/
def Json.Keyed (κ : Type) (json : Json) : Prop := (Value.ofJson json : Value κ).Keyed

namespace Value

theorem ofJsonItems_eq_map (items : List Json) :
    (ofJsonItems items : List (Value κ)) = items.map ofJson := by
  induction items with
  | nil => rfl
  | cons item rest ih => exact congrArg (ofJson item :: ·) ih

theorem ofJsonEntries_eq_map (entries : List (Text × Json)) :
    (ofJsonEntries entries : List (Text × Value κ))
      = entries.map fun entry => (entry.1, ofJson entry.2) := by
  induction entries with
  | nil => rfl
  | cons entry rest ih => exact congrArg ((entry.1, ofJson entry.2) :: ·) ih

end Value

namespace Json

theorem keyed_array {items : List Json} : (array items).Keyed κ ↔ ∀ item ∈ items, item.Keyed κ := by
  refine Value.keyed_sequence.trans ?_
  rw [Value.ofJsonItems_eq_map, List.forall_mem_map]
  rfl

theorem keyed_object {entries : List (Text × Json)} : (object entries).Keyed κ
    ↔ (entries.map (·.1)).Nodup ∧ ∀ entry ∈ entries, entry.2.Keyed κ := by
  refine Value.keyed_mapping.trans ?_
  rw [Value.ofJsonEntries_eq_map, List.forall_mem_map, List.map_map]
  rfl

theorem Keyed.insertEntry {entries : Entries Json} {value : Json} (h : (object entries).Keyed κ)
    (key : Text) (hvalue : value.Keyed κ) :
    (object (Stencil.insertEntry key value entries)).Keyed κ := by
  obtain ⟨hnodup, hvalues⟩ := keyed_object.mp h
  refine keyed_object.mpr ⟨nodup_insertEntry key value hnodup, fun entry hentry => ?_⟩
  rcases mem_insertEntry hentry with rfl | hmem
  · exact hvalue
  · exact hvalues entry hmem

end Json

/-! ## Keyed readings -/

/-- Is everything keyed that the open array or object holds so far? -/
def OpenJson.Keyed (κ : Type) : OpenJson → Prop
  | .array items => ∀ item ∈ items, item.Keyed κ
  | .object entries => (Json.object entries).Keyed κ
  | .entry entries _ => (Json.object entries).Keyed κ

/-- Is the value keyed that the word is, if it is one? -/
def JsonWord.Keyed (κ : Type) (word : JsonWord) : Prop :=
  ∀ value, word = .scalar value → value.Keyed κ

namespace JsonState

/-- Is everything in the state of a reading keyed? -/
structure Keyed (κ : Type) (state : JsonState) : Prop where
  value : ∀ value, state.place = .nothing value → value.Keyed κ
  stack : ∀ container ∈ state.stack, container.Keyed κ

variable {value : Json} {stack : List OpenJson} {state after : JsonState} {word : JsonWord}
  {depth : Nat}

theorem keyed_of_stack {place : JsonPlace} (hplace : ∀ value, place ≠ .nothing value)
    (hstack : ∀ container ∈ stack, container.Keyed κ) : (⟨place, stack⟩ : JsonState).Keyed κ :=
  ⟨fun value h => absurd h (hplace value), hstack⟩

theorem keyed_complete (hvalue : value.Keyed κ) (hstack : ∀ container ∈ stack, container.Keyed κ)
    (h : complete value stack = some after) : after.Keyed κ := by
  cases stack with
  | nil =>
    obtain rfl := Option.some.inj h
    exact ⟨fun _ hplace => JsonPlace.nothing.inj hplace ▸ hvalue, hstack⟩
  | cons container rest =>
    obtain ⟨hcontainer, hrest⟩ := List.forall_mem_cons.mp hstack
    cases container with
    | array items =>
      obtain rfl := Option.some.inj h
      exact keyed_of_stack nofun
        (List.forall_mem_cons.mpr ⟨List.forall_mem_cons.mpr ⟨hvalue, hcontainer⟩, hrest⟩)
    | object entries => cases h
    | entry entries key =>
      obtain rfl := Option.some.inj h
      exact keyed_of_stack nofun
        (List.forall_mem_cons.mpr ⟨Json.Keyed.insertEntry hcontainer key hvalue, hrest⟩)

theorem keyed_opened {place : JsonPlace} {container : OpenJson}
    (hplace : ∀ value, place ≠ .nothing value) (hcontainer : container.Keyed κ)
    (hstack : ∀ container ∈ stack, container.Keyed κ)
    (h : opened depth place container stack = some after) : after.Keyed κ := by
  rw [opened] at h
  split at h
  · obtain rfl := Option.some.inj h
    exact keyed_of_stack hplace (List.forall_mem_cons.mpr ⟨hcontainer, hstack⟩)
  · cases h

theorem keyed_begin (hword : word.Keyed κ) (hstack : ∀ container ∈ stack, container.Keyed κ)
    (h : begin depth stack word = some after) : after.Keyed κ := by
  cases word with
  | scalar value => exact keyed_complete (hword value rfl) hstack h
  | openArray =>
    have hnone : (OpenJson.array []).Keyed κ := fun item hitem => nomatch hitem
    refine keyed_opened ?_ hnone hstack h
    exact nofun
  | openObject =>
    have hnone : (OpenJson.object []).Keyed κ :=
      Json.keyed_object.mpr ⟨List.nodup_nil, fun entry hentry => nomatch hentry⟩
    refine keyed_opened ?_ hnone hstack h
    exact nofun
  | _ => cases h

theorem keyed_close (hstack : ∀ container ∈ stack, container.Keyed κ)
    (h : close word stack = some after) : after.Keyed κ := by
  unfold close at h
  split at h
  · obtain ⟨hitems, hrest⟩ := List.forall_mem_cons.mp hstack
    split at h
    · refine keyed_complete (Json.keyed_array.mpr fun item hitem => ?_) hrest h
      exact hitems item (List.mem_reverse.mp hitem)
    · cases h
  · obtain ⟨hentries, hrest⟩ := List.forall_mem_cons.mp hstack
    split at h
    · exact keyed_complete hentries hrest h
    · cases h
  · cases h

/-- One more word keeps the reading keyed. -/
theorem Keyed.next (hstate : state.Keyed κ) (hword : word.Keyed κ)
    (h : next depth state word = some after) : after.Keyed κ := by
  have hstack := hstate.stack
  unfold JsonState.next at h
  generalize state.place = place, state.stack = stack at h hstack
  split at h
  case h_1 | h_3 => exact keyed_begin hword hstack h
  case h_2 | h_4 | h_10 => exact keyed_close hstack h
  case h_5 | h_6 =>
    obtain rfl := Option.some.inj h
    obtain ⟨hentries, hrest⟩ := List.forall_mem_cons.mp hstack
    exact keyed_of_stack nofun (List.forall_mem_cons.mpr ⟨hentries, hrest⟩)
  case h_7 | h_8 | h_9 =>
    obtain rfl := Option.some.inj h
    exact keyed_of_stack nofun hstack
  case h_11 => cases h

theorem Keyed.foldlM {words : List JsonWord} (hstate : state.Keyed κ)
    (hwords : ∀ word ∈ words, word.Keyed κ)
    (h : words.foldlM (JsonState.next depth) state = some after) : after.Keyed κ := by
  induction words generalizing state with
  | nil => exact Option.some.inj h ▸ hstate
  | cons word rest ih =>
    obtain ⟨hword, hrest⟩ := List.forall_mem_cons.mp hwords
    rw [List.foldlM_cons] at h
    obtain ⟨middle, hnext, hafter⟩ := Option.bind_eq_some_iff.mp h
    exact ih (hstate.next hword hnext) hrest hafter

end JsonState

/-! ## Words -/

/-- No word is an array or an object. -/
theorem keyed_of_readWord? {c : Char} {rest after : Text} {word : JsonWord}
    (h : readWord? c rest = some (word, after)) : word.Keyed κ := by
  unfold readWord? at h
  split at h
  case h_1 | h_2 | h_3 | h_4 | h_5 | h_6 =>
    obtain ⟨rfl, -⟩ := Prod.mk.inj (Option.some.inj h)
    rintro value ⟨⟩
  all_goals
    obtain ⟨read, -, hread⟩ := Option.map_eq_some_iff.mp h
    obtain ⟨rfl, -⟩ := Prod.mk.inj hread
    rintro value ⟨⟩
    exact Value.keyed_of_forall_ne nofun nofun

theorem keyed_of_readWords? {steps : Nat} {t : Text} {words : List JsonWord}
    (h : readWords? steps t = some words) : ∀ word ∈ words, word.Keyed κ := by
  induction steps generalizing t words with
  | zero =>
    cases t with
    | nil => exact Option.some.inj h ▸ fun word hword => nomatch hword
    | cons c rest => cases h
  | succ steps ih =>
    cases t with
    | nil => exact Option.some.inj h ▸ fun word hword => nomatch hword
    | cons c rest =>
      rw [readWords?] at h
      split at h
      · exact ih h
      · obtain ⟨⟨word, after⟩, hword, h⟩ := Option.bind_eq_some_iff.mp h
        obtain ⟨more, hmore, h⟩ := Option.bind_eq_some_iff.mp h
        obtain rfl := Option.some.inj h
        exact List.forall_mem_cons.mpr ⟨keyed_of_readWord? hword, ih hmore⟩

/-! ## Reading -/

theorem Json.keyed_of_read? {depth : Nat} {t : Text} {json : Json}
    (h : Json.read? depth t = some json) : json.Keyed κ := by
  obtain ⟨words, hwords, h⟩ := Option.bind_eq_some_iff.mp h
  obtain ⟨state, hstate, h⟩ := Option.bind_eq_some_iff.mp h
  have hstart : (⟨.value, []⟩ : JsonState).Keyed κ :=
    JsonState.keyed_of_stack nofun nofun
  have hkeyed := hstart.foldlM (keyed_of_readWords? hwords) hstate
  split at h
  · next value hplace =>
    obtain rfl := Option.some.inj h
    exact hkeyed.value _ hplace
  · cases h

/-- **Data that is read from JSON is keyed.** -/
theorem Value.keyed_of_parse? {t : Text} {value : Value κ}
    (h : Value.parse? .json t = some value) : value.Keyed := by
  obtain ⟨json, hjson, rfl⟩ := Option.map_eq_some_iff.mp h
  exact Json.keyed_of_read? hjson

end Stencil
