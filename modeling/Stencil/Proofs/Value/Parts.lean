import Mathlib.Data.List.Nodup
import Stencil.Value

/-!
# The parts of values

A value's parts are the value itself and what its sequences and mappings hold, at every depth.
The mappings of template data hold each key once: they are made by putting entries one after the
other, and a key that is put again keeps its one place. Values whose mappings are made so are just
those that are `Keyed`.
-/

set_option autoImplicit false

namespace Stencil

namespace Value

variable {κ : Type}

/-! ## Induction -/

section Induction

variable {motive : Value κ → Prop}
  (null : motive .null)
  (bool : ∀ value, motive (.bool value))
  (number : ∀ value, motive (.number value))
  (text : ∀ content, motive (.text content))
  (sequence : ∀ items, (∀ item ∈ items, motive item) → motive (.sequence items))
  (mapping : ∀ entries, (∀ entry ∈ entries, motive entry.2) → motive (.mapping entries))
  (computed : ∀ computation, motive (.computed computation))

include null bool number text sequence mapping computed

/-- **Induction on values**: a property holds of all values if it passes from the items of a
sequence and from the values of a mapping to the whole. -/
@[elab_as_elim]
theorem value_induction : ∀ value : Value κ, motive value
  | .null => null
  | .bool value => bool value
  | .number value => number value
  | .text content => text content
  | .sequence items => sequence items fun item hitem =>
      have : sizeOf item < sizeOf items := List.sizeOf_lt_of_mem hitem
      value_induction item
  | .mapping entries => mapping entries fun entry hentry =>
      have : sizeOf entry < sizeOf entries := List.sizeOf_lt_of_mem hentry
      have : sizeOf entry.2 < sizeOf entry := by
        rw [Prod.mk.sizeOf_spec]
        omega
      value_induction entry.2
  | .computed computation => computed computation

end Induction

/-! ## Parts -/

/-- Is the second value the first one, or held in it at some depth? -/
inductive HasPart : Value κ → Value κ → Prop where
  | here {value : Value κ} : HasPart value value
  | item {items : List (Value κ)} {item part : Value κ} :
      item ∈ items → HasPart item part → HasPart (.sequence items) part
  | entry {entries : List (Text × Value κ)} {entry : Text × Value κ} {part : Value κ} :
      entry ∈ entries → HasPart entry.2 part → HasPart (.mapping entries) part

section HasPart

variable {items : List (Value κ)} {entries : List (Text × Value κ)} {part : Value κ}

theorem hasPart_sequence : (sequence items).HasPart part
    ↔ part = .sequence items ∨ ∃ item ∈ items, item.HasPart part := by
  constructor
  · rintro (_ | ⟨hitem, hpart⟩)
    · exact .inl rfl
    · exact .inr ⟨_, hitem, hpart⟩
  · rintro (rfl | ⟨item, hitem, hpart⟩)
    · exact .here
    · exact .item hitem hpart

theorem hasPart_mapping : (mapping entries).HasPart part
    ↔ part = .mapping entries ∨ ∃ entry ∈ entries, entry.2.HasPart part := by
  constructor
  · rintro (_ | _ | ⟨hentry, hpart⟩)
    · exact .inl rfl
    · exact .inr ⟨_, hentry, hpart⟩
  · rintro (rfl | ⟨entry, hentry, hpart⟩)
    · exact .here
    · exact .entry hentry hpart

/-- A value that is neither a sequence nor a mapping has no part but itself. -/
theorem hasPart_of_forall_ne {value : Value κ} (hsequence : ∀ items, value ≠ .sequence items)
    (hmapping : ∀ entries, value ≠ .mapping entries) : value.HasPart part ↔ part = value := by
  constructor
  · rintro (_ | ⟨-, -⟩ | ⟨-, -⟩)
    · rfl
    · exact absurd rfl (hsequence _)
    · exact absurd rfl (hmapping _)
  · rintro rfl
    exact .here

end HasPart

/-! ## Plain values -/

/-- Are there no computed entries in the value, and only numbers of some kind? -/
def Plain (good : Binary64 → Bool) (value : Value κ) : Prop :=
  (∀ computation, ¬ value.HasPart (.computed computation)) ∧
    ∀ x, value.HasPart (.number x) → good x = true

section Plain

variable {good : Binary64 → Bool}

theorem plain_null : (null : Value κ).Plain good := by
  simp [Plain, hasPart_of_forall_ne]

theorem plain_bool (value : Bool) : (bool value : Value κ).Plain good := by
  simp [Plain, hasPart_of_forall_ne]

theorem plain_text (content : Text) : (text content : Value κ).Plain good := by
  simp [Plain, hasPart_of_forall_ne]

theorem plain_number {x : Binary64} : (number x : Value κ).Plain good ↔ good x = true := by
  simp [Plain, hasPart_of_forall_ne]

theorem not_plain_computed (computation : κ) : ¬ (computed computation).Plain good :=
  fun h => h.1 computation .here

theorem plain_sequence {items : List (Value κ)} :
    (sequence items).Plain good ↔ ∀ item ∈ items, item.Plain good := by
  simp only [Plain, hasPart_sequence, reduceCtorEq, false_or]
  constructor
  · rintro ⟨hcomputed, hnumber⟩ item hitem
    exact ⟨fun computation hpart => hcomputed computation ⟨item, hitem, hpart⟩,
      fun x hpart => hnumber x ⟨item, hitem, hpart⟩⟩
  · intro h
    exact ⟨fun computation ⟨item, hitem, hpart⟩ => (h item hitem).1 computation hpart,
      fun x ⟨item, hitem, hpart⟩ => (h item hitem).2 x hpart⟩

theorem plain_mapping {entries : List (Text × Value κ)} :
    (mapping entries).Plain good ↔ ∀ entry ∈ entries, entry.2.Plain good := by
  simp only [Plain, hasPart_mapping, reduceCtorEq, false_or]
  constructor
  · rintro ⟨hcomputed, hnumber⟩ entry hentry
    exact ⟨fun computation hpart => hcomputed computation ⟨entry, hentry, hpart⟩,
      fun x hpart => hnumber x ⟨entry, hentry, hpart⟩⟩
  · intro h
    exact ⟨fun computation ⟨entry, hentry, hpart⟩ => (h entry hentry).1 computation hpart,
      fun x ⟨entry, hentry, hpart⟩ => (h entry hentry).2 x hpart⟩

end Plain

/-! ## Distinct keys -/

/-- Does every mapping in the value hold each of its keys once? -/
def Keyed (value : Value κ) : Prop :=
  ∀ entries, value.HasPart (.mapping entries) → (entries.map (·.1)).Nodup

section Keyed

variable {items : List (Value κ)} {entries : List (Text × Value κ)}

theorem keyed_sequence : (sequence items).Keyed ↔ ∀ item ∈ items, item.Keyed := by
  simp only [Keyed, hasPart_sequence, reduceCtorEq, false_or]
  exact ⟨fun h item hitem entries hpart => h entries ⟨item, hitem, hpart⟩,
    fun h entries ⟨item, hitem, hpart⟩ => h item hitem entries hpart⟩

theorem keyed_mapping : (mapping entries).Keyed
    ↔ (entries.map (·.1)).Nodup ∧ ∀ entry ∈ entries, entry.2.Keyed := by
  simp only [Keyed, hasPart_mapping, mapping.injEq]
  constructor
  · intro h
    exact ⟨h entries (.inl rfl), fun entry hentry others hpart =>
      h others (.inr ⟨entry, hentry, hpart⟩)⟩
  · rintro ⟨hnodup, h⟩ others (rfl | ⟨entry, hentry, hpart⟩)
    · exact hnodup
    · exact h entry hentry others hpart

theorem keyed_of_forall_ne {value : Value κ} (hsequence : ∀ items, value ≠ .sequence items)
    (hmapping : ∀ entries, value ≠ .mapping entries) : value.Keyed := fun entries hpart =>
  absurd ((hasPart_of_forall_ne hsequence hmapping).mp hpart).symm (hmapping entries)

end Keyed

/-! ## Mappings made entry by entry -/

section Building

variable {entries : List (Text × Value κ)}

/-- Entries with distinct keys are put into a mapping as they are. -/
theorem ofEntries_of_nodup (h : (entries.map (·.1)).Nodup) :
    ofEntries entries = .mapping entries := by
  suffices happend : ∀ earlier : List (Text × Value κ), ((earlier ++ entries).map (·.1)).Nodup →
      entries.foldl (fun m entry => insertEntry entry.1 entry.2 m) earlier = earlier ++ entries by
    rw [ofEntries, happend [] h, List.nil_append]
  clear h
  induction entries with
  | nil => intro earlier _; simp
  | cons entry rest ih =>
    intro earlier h
    have hkey : entry.1 ∉ earlier.map (·.1) := by
      rw [List.map_append, List.map_cons] at h
      exact fun hmem => (List.nodup_append.mp h).2.2 _ hmem _ List.mem_cons_self rfl
    rw [List.foldl_cons, insertEntry_of_notMem _ hkey, ih _ (by simpa using h)]
    simp

theorem keyed_ofEntries (h : ∀ entry ∈ entries, entry.2.Keyed) : (ofEntries entries).Keyed := by
  suffices hfold : ∀ earlier : List (Text × Value κ), (mapping earlier).Keyed →
      (mapping (entries.foldl (fun m entry => insertEntry entry.1 entry.2 m) earlier)).Keyed by
    exact hfold [] (keyed_mapping.mpr ⟨List.nodup_nil, by simp⟩)
  induction entries with
  | nil => exact fun earlier hearlier => hearlier
  | cons entry rest ih =>
    obtain ⟨hentry, hrest⟩ := List.forall_mem_cons.mp h
    intro earlier hearlier
    obtain ⟨hnodup, hvalues⟩ := keyed_mapping.mp hearlier
    refine ih hrest _ (keyed_mapping.mpr ⟨nodup_insertEntry _ _ hnodup, fun other hother => ?_⟩)
    rcases mem_insertEntry hother with rfl | hmem
    · exact hentry
    · exact hvalues other hmem

/-- Values whose mappings are made by putting entries one after the other. -/
inductive Built : Value κ → Prop where
  | null : Built .null
  | bool (value : Bool) : Built (.bool value)
  | number (value : Binary64) : Built (.number value)
  | text (content : Text) : Built (.text content)
  | sequence (items : List (Value κ)) : (∀ item ∈ items, Built item) → Built (.sequence items)
  | mapping (entries : List (Text × Value κ)) :
      (∀ entry ∈ entries, Built entry.2) → Built (ofEntries entries)
  | computed (computation : κ) : Built (.computed computation)

/-- A value's keys are distinct exactly if its mappings are made by putting entries. -/
theorem keyed_iff_built (value : Value κ) : value.Keyed ↔ value.Built := by
  constructor
  · intro h
    induction value using value_induction with
    | null => exact .null
    | bool value => exact .bool value
    | number value => exact .number value
    | text content => exact .text content
    | sequence items ih =>
      exact .sequence items fun item hitem => ih item hitem (keyed_sequence.mp h item hitem)
    | mapping entries ih =>
      obtain ⟨hnodup, hvalues⟩ := keyed_mapping.mp h
      rw [← ofEntries_of_nodup hnodup]
      exact .mapping entries fun entry hentry => ih entry hentry (hvalues entry hentry)
    | computed computation => exact .computed computation
  · intro h
    induction h with
    | sequence items _ ih => exact keyed_sequence.mpr ih
    | mapping entries _ ih => exact keyed_ofEntries ih
    | null | bool | number | text | computed =>
      exact keyed_of_forall_ne (by simp) (by simp)

end Building

end Value

end Stencil
