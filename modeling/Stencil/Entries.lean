import Stencil.Text

/-!
# Ordered entries

Mappings keep their entries in the order of insertion. A key that is inserted again keeps its
first place and takes the new value.
-/

set_option autoImplicit false

namespace Stencil

/-- Entries in order of insertion. -/
abbrev Entries (α : Type) := List (Text × α)

/-- The entries with a value put under a key. -/
def insertEntry {α : Type} (key : Text) (value : α) : Entries α → Entries α
  | [] => [(key, value)]
  | entry :: rest =>
    if entry.1 = key then (key, value) :: rest else entry :: insertEntry key value rest

/-- The value under a key. -/
def lookup? {α : Type} (key : Text) : Entries α → Option α
  | [] => none
  | entry :: rest => if entry.1 = key then some entry.2 else lookup? key rest

/-- The entries without a key. -/
def eraseEntry {α : Type} (key : Text) (entries : Entries α) : Entries α :=
  entries.filter fun entry => entry.1 ≠ key

theorem lookup?_insertEntry {α : Type} (key other : Text) (value : α) (entries : Entries α) :
    lookup? other (insertEntry key value entries)
      = if key = other then some value else lookup? other entries := by
  induction entries with
  | nil => simp [insertEntry, lookup?]
  | cons entry rest ih =>
    by_cases h : entry.1 = key
    · by_cases ho : key = other <;> simp [insertEntry, lookup?, h, ho]
    · by_cases ho : key = other
      · subst ho; simp [insertEntry, lookup?, h, ih]
      · simp [insertEntry, lookup?, h, ih, ho]

theorem lookup?_eraseEntry {α : Type} (key other : Text) (entries : Entries α) :
    lookup? other (eraseEntry key entries)
      = if key = other then none else lookup? other entries := by
  induction entries with
  | nil => simp [eraseEntry, lookup?]
  | cons entry rest ih =>
    unfold eraseEntry at ih ⊢
    by_cases h : entry.1 = key <;> by_cases ho : key = other <;>
      simp_all [lookup?]

theorem lookup?_append {α : Type} (key : Text) (entries more : Entries α) :
    lookup? key (entries ++ more) = (lookup? key entries).or (lookup? key more) := by
  induction entries with
  | nil => simp [lookup?]
  | cons entry rest ih =>
    by_cases h : entry.1 = key
    · simp [lookup?, h]
    · simp [lookup?, h, ih]

theorem lookup?_eq_none_iff {α : Type} (key : Text) (entries : Entries α) :
    lookup? key entries = none ↔ ∀ entry ∈ entries, entry.1 ≠ key := by
  induction entries with
  | nil => simp [lookup?]
  | cons entry rest ih =>
    by_cases h : entry.1 = key
    · simp [lookup?, h]
    · simp [lookup?, h, ih]

/-- What is looked up is the first entry of that key. -/
theorem exists_of_lookup? {α : Type} {key : Text} {value : α} {entries : Entries α}
    (h : lookup? key entries = some value) :
    ∃ earlier later, entries = earlier ++ (key, value) :: later ∧
      ∀ entry ∈ earlier, entry.1 ≠ key := by
  induction entries with
  | nil => cases h
  | cons entry rest ih =>
    by_cases hkey : entry.1 = key
    · simp only [lookup?, hkey, if_true, Option.some.injEq] at h
      obtain rfl : entry = (key, value) := Prod.ext hkey h
      exact ⟨[], rest, rfl, by simp⟩
    · simp only [lookup?, hkey, if_false] at h
      obtain ⟨earlier, later, rfl, hearlier⟩ := ih h
      exact ⟨entry :: earlier, later, rfl, List.forall_mem_cons.mpr ⟨hkey, hearlier⟩⟩

theorem mem_of_lookup? {α : Type} {key : Text} {value : α} {entries : Entries α}
    (h : lookup? key entries = some value) : (key, value) ∈ entries := by
  obtain ⟨earlier, later, rfl, -⟩ := exists_of_lookup? h
  exact List.mem_append_right _ List.mem_cons_self

theorem lookup?_of_mem {α : Type} {entries : Entries α} (h : (entries.map (·.1)).Nodup)
    {entry : Text × α} (hentry : entry ∈ entries) : lookup? entry.1 entries = some entry.2 := by
  induction entries with
  | nil => cases hentry
  | cons first rest ih =>
    rw [List.map_cons, List.nodup_cons] at h
    rcases List.mem_cons.mp hentry with rfl | hrest
    · simp [lookup?]
    · have hkey : first.1 ≠ entry.1 := fun hkey =>
        h.1 (List.mem_map.mpr ⟨entry, hrest, hkey.symm⟩)
      simp [lookup?, hkey, ih h.2 hrest]

theorem keys_insertEntry {α : Type} (key : Text) (value : α) (entries : Entries α) :
    (insertEntry key value entries).map (·.1)
      = if key ∈ entries.map (·.1) then entries.map (·.1) else entries.map (·.1) ++ [key] := by
  induction entries with
  | nil => simp [insertEntry]
  | cons entry rest ih =>
    by_cases hkey : entry.1 = key
    · simp [insertEntry, hkey]
    · have hne : key ≠ entry.1 := fun h => hkey h.symm
      rw [insertEntry, if_neg hkey, List.map_cons, ih]
      simp only [List.map_cons, List.mem_cons, hne, false_or]
      split <;> rfl

theorem nodup_insertEntry {α : Type} (key : Text) (value : α) {entries : Entries α}
    (h : (entries.map (·.1)).Nodup) : ((insertEntry key value entries).map (·.1)).Nodup := by
  rw [keys_insertEntry]
  split
  · exact h
  · next hkey =>
    refine List.nodup_append.mpr ⟨h, by simp, ?_⟩
    rintro other hother _ hsame rfl
    exact hkey (List.mem_singleton.mp hsame ▸ hother)

theorem mem_insertEntry {α : Type} {key : Text} {value : α} {entries : Entries α}
    {entry : Text × α} (h : entry ∈ insertEntry key value entries) :
    entry = (key, value) ∨ entry ∈ entries := by
  induction entries with
  | nil => exact .inl (List.mem_singleton.mp h)
  | cons first rest ih =>
    rw [insertEntry] at h
    split at h
    · exact (List.mem_cons.mp h).imp_right (List.mem_cons_of_mem _)
    · rcases List.mem_cons.mp h with rfl | hrest
      · exact .inr List.mem_cons_self
      · exact (ih hrest).imp_right (List.mem_cons_of_mem _)

theorem insertEntry_of_notMem {α : Type} {key : Text} (value : α) {entries : Entries α}
    (h : key ∉ entries.map (·.1)) :
    insertEntry key value entries = entries ++ [(key, value)] := by
  induction entries with
  | nil => rfl
  | cons entry rest ih =>
    rw [List.map_cons, List.mem_cons, not_or] at h
    rw [insertEntry, if_neg (Ne.symm h.1), ih h.2, List.cons_append]

/-- Is the text before the other in the order of the characters' code points? -/
def textLe : Text → Text → Bool
  | [], _ => true
  | _ :: _, [] => false
  | a :: s, b :: t => if a = b then textLe s t else a.toNat < b.toNat

/-- The entries sorted by key. -/
def sortEntries {α : Type} (entries : Entries α) : Entries α :=
  entries.mergeSort fun a b => textLe a.1 b.1

end Stencil
